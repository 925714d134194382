import Portal.Core.AdminGate
import Portal.Core.IniFiles
import Portal.Lib.Assignments

/-!
The settings of the modules: the files that `src/core/core_config.c` loads at the start, the table
that `/core/config/set` changes, and the storage providers of `src/core/core_storage.c`, which are
given every change and, when they register, every setting of the files.

* `config_durable` — when a value that was set is returned after a restart.
-/

namespace Portal

open List Runs Results Probing Option CStr Assignments

variable {providers : List StorageProvider}

/-! ### The files -/

def dotByte : UInt8 := 46
def leftBracket : UInt8 := 91
def rightBracket : UInt8 := 93

/-- `PORTAL_MAX_LINE` of `src/core/core_config.h`. -/
def portalMaxLine : Nat := 512

def sectionName (size : Nat) (name : CStr) (s : Bytes) : CStr :=
  (cutAt rightBracket s).elim name fun p => (CStr.ofBytes (p.1.drop 1)).truncate (size - 1)

/-- One line of a file. `size` is that of the buffer for the section, and `own` are the keys
that are not settings. -/
def confLine (size : Nat) (own : CStr → Bool) (st : CStr × PortalHt CStr) (s : Bytes) :
    CStr × PortalHt CStr :=
  if skippedLine s then st
  else if s.head? = some leftBracket then (sectionName size st.1 s, st.2)
  else
    match keyValue s with
    | none => st
    | some (key, val) =>
      if own key then st
      else (st.1, (portalHtSet st.2 ((CStr.concat [st.1, .lit ".", key]).truncate 255) val).1)

def loadLines (size : Nat) (own : CStr → Bool) (name : CStr) (cfg : PortalHt CStr) (file : Bytes) :
    PortalHt CStr :=
  (run (confLine size own) (name, cfg) (fileLines portalMaxLine file)).2

def portalConfigLoad (cfg : PortalHt CStr) (file : Bytes) : PortalHt CStr :=
  loadLines 64 (fun _ => false) (.lit "") cfg file

/-- `mod_<name>.conf` -/
def confModule (entry : CStr) : Option CStr :=
  if (CStr.lit "mod_").bytes <+: entry.bytes ∧ 10 ≤ entry.bytes.length ∧
      (CStr.lit ".conf").bytes <:+ entry.bytes then
    some ((entry.drop 4).truncate (min (entry.bytes.length - 9) (portalMaxModuleName - 1)))
  else none

/-- The entries of a directory, in the order of `readdir`, with what `fopen` finds. -/
abbrev ConfDir := List (CStr × Option Bytes)

def loadModuleConf (cfg : PortalHt CStr) (entry : CStr × Option Bytes) : PortalHt CStr :=
  match confModule entry.1, entry.2 with
  | some name, some file =>
    loadLines 128 (· = .lit "enabled") (((CStr.lit "mod_").append name).truncate 127) cfg file
  | _, _ => cfg

def loadModuleConfDir (cfg : PortalHt CStr) (dir : ConfDir) : PortalHt CStr :=
  run loadModuleConf cfg dir

structure ConfFiles where
  main : Option Bytes
  coreDir : ConfDir
  modulesDir : ConfDir

/-- `portal_config_defaults`, `portal_config_load` and `portal_config_load_modules_dir`. -/
def loadConf (conf : ConfFiles) : PortalHt CStr :=
  let cfg := portalHtInit htInitialCapacity
  let cfg := conf.main.elim cfg (portalConfigLoad cfg)
  loadModuleConfDir (loadModuleConfDir cfg conf.coreDir) conf.modulesDir

/-! ### Providers -/

def storageMaxProviders : Nat := 8

def portalStorageAdd (providers : List StorageProvider) (p : StorageProvider) :
    List StorageProvider × Int :=
  if storageMaxProviders ≤ providers.length ∨ (portalStorageFind providers p.name).isSome then
    (providers, -1)
  else (providers ++ [p], 0)

def syncedConfig (config : PortalHt CStr) : List (CStr × CStr × CStr) :=
  (portalHtIter config).filterMap fun e =>
    (cutAt dotByte e.1.bytes).bind fun p =>
      if (CStr.lit "mod_").bytes <+: e.1.bytes ∧ p.1.length < 128 then
        some (.ofBytes p.1, .ofBytes p.2, e.2)
      else none

/-- The users are handed over without a look at whether `user_save` is there. -/
def syncUsers (auth : AuthDb) (p : StorageProvider) : Option (List StorageWrite) :=
  if p.userSave = none ∧ auth.accounts ≠ [] then none
  else some (auth.accounts.map fun u => .user p.name u.stored)

def syncConfig (config : PortalHt CStr) (p : StorageProvider) : List StorageWrite :=
  if p.configSet then (syncedConfig config).map fun e => .config p.name e.1 e.2.1 e.2.2 else []

def providerPath (p : StorageProvider) (what : CStr) : CStr :=
  (CStr.concat [.lit "/core/storage/", p.name, what]).truncate (portalMaxPathLen - 1)

def apiStorageRegister (s : CoreState) (p : StorageProvider) : Option (CoreState × Int) :=
  if (portalStorageAdd s.storage p).2 < 0 then some (s, -1)
  else do
    let core := CStr.lit "core"
    let paths := (portalPathRegister s.paths (providerPath p (.lit "/resources/status")) core).1
    let paths := (portalPathRegister paths (providerPath p (.lit "/functions/sync")) core).1
    let users ← syncUsers s.auth p
    some ({ s with
      storage := (portalStorageAdd s.storage p).1
      paths := paths
      writes := s.writes ++ users ++ syncConfig s.config p }, 0)

/-! ### Messages and restarts -/

def configSetPath : CStr := .lit "/core/config/set"

def acceptedSet (msg : PortalMsg) : Option (CStr × CStr × CStr) :=
  if msg.path.map CStr.ofBytes = some configSetPath ∧ callerIsAdmin msg then do
    let module ← (← lastHdr (.lit "module") msg.headerList)
    let key ← (← lastHdr (.lit "key") msg.headerList)
    let val ← (← lastHdr (.lit "value") msg.headerList)
    some (.ofBytes module, .ofBytes key, .ofBytes val)
  else none

/-- A new process: the settings of the files, the providers that register, with what they were
given, and the rest as `boot` has it. -/
def restartSettings (boot : CoreState) (conf : ConfFiles) (providers : List StorageProvider)
    (s : CoreState) : Option CoreState :=
  providers.foldlM (fun s p => (apiStorageRegister s p).map Prod.fst)
    { boot with config := loadConf conf, storage := [], writes := s.writes }

inductive SettingEvent where
  | message (env : CoreEnv) (msg : PortalMsg)
  | restart (boot : CoreState) (conf : ConfFiles) (providers : List StorageProvider)

/-- A message that the core crashes on changes nothing, nor does a start that crashes. -/
def settingStep (s : CoreState) : SettingEvent → CoreState
  | .message env msg => (coreHandleMessage env s msg).elim s Prod.fst
  | .restart boot conf providers => (restartSettings boot conf providers s).getD s

def SettingEvent.sets : SettingEvent → List ((CStr × CStr) × CStr)
  | .message _ msg => (acceptedSet msg).toList.map fun a => ((a.1, a.2.1), a.2.2)
  | .restart _ _ _ => []

/-- What the providers are given. They know a module by the start of its name, which others may
share. -/
def SettingEvent.stores : SettingEvent → List ((CStr × CStr) × CStr)
  | .message _ msg => (acceptedSet msg).toList.map fun a => ((dbModule a.1, a.2.1), a.2.2)
  | .restart _ conf _ => (syncedConfig (loadConf conf)).map fun a => ((a.1, a.2.1), a.2.2)

def lastSet (module key : CStr) (es : List SettingEvent) : Option CStr :=
  assigned (module, key) (es.flatMap SettingEvent.sets)

def lastStored (module key : CStr) (es : List SettingEvent) : Option CStr :=
  assigned (dbModule module, key) (es.flatMap SettingEvent.stores)

/-! ### Providers that keep what they are given -/

def StorageWrite.setting : StorageWrite → List ((CStr × CStr × CStr) × CStr)
  | .user _ _ => []
  | .config p m k v => [((p, m, k), v)]

def keptValue (name module key : CStr) (writes : List StorageWrite) : Option CStr :=
  assigned (name, module, key) (writes.flatMap StorageWrite.setting)

/-- `config_get` fills a buffer of 4096 bytes. -/
structure StorageProvider.Keeps (writes : List StorageWrite) (p : StorageProvider) : Prop where
  configSet : p.configSet = true
  answers : ∀ m k, p.configGet m k = (keptValue p.name m k writes).map (CStr.truncate 4095)

def registeredProviders (providers : List StorageProvider) : List StorageProvider :=
  run (fun ps p => (portalStorageAdd ps p).1) [] providers

/-- One of the providers has this name and takes settings. -/
def Takes (name : CStr) (providers : List StorageProvider) : Prop :=
  ∃ p ∈ providers, p.name = name ∧ p.configSet = true

instance (name : CStr) (providers : List StorageProvider) : Decidable (Takes name providers) :=
  inferInstanceAs (Decidable (∃ p ∈ providers, p.name = name ∧ p.configSet = true))

/-- The providers are the same, and were given no setting. -/
structure SameSettings (s s' : CoreState) : Prop where
  storage : s'.storage = s.storage
  writes : s'.writes.filter StorageWrite.isConfig = s.writes.filter StorageWrite.isConfig

/-- The code of a module that is loaded or unloaded gives no settings to the providers; a start
registers the provider, and every one that registers can be given the users. -/
def Stores (name : CStr) (s : CoreState) : SettingEvent → Prop
  | .message env msg =>
    (msg.path.map CStr.ofBytes).bind (afterPrefix (.lit "/core/modules/")) ≠ none →
      ∀ action modName, SameSettings s (env.portalModuleDo action modName s).1
  | .restart boot _ providers =>
    Takes name (registeredProviders providers) ∧
      (boot.auth.accounts = [] ∨ ∀ p ∈ registeredProviders providers, p.userSave ≠ none)

/-- Where the value that was set last comes from after a restart at which the providers `before`
registered before the one that keeps the settings. -/
inductive Survives (conf : ConfFiles) (before : List StorageProvider) (module key : CStr)
    (es : List SettingEvent) (value : CStr) : Prop where
  | file (found : portalConfigGet (loadConf conf) module key = some value)
  | other (absent : portalConfigGet (loadConf conf) module key = none)
      (first : portalStorageGetConfig before (dbModule module) key = some value)
  | stored (absent : portalConfigGet (loadConf conf) module key = none)
      (silent : portalStorageGetConfig before (dbModule module) key = none)
      (last : (lastStored module key es).map (CStr.truncate 4095) = some value)

section Kept

variable {name module key : CStr} {s : CoreState}

theorem keptValue_append (ws ws' : List StorageWrite) :
    keptValue name module key (ws ++ ws') =
      (keptValue name module key ws').or (keptValue name module key ws) := by
  rw [keptValue, flatMap_append, assigned_append]
  rfl

theorem keptValue_filter (ws : List StorageWrite) :
    keptValue name module key (ws.filter StorageWrite.isConfig) = keptValue name module key ws := by
  have hsettings : (ws.filter StorageWrite.isConfig).flatMap StorageWrite.setting =
      ws.flatMap StorageWrite.setting := by
    induction ws with
    | nil => rfl
    | cons w ws ih =>
      cases w with
      | user p u => exact ih
      | config p m k v =>
        rw [filter_cons_of_pos rfl, flatMap_cons, flatMap_cons, ih]
  rw [keptValue, hsettings]
  rfl

theorem SameSettings.keptValue {s' : CoreState} (h : SameSettings s s') :
    keptValue name module key s'.writes = keptValue name module key s.writes := by
  rw [← keptValue_filter, h.writes, keptValue_filter]

theorem setting_saveConfig {m k value : CStr} {e : (CStr × CStr × CStr) × CStr}
    (he : e ∈ (portalStorageSaveConfig providers m k value).flatMap StorageWrite.setting) :
    e.1.2 = (m, k) ∧ e.2 = value := by
  obtain ⟨w, hw, hv⟩ := mem_flatMap.mp he
  obtain ⟨p, -, hp⟩ := mem_filterMap.mp hw
  obtain ⟨-, hp⟩ := ite_none_right_eq_some.mp hp
  obtain rfl := some.inj hp
  rw [mem_singleton.mp hv]
  exact ⟨rfl, rfl⟩

/-- A change reaches every provider that has `config_set`. -/
theorem keptValue_saveConfig (h : Takes name providers) (m k value : CStr) :
    keptValue name module key (portalStorageSaveConfig providers m k value) =
      assigned (module, key) [((m, k), value)] := by
  by_cases hkey : (m, k) = (module, key)
  · obtain ⟨rfl, rfl⟩ := Prod.mk.inj hkey
    rw [assigned_singleton, if_pos rfl]
    -- some provider of the name is given the value, and none of them another one
    cases hkept : keptValue name m k (portalStorageSaveConfig providers m k value) with
    | none =>
      obtain ⟨p, hp, rfl, hset⟩ := h
      refine absurd rfl (assigned_eq_none.mp hkept ((p.name, m, k), value) ?_)
      refine mem_flatMap.mpr ⟨.config p.name m k value, ?_, mem_singleton_self _⟩
      exact mem_filterMap.mpr ⟨p, hp, if_pos hset⟩
    | some v => exact congrArg some (setting_saveConfig (mem_of_assigned hkept)).2
  · rw [assigned_singleton, if_neg hkey, keptValue, assigned_eq_none]
    intro e he heq
    have hset := (setting_saveConfig he).1
    rw [heq] at hset
    exact hkey hset.symm

end Kept

section Messages

variable {env : CoreEnv} {s : CoreState} {msg : PortalMsg} {path : CStr}

theorem coreHandleMessage_configSet (env : CoreEnv) (s : CoreState) {msg : PortalMsg}
    (h : msg.path.map CStr.ofBytes = some configSetPath) :
    coreHandleMessage env s msg = handleConfigSet env s msg := by
  obtain ⟨p, hp, hpath⟩ := map_eq_some_iff.mp h
  have hne : ∀ t : String, configSetPath ≠ .lit t → ¬ configSetPath = .lit t := fun _ ht => ht
  have hafter : ∀ t : String, ¬ (lit t).bytes <+: configSetPath.bytes →
      afterPrefix (.lit t) configSetPath = none := fun t ht => if_neg ht
  have hnavigation : handleNavigation s msg configSetPath = none := by
    simp (disch := decide +kernel) only [handleNavigation, hne, false_and, if_false]
  have hmodules : handleModules env s msg configSetPath = none := by
    simp (disch := decide +kernel) only [handleModules, hafter]
  have hauth : handleAuth env s msg configSetPath = none := by
    simp (disch := decide +kernel) only [handleAuth, hne, false_and, if_false]
  have hevents : handleEvents s msg configSetPath = none := by
    simp (disch := decide +kernel) only [handleEvents, hne, hafter, isSome_none,
      Bool.false_eq_true, false_and, if_false]
  have husers : handleUsers env s msg configSetPath = none := by
    simp (disch := decide +kernel) only [handleUsers, hne, hafter, false_and, if_false]
  have hgroups : handleGroups env s msg configSetPath = none := by
    simp (disch := decide +kernel) only [handleGroups, hne, hafter, false_and, if_false]
  have hconfig : handleConfig env s msg configSetPath = some (handleConfigSet env s msg) := by
    rw [handleConfig, if_neg (by decide +kernel)]
    exact if_pos rfl
  simp only [coreHandleMessage, hp, hpath, coreHandlers, hnavigation, hmodules, hauth, hevents,
    husers, hgroups, hconfig]
  rfl

theorem settingStep_set (s : CoreState) (env : CoreEnv)
    (h : msg.path.map CStr.ofBytes = some configSetPath) :
    (settingStep s (.message env msg)).storage = s.storage ∧
      (settingStep s (.message env msg)).writes = s.writes ++ (acceptedSet msg).elim []
        fun a => portalStorageSaveConfig s.storage (dbModule a.1) a.2.1 a.2.2 := by
  rw [settingStep, coreHandleMessage_configSet _ _ h, handleConfigSet, acceptedSet]
  by_cases hadmin : callerIsAdmin msg = true
  · rw [if_neg (by simp [hadmin]), if_pos ⟨h, hadmin⟩]
    -- without one of the headers nothing is written
    obtain _ | _ | module := lastHdr (.lit "module") msg.headerList <;>
      obtain _ | _ | key := lastHdr (.lit "key") msg.headerList <;>
      obtain _ | _ | val := lastHdr (.lit "value") msg.headerList
    all_goals first
      | exact ⟨rfl, (append_nil _).symm⟩
      | exact ⟨rfl, rfl⟩
  · rw [if_pos (by simp [hadmin]), if_neg fun hc => hadmin hc.2]
    exact ⟨rfl, (append_nil _).symm⟩

/-- The postcondition of a handler that writes no setting. -/
abbrev WritesNone (s : CoreState) : CoreResult → Prop := Returns fun r => SameSettings s r.1

theorem writesNone_same (r : CoreReply) : WritesNone s (s.reply r) := returns_some.mpr ⟨rfl, rfl⟩

theorem writesNone_of_framed (env : CoreEnv) {o : Option CoreResult} (h : FramedIf env msg s o) :
    Returns (WritesNone s) o :=
  h.mono fun _ hr => hr.mono fun _ hframe => ⟨hframe.storage, hframe.configWrites⟩

theorem writesNone_saveUserDual (auth : AuthDb) (name : CStr) (r : CoreReply) :
    WritesNone s ((saveUserDual env { s with auth := auth } name).reply r) := by
  refine returns_some.mpr ?_
  unfold saveUserDual
  split
  · exact ⟨rfl, rfl⟩
  · refine ⟨rfl, ?_⟩
    rw [filter_append, filter_isConfig_saveUser, append_nil]

theorem handleUsers_writesNone : Returns (WritesNone s) (handleUsers env s msg path) := by
  apply returns_branch (writesNone_same _)
  split
  · exact returns_none
  apply returns_branch
  · refine returns_either (writesNone_same _) (returns_bind fun newpass _ => ?_)
    cases newpass with
    | none => exact writesNone_same _
    | some newpass =>
      dsimp only
      split
      · exact writesNone_same _
      · exact writesNone_saveUserDual _ _ _
  apply returns_branch
  · unfold handleUserInfo
    split <;> exact writesNone_same _
  refine returns_branch ?_ returns_none
  refine returns_either (writesNone_same _) (returns_bind fun password _ => ?_)
  refine returns_bind fun groups _ => returns_either ?_ (returns_some.mpr ⟨rfl, rfl⟩)
  exact writesNone_saveUserDual _ _ _

theorem handleGroups_writesNone : Returns (WritesNone s) (handleGroups env s msg path) := by
  have hmember : ∀ change text, WritesNone s (handleMembership env s msg change text) := by
    intro change text
    refine returns_either (writesNone_same _) (returns_bind fun uname _ => ?_)
    split
    · exact writesNone_same _
    split
    · exact writesNone_same _
    · exact writesNone_saveUserDual _ _ _
  apply returns_branch (writesNone_same _)
  split
  · exact returns_none
  apply returns_branch (hmember _ _)
  apply returns_branch (hmember _ _)
  apply returns_branch
  · refine returns_either (writesNone_same _) (returns_bind fun desc _ => ?_)
    exact returns_some.mpr ⟨rfl, rfl⟩
  exact returns_branch (writesNone_same _) returns_none

theorem handleModules_writesNone
    (h : afterPrefix (.lit "/core/modules/") path ≠ none →
      ∀ action modName, SameSettings s (env.portalModuleDo action modName s).1) :
    Returns (WritesNone s) (handleModules env s msg path) := by
  unfold handleModules
  split
  · exact returns_none
  rename_i modName hmod
  refine returns_either (returns_branch (writesNone_same _) (returns_branch ?_ returns_none))
    returns_none
  refine returns_bind fun action _ => ?_
  split
  · exact writesNone_same _
  split
  · exact writesNone_same _
  · have hdo := h (by rw [hmod]; exact some_ne_none _)
    exact returns_either (returns_some.mpr (hdo _ _)) (returns_some.mpr (hdo _ _))

theorem handleConfig_writesNone (h : path ≠ configSetPath) :
    Returns (WritesNone s) (handleConfig env s msg path) := by
  apply returns_branch
  · refine returns_bind fun module _ => returns_bind fun key _ => ?_
    split
    · split <;> exact writesNone_same _
    · exact writesNone_same _
  refine returns_ite (fun heq => absurd heq h) fun _ => returns_branch ?_ returns_none
  exact returns_bind fun module _ => writesNone_same _

/-- Of all messages, only those to `/core/config/set` and those that run the code of a module
can write a setting. -/
theorem sameSettings_message {name : CStr} (hset : msg.path.map ofBytes ≠ some configSetPath)
    (h : Stores name s (.message env msg)) : SameSettings s (settingStep s (.message env msg)) := by
  have hwrites : WritesNone s (coreHandleMessage env s msg) := by
    refine returns_coreHandleMessage (fun _ => ⟨rfl, rfl⟩) fun path hpath => ?_
    have hmodules : Returns (WritesNone s) (handleModules env s msg path) :=
      handleModules_writesNone fun hne => h (by rwa [hpath])
    have hconfig : Returns (WritesNone s) (handleConfig env s msg path) :=
      handleConfig_writesNone fun heq => hset (heq ▸ hpath)
    simp only [coreHandlers, forall_mem_cons]
    exact ⟨writesNone_of_framed env handleNavigation_framed, hmodules,
      writesNone_of_framed env handleAuth_framed, writesNone_of_framed env handleEvents_framed,
      handleUsers_writesNone, handleGroups_writesNone, hconfig,
      writesNone_of_framed env handleLocks_framed, writesNone_of_framed env handleStorage_framed,
      by simp⟩
  rw [settingStep]
  cases hresult : coreHandleMessage env s msg with
  | none => exact ⟨rfl, rfl⟩
  | some r => exact hwrites r hresult

end Messages

section Restart

variable {name module key : CStr} {s : CoreState}

/-- What a provider that registers is given: the settings of the table, if it has `config_set`. -/
theorem keptValue_syncConfig (config : PortalHt CStr) (p : StorageProvider) :
    keptValue name module key (syncConfig config p) =
      if p.name = name ∧ p.configSet = true then
        assigned (module, key) ((syncedConfig config).map fun a => ((a.1, a.2.1), a.2.2))
      else none := by
  unfold keptValue syncConfig
  by_cases hset : p.configSet = true
  · rw [if_pos hset]
    induction syncedConfig config with
    | nil => simp [assigned]
    | cons a as ih =>
      rw [map_cons, flatMap_cons, assigned_append, ih, map_cons, assigned]
      by_cases hname : p.name = name <;> simp [StorageWrite.setting, hname, hset]
  · rw [if_neg hset, if_neg fun h => hset h.2]
    rfl

theorem keptValue_users (name module key p : CStr) (us : List AuthAccount) :
    keptValue name module key (us.map fun u => .user p u.stored) = none := by
  have hnone :
      (us.map fun u => StorageWrite.user p u.stored).flatMap StorageWrite.setting = [] := by
    rw [flatMap_map, flatMap_eq_nil_iff]
    exact fun _ _ => rfl
  rw [keptValue, hnone]
  rfl

theorem mem_portalStorageAdd {p q : StorageProvider} (h : q ∈ providers) :
    q ∈ (portalStorageAdd providers p).1 := by
  unfold portalStorageAdd
  split
  · exact h
  · exact mem_append_left _ h

theorem takes_append {p : StorageProvider} :
    Takes name (providers ++ [p]) ↔ Takes name providers ∨ p.name = name ∧ p.configSet = true := by
  simp [Takes, or_and_right, exists_or]

/-- A provider of the name, if there is one, has the settings of the table over what it kept. -/
structure SyncedOver (name module key : CStr) (kept : Option CStr) (s : CoreState) : Prop where
  eq : keptValue name module key s.writes =
    if Takes name s.storage then
      (assigned (module, key) ((syncedConfig s.config).map fun a => ((a.1, a.2.1), a.2.2))).or kept
    else kept

/-- The step lemma: one provider registers. -/
theorem register_spec {kept : Option CStr} (h : SyncedOver name module key kept s)
    (p : StorageProvider)
    (hsaves : s.auth.accounts = [] ∨
      ∀ q ∈ (portalStorageAdd s.storage p).1, q.userSave ≠ none) :
    ∃ s', (apiStorageRegister s p).map Prod.fst = some s' ∧ s'.auth = s.auth ∧
      s'.config = s.config ∧ s'.storage = (portalStorageAdd s.storage p).1 ∧
      SyncedOver name module key kept s' := by
  by_cases hadd : storageMaxProviders ≤ s.storage.length ∨
      (portalStorageFind s.storage p.name).isSome
  · have hsame : portalStorageAdd s.storage p = (s.storage, -1) := if_pos hadd
    refine ⟨s, ?_, rfl, rfl, by rw [hsame], h⟩
    rw [apiStorageRegister, hsame]
    rfl
  · have hadded : portalStorageAdd s.storage p = (s.storage ++ [p], 0) := if_neg hadd
    rw [hadded] at hsaves ⊢
    have husers : syncUsers s.auth p =
        some (s.auth.accounts.map fun u => .user p.name u.stored) := by
      refine if_neg ?_
      rintro ⟨hnone, hne⟩
      exact hsaves.resolve_left hne p (mem_append_right _ (mem_singleton_self p)) hnone
    rw [apiStorageRegister, hadded, if_neg (lt_irrefl (0 : Int)), husers]
    refine ⟨_, rfl, rfl, rfl, rfl, ⟨?_⟩⟩
    dsimp only
    rw [keptValue_append, keptValue_append, keptValue_users, keptValue_syncConfig, h.eq,
      Option.none_or]
    by_cases htakes : Takes name s.storage <;>
      by_cases hp : p.name = name ∧ p.configSet = true <;>
      simp [htakes, hp, takes_append, ← Option.or_assoc]

/-- The run lemma: the providers register one after the other. -/
theorem foldlM_register {kept : Option CStr} (providers : List StorageProvider)
    (h : SyncedOver name module key kept s)
    (hsaves : s.auth.accounts = [] ∨
      ∀ q ∈ run (fun ps p => (portalStorageAdd ps p).1) s.storage providers, q.userSave ≠ none) :
    ∃ s', providers.foldlM (fun s p => (apiStorageRegister s p).map Prod.fst) s = some s' ∧
      s'.config = s.config ∧
      s'.storage = run (fun ps p => (portalStorageAdd ps p).1) s.storage providers ∧
      SyncedOver name module key kept s' := by
  induction providers generalizing s with
  | nil => exact ⟨s, rfl, rfl, rfl, h⟩
  | cons p providers ih =>
    have hkeeps : ∀ q ∈ (portalStorageAdd s.storage p).1,
        q ∈ run (fun ps p => (portalStorageAdd ps p).1) s.storage (p :: providers) := by
      intro q hq
      refine run_invariant (?_ : ∀ ps p, q ∈ ps → q ∈ (portalStorageAdd ps p).1) hq providers
      exact fun _ _ => mem_portalStorageAdd
    obtain ⟨s₁, hs₁, hauth, hconfig, hstorage, hsynced⟩ := register_spec h p
      (hsaves.imp_right fun hall q hq => hall q (hkeeps q hq))
    rw [run_cons, ← hstorage, ← hauth] at hsaves
    obtain ⟨s', hs', hconfig', hstorage', hsynced'⟩ := ih hsynced hsaves
    refine ⟨s', ?_, hconfig'.trans hconfig, ?_, hsynced'⟩
    · rw [foldlM_cons, hs₁]
      exact hs'
    · rw [hstorage', hstorage]
      rfl

/-- After a restart the table is that of the files, and the provider has what the files say over
what it kept. -/
theorem restart_spec {boot : CoreState} {conf : ConfFiles}
    (h : Stores name s (.restart boot conf providers)) (module key : CStr) :
    let s' := settingStep s (.restart boot conf providers)
    s'.config = loadConf conf ∧ s'.storage = registeredProviders providers ∧
      keptValue name (dbModule module) key s'.writes =
        (assigned (dbModule module, key)
          (SettingEvent.restart boot conf providers).stores).or
          (keptValue name (dbModule module) key s.writes) := by
  have hstart : SyncedOver name (dbModule module) key
      (keptValue name (dbModule module) key s.writes)
      { boot with config := loadConf conf, storage := [], writes := s.writes } :=
    ⟨(if_neg fun htakes => by
      obtain ⟨p, hp, -⟩ := htakes
      exact nomatch hp).symm⟩
  obtain ⟨s', hs', hconfig, hstorage, hsynced⟩ := foldlM_register providers hstart h.2
  have hstep : settingStep s (.restart boot conf providers) = s' := by
    rw [settingStep, restartSettings, hs']
    rfl
  simp only [hstep]
  refine ⟨hconfig, hstorage, ?_⟩
  rw [hsynced.eq, hstorage, hconfig]
  exact if_pos h.1

end Restart

section Runs

variable {name module key : CStr} {s : CoreState}

theorem keptValue_message {env : CoreEnv} {msg : PortalMsg} (htakes : Takes name s.storage)
    (h : Stores name s (.message env msg)) (module key : CStr) :
    (settingStep s (.message env msg)).storage = s.storage ∧
      keptValue name (dbModule module) key (settingStep s (.message env msg)).writes =
        (assigned (dbModule module, key) (SettingEvent.message env msg).stores).or
          (keptValue name (dbModule module) key s.writes) := by
  by_cases hpath : msg.path.map ofBytes = some configSetPath
  · obtain ⟨hstorage, hwrites⟩ := settingStep_set s env hpath
    refine ⟨hstorage, ?_⟩
    rw [hwrites, keptValue_append, SettingEvent.stores]
    cases acceptedSet msg with
    | none => rfl
    | some a => exact congrArg (Option.or · _) (keptValue_saveConfig htakes _ _ _)
  · have hsame := sameSettings_message hpath h
    have hnone : acceptedSet msg = none := if_neg fun hc => hpath hc.1
    refine ⟨hsame.storage, ?_⟩
    rw [hsame.keptValue, SettingEvent.stores, hnone]
    rfl

/-- The provider holds what was stored last. -/
theorem keptValue_run (htakes : Takes name s.storage) {es : List SettingEvent}
    (hes : Along settingStep (Stores name) s es) (module key : CStr) :
    keptValue name (dbModule module) key (run settingStep s es).writes =
      (lastStored module key es).or (keptValue name (dbModule module) key s.writes) := by
  induction es generalizing s with
  | nil => rfl
  | cons e es ih =>
    obtain ⟨htakes', hkept⟩ : Takes name (settingStep s e).storage ∧
        keptValue name (dbModule module) key (settingStep s e).writes =
          (assigned (dbModule module, key) e.stores).or
            (keptValue name (dbModule module) key s.writes) := by
      cases e with
      | message env msg =>
        obtain ⟨hstorage, hkept⟩ := keptValue_message htakes hes.1 module key
        exact ⟨by rwa [hstorage], hkept⟩
      | restart boot conf providers =>
        obtain ⟨-, hstorage, hkept⟩ := restart_spec hes.1 module key
        exact ⟨by rw [hstorage]; exact hes.1.1, hkept⟩
    rw [run_cons, ih htakes' hes.2, hkept, lastStored, lastStored, flatMap_cons, assigned_append,
      Option.or_assoc]

/-- What is set is stored. -/
theorem lastStored_isSome {es : List SettingEvent} {value : CStr}
    (h : lastSet module key es = some value) : (lastStored module key es).isSome := by
  obtain ⟨e, he, hset⟩ := mem_flatMap.mp (mem_of_assigned h)
  cases e with
  | restart boot conf providers => exact nomatch hset
  | message env msg =>
    obtain ⟨⟨m, k, v⟩, ha, heq⟩ := mem_map.mp hset
    cases heq
    rw [Option.isSome_iff_ne_none]
    intro hnone
    refine assigned_eq_none.mp hnone ((dbModule m, k), v) ?_ rfl
    exact mem_flatMap.mpr ⟨_, he, mem_map.mpr ⟨_, ha, rfl⟩⟩

theorem survives_iff {conf : ConfFiles} {before : List StorageProvider} {es : List SettingEvent}
    {value : CStr} :
    Survives conf before module key es value ↔
      (portalConfigGet (loadConf conf) module key).or
        ((portalStorageGetConfig before (dbModule module) key).or
          ((lastStored module key es).map (CStr.truncate 4095))) = some value := by
  rw [or_eq_some_iff, or_eq_some_iff]
  constructor
  · rintro (found | ⟨absent, first⟩ | ⟨absent, silent, last⟩)
    · exact .inl found
    · exact .inr ⟨absent, .inl first⟩
    · exact .inr ⟨absent, .inr ⟨silent, last⟩⟩
  · rintro (found | ⟨absent, first | ⟨silent, last⟩⟩)
    · exact .file found
    · exact .other absent first
    · exact .stored absent silent last

/-- After a restart, the value that was set last is returned exactly if the files or a provider
that is asked first have it, or if they have nothing and it was stored last. -/
theorem config_durable {value : CStr} (htakes : Takes name s.storage)
    {es : List SettingEvent} {boot : CoreState} {conf : ConfFiles}
    {providers before after : List StorageProvider} {p : StorageProvider}
    (hes : Along settingStep (Stores name) s (es ++ [.restart boot conf providers]))
    (hlast : lastSet module key es = some value)
    (horder : registeredProviders providers = before ++ p :: after) (hname : p.name = name)
    (hkeeps : p.Keeps (run settingStep s (es ++ [.restart boot conf providers])).writes) :
    apiConfigGet (run settingStep s (es ++ [.restart boot conf providers])) module key =
        some value ↔
      Survives conf before module key (es ++ [.restart boot conf providers]) value := by
  obtain ⟨-, hrestart, -⟩ := (along_append s es _).mp hes
  obtain ⟨hconfig, hstorage, -⟩ := restart_spec hrestart module key
  have hrun : run settingStep s (es ++ [.restart boot conf providers]) =
      settingStep (run settingStep s es) (.restart boot conf providers) := run_append s es _
  have hset : lastSet module key (es ++ [.restart boot conf providers]) = some value := by
    rw [lastSet, flatMap_append, assigned_append]
    exact hlast
  obtain ⟨v, hv⟩ := Option.isSome_iff_exists.mp (lastStored_isSome hset)
  have hanswer : p.configGet (dbModule module) key = some (v.truncate 4095) := by
    rw [hkeeps.answers, hname, keptValue_run htakes hes, hv]
    rfl
  have hget : portalStorageGetConfig (before ++ p :: after) (dbModule module) key =
      (portalStorageGetConfig before (dbModule module) key).or (some (v.truncate 4095)) := by
    rw [portalStorageGetConfig, findSome?_append, findSome?_cons_of_isSome (by rw [hanswer]; rfl),
      hanswer]
    rfl
  rw [survives_iff, apiConfigGet, hrun, hconfig, hstorage, horder, hget, hv]
  rfl

end Runs

/-! ### Two settings -/

def keepingProvider (writes : List StorageWrite) : StorageProvider where
  name := .lit "db"
  userSave := none
  configSet := true
  configGet m k := (keptValue (.lit "db") m k writes).map (CStr.truncate 4095)
  status := none

def staleProvider : StorageProvider where
  name := .lit "old"
  userSave := none
  configSet := false
  configGet _ _ := some (.lit "9")
  status := none

def emptyBoot : CoreState := plainState ⟨[], [], 0⟩

def setCli (key value : CStr) : SettingEvent :=
  .message plainEnv (rootSends configSetPath portalMethodSet
    [(.lit "module", .lit "cli"), (.lit "key", key), (.lit "value", value)])

def dbWrite (module key value : CStr) : StorageWrite := .config (.lit "db") module key value

def beforeRestart : CoreState := { emptyBoot with storage := [keepingProvider []] }

def restartWith (conf : ConfFiles) (writes : List StorageWrite) : SettingEvent :=
  .restart emptyBoot conf [keepingProvider writes, staleProvider]

theorem stores_setCli (name key value : CStr) (s : CoreState) :
    Stores name s (setCli key value) := by
  intro hne
  refine absurd ?_ hne
  change (some (ofBytes configSetPath.bytes)).bind (afterPrefix (.lit "/core/modules/")) = none
  decide +kernel

theorem stores_restartWith (conf : ConfFiles) (writes : List StorageWrite) (s : CoreState) :
    Stores (.lit "db") s (restartWith conf writes) :=
  ⟨⟨_, mem_cons_self, rfl, rfl⟩, .inl rfl⟩

def webConf : ConfFiles := ⟨some (CStr.lit "[mod_web]\nport = 80\n").bytes, [], []⟩

/-- What the provider is given up to the second restart, at which the last is written again. -/
def portWrites : List StorageWrite :=
  [dbWrite (.lit "mod_cli") (.lit "port") (.lit "2"),
    dbWrite (.lit "mod_cli") (.lit "host") (.lit "a"),
    dbWrite (.lit "mod_web") (.lit "port") (.lit "80")]

def portEvents : List SettingEvent :=
  [setCli (.lit "port") (.lit "2"), setCli (.lit "host") (.lit "a"),
    restartWith webConf portWrites]

def secondRestart : SettingEvent :=
  restartWith webConf (portWrites ++ portWrites.drop 2)

/-- The port is still there after the second restart, although one provider has another. -/
theorem config_durable_port :
    lastSet (.lit "cli") (.lit "port") portEvents = some (.lit "2") ∧
      apiConfigGet (run settingStep beforeRestart (portEvents ++ [secondRestart]))
        (.lit "cli") (.lit "port") = some (.lit "2") := by
  have hlast : lastSet (.lit "cli") (.lit "port") portEvents = some (.lit "2") := by
    decide +kernel
  have hes : Along settingStep (Stores (.lit "db")) beforeRestart
      (portEvents ++ [secondRestart]) :=
    ⟨stores_setCli _ _ _ _, stores_setCli _ _ _ _, stores_restartWith _ _ _,
      stores_restartWith _ _ _, trivial⟩
  have hwrites : (run settingStep beforeRestart (portEvents ++ [secondRestart])).writes =
      portWrites ++ portWrites.drop 2 := by
    decide +kernel
  have horder :
      registeredProviders [keepingProvider (portWrites ++ portWrites.drop 2), staleProvider] =
        [] ++ keepingProvider (portWrites ++ portWrites.drop 2) :: [staleProvider] := rfl
  have hfile : portalConfigGet (loadConf webConf) (.lit "cli") (.lit "port") = none := by
    decide +kernel
  have htakes : Takes (.lit "db") beforeRestart.storage :=
    ⟨keepingProvider [], mem_singleton_self _, rfl, rfl⟩
  have hkeeps : (keepingProvider (portWrites ++ portWrites.drop 2)).Keeps
      (run settingStep beforeRestart (portEvents ++ [secondRestart])).writes :=
    ⟨rfl, fun _ _ => by rw [hwrites]; rfl⟩
  have hstored : (lastStored (.lit "cli") (.lit "port") (portEvents ++ [secondRestart])).map
      (CStr.truncate 4095) = some (.lit "2") := by
    decide +kernel
  refine ⟨hlast, (config_durable htakes hes hlast horder rfl hkeeps).mpr ?_⟩
  exact .stored hfile rfl hstored

def cliConf : ConfFiles := ⟨some (CStr.lit "[mod_cli]\nport = 1\n").bytes, [], []⟩

/-- A provider that keeps the port is given the one of the file at the restart, and so is
whoever asks. -/
theorem config_durable_false :
    let writes := [dbWrite (.lit "mod_cli") (.lit "port") (.lit "2"),
      dbWrite (.lit "mod_cli") (.lit "port") (.lit "1")]
    let es := [setCli (.lit "port") (.lit "2"), restartWith cliConf writes]
    Along settingStep (Stores (.lit "db")) beforeRestart es ∧
      lastSet (.lit "cli") (.lit "port") es = some (.lit "2") ∧
      (keepingProvider writes).Keeps (run settingStep beforeRestart es).writes ∧
      apiConfigGet (run settingStep beforeRestart es) (.lit "cli") (.lit "port") =
        some (.lit "1") ∧
      keptValue (.lit "db") (.lit "mod_cli") (.lit "port")
        (run settingStep beforeRestart es).writes = some (.lit "1") := by
  intro writes es
  have hwrites : (run settingStep beforeRestart es).writes = writes := by decide +kernel
  refine ⟨⟨stores_setCli _ _ _ _, stores_restartWith _ _ _, trivial⟩, by decide +kernel,
    ⟨rfl, fun _ _ => ?_⟩, by decide +kernel, by decide +kernel⟩
  rw [hwrites]
  rfl

end Portal
