import Portal.Core.Handlers

/-!
What a caller who is not an administrator can change through `core_handle_message`: every handler
keeps `AdminFrame`.
-/

namespace Portal

open List Results Option

def CarriesToken (msg : PortalMsg) (token : Bytes) : Prop :=
  msg.ctxToken = some token ∨
    ∃ h ∈ msg.headerList, h.key.map CStr.ofBytes = some (.lit "token") ∧ h.value = some token

structure UserChange (env : CoreEnv) (msg : PortalMsg) (s : CoreState) (u u' : AuthAccount) :
    Prop where
  username : u'.username = u.username
  labels : u'.labels = u.labels
  password : u'.password ≠ u.password → msg.ctxUser.map CStr.ofBytes = some u.username
  apiKey : u'.apiKey ≠ u.apiKey → ∃ token, CarriesToken msg token ∧
    (portalAuthResolveToken s.auth.registry env.now (some token)).1 = some u.toAuthUser

/-- What a message of a caller who is not an administrator leaves alone. -/
structure AdminFrame (env : CoreEnv) (msg : PortalMsg) (s s' : CoreState) : Prop where
  config : s'.config = s.config
  storage : s'.storage = s.storage
  configWrites : s'.writes.filter StorageWrite.isConfig = s.writes.filter StorageWrite.isConfig
  modules : s'.modules = s.modules
  groups : s'.store.groups = s.store.groups
  users : List.Forall₂ (UserChange env msg s) s.auth.accounts s'.auth.accounts

section Frame

variable {env : CoreEnv} {msg : PortalMsg} {s s' : CoreState}

theorem UserChange.refl (u : AuthAccount) : UserChange env msg s u u :=
  ⟨rfl, rfl, fun h => absurd rfl h, fun h => absurd rfl h⟩

theorem forall₂_userChange_refl (us : List AuthAccount) :
    List.Forall₂ (UserChange env msg s) us us :=
  forall₂_same.mpr fun u _ => UserChange.refl u

theorem AdminFrame.of_eq (hconfig : s'.config = s.config) (hstorage : s'.storage = s.storage)
    (hwrites : s'.writes = s.writes) (hmodules : s'.modules = s.modules)
    (hstore : s'.store = s.store) (haccounts : s'.auth.accounts = s.auth.accounts) :
    AdminFrame env msg s s' where
  config := hconfig
  storage := hstorage
  configWrites := by rw [hwrites]
  modules := hmodules
  groups := by rw [hstore]
  users := by
    rw [haccounts]
    exact forall₂_userChange_refl _

theorem AdminFrame.refl : AdminFrame env msg s s := .of_eq rfl rfl rfl rfl rfl rfl

abbrev Framed (env : CoreEnv) (msg : PortalMsg) (s : CoreState) : CoreResult → Prop :=
  Returns fun r => AdminFrame env msg s r.1

theorem framed_reply {r : CoreReply} (h : AdminFrame env msg s s') :
    Framed env msg s (s'.reply r) := returns_some.mpr h

theorem framed_same (r : CoreReply) : Framed env msg s (s.reply r) := framed_reply .refl

theorem framed_eq {r : CoreReply} (hconfig : s'.config = s.config)
    (hstorage : s'.storage = s.storage) (hwrites : s'.writes = s.writes)
    (hmodules : s'.modules = s.modules) (hstore : s'.store = s.store)
    (haccounts : s'.auth.accounts = s.auth.accounts) : Framed env msg s (s'.reply r) :=
  framed_reply (.of_eq hconfig hstorage hwrites hmodules hstore haccounts)

end Frame

section Auth

variable {db : AuthDb}

theorem portalAuthLogin_accounts (sha256Hex : Bytes → CStr) (now : UInt64)
    (token username password : CStr) :
    (portalAuthLogin sha256Hex db now token username password).1.accounts = db.accounts := by
  unfold portalAuthLogin
  split
  · rfl
  · split <;> rfl

theorem portalAuthLoginKey_accounts (now : UInt64) (token : CStr) (apiKey : CharPtr) :
    (portalAuthLoginKey db now token apiKey).1.accounts = db.accounts := by
  unfold portalAuthLoginKey
  split <;> rfl

theorem portalAuthLogout_accounts (token : CStr) :
    (portalAuthLogout db token).1.accounts = db.accounts := by
  unfold portalAuthLogout
  split <;> rfl

/-- A token resolves to the first entry of its user's name. -/
theorem findAccount_of_resolveToken {now : UInt64} {token : CharPtr} {user : AuthUser}
    (h : (portalAuthResolveToken db.registry now token).1 = some user) :
    (findAccount db user.username).map AuthAccount.toAuthUser = some user := by
  obtain ⟨name, hname⟩ : ∃ name, portalAuthFindUser db.registry name = some user := by
    unfold portalAuthResolveToken at h
    split at h
    · cases h
    split at h
    · cases h
    split at h
    · cases h
    split at h
    · cases h
    · split at h
      · cases h
      · exact ⟨_, h⟩
  unfold portalAuthFindUser at hname
  have huser : user.username = name := by simpa using find?_some hname
  rw [AuthDb.registry, find?_map] at hname
  rw [findAccount, huser]
  exact hname

end Auth

section Handlers

variable {env : CoreEnv} {msg : PortalMsg} {s : CoreState} {path : CStr}

theorem getHdr_mem {key : CStr} {v : Bytes} {hs : List PortalHeader}
    (h : getHdr key hs = some (some v)) :
    ∃ g ∈ hs, g.key.map CStr.ofBytes = some key ∧ g.value = some v := by
  induction hs with
  | nil => cases h
  | cons g hs ih =>
    cases hk : g.key with
    | none => simp [getHdr, hk] at h
    | some k =>
      by_cases hkey : CStr.ofBytes k = key
      · have hv : g.value = some v := by simpa [getHdr, hk, hkey] using h
        exact ⟨g, mem_cons_self, by simp [hk, hkey], hv⟩
      · have hrest : getHdr key hs = some (some v) := by simpa [getHdr, hk, hkey] using h
        obtain ⟨g', hmem, hg'⟩ := ih hrest
        exact ⟨g', mem_cons_of_mem _ hmem, hg'⟩

/-- The token that the key requests resolve is one the message carries. -/
theorem carriesToken_of_headerToken {token : Bytes} (h : headerToken msg = some (some token)) :
    CarriesToken msg token := by
  unfold headerToken at h
  cases hhdr : getHdr (.lit "token") msg.headerList with
  | none => simp [hhdr] at h
  | some v =>
    cases v with
    | none =>
      left
      simpa [hhdr] using h
    | some v =>
      right
      obtain rfl : v = token := by simpa [hhdr] using h
      exact getHdr_mem hhdr

/-- Writing the key of the user that a carried token resolves to keeps the frame. -/
theorem frame_setApiKey {token : Bytes} {user : AuthUser} (hcarries : CarriesToken msg token)
    (hresolve : (portalAuthResolveToken s.auth.registry env.now (some token)).1 = some user)
    (db : AuthDb) (hdb : db.accounts = s.auth.accounts) :
    AdminFrame env msg s
      { s with auth := db.modifyUser user.username fun u => u.setApiKey env.key } where
  config := rfl
  storage := rfl
  configWrites := rfl
  modules := rfl
  groups := rfl
  users := by
    rw [← hdb]
    apply forall₂_modifyUser UserChange.refl
    intro u hu
    have huser : u.toAuthUser = user := by
      have hfind := findAccount_of_resolveToken hresolve
      rw [findAccount, ← hdb, ← findAccount, hu] at hfind
      exact some.inj hfind
    refine ⟨rfl, rfl, fun h => absurd rfl h, fun _ => ⟨token, hcarries, ?_⟩⟩
    rw [hresolve, huser]

theorem handleAuthKey_framed : Framed env msg s (handleAuthKey env s msg) := by
  refine returns_bind fun token htoken => ?_
  cases token with
  | none => exact framed_same _
  | some token =>
    simp only
    split
    · apply framed_eq <;> rfl
    rename_i user hres
    apply returns_ite
    · intro _
      apply framed_reply
      exact frame_setApiKey (carriesToken_of_headerToken htoken) hres _ rfl
    · intro _
      apply framed_eq <;> rfl

theorem handleAuthKeyRotate_framed : Framed env msg s (handleAuthKeyRotate env s msg) := by
  refine returns_bind fun token htoken => ?_
  cases token with
  | none => exact framed_same _
  | some token =>
    simp only
    split
    · apply framed_eq <;> rfl
    rename_i user hres
    apply framed_reply
    unfold portalAuthRotateKey
    split
    · apply AdminFrame.of_eq <;> rfl
    · exact frame_setApiKey (carriesToken_of_headerToken htoken) hres _ rfl

theorem handleAuthLoginEnhanced_framed : Framed env msg s (handleAuthLoginEnhanced env s msg) := by
  refine returns_bind fun username _ => returns_bind fun password _ => ?_
  refine returns_bind fun apiKey _ => ?_
  -- whatever the login does, it does to the sessions
  apply returns_ite
  · intro _
    simp only
    split <;> exact framed_eq rfl rfl rfl rfl rfl (portalAuthLoginKey_accounts _ _ _)
  intro _
  split
  · simp only
    split <;> exact framed_eq rfl rfl rfl rfl rfl (portalAuthLogin_accounts _ _ _ _ _)
  · exact framed_same _

theorem handleAuthLogout_framed : Framed env msg s (handleAuthLogout s msg) := by
  refine returns_bind fun token _ => ?_
  cases token with
  | none => exact framed_same _
  | some token => exact framed_eq rfl rfl rfl rfl rfl (portalAuthLogout_accounts _)

theorem handleAuthWhoami_framed : Framed env msg s (handleAuthWhoami env s msg) := by
  refine returns_bind fun token _ => ?_
  cases token with
  | none => exact framed_same _
  | some token =>
    simp only
    split <;> apply framed_eq <;> rfl

abbrev FramedIf (env : CoreEnv) (msg : PortalMsg) (s : CoreState) : Option CoreResult → Prop :=
  Returns (Framed env msg s)

theorem handleAuth_framed : FramedIf env msg s (handleAuth env s msg path) := by
  apply returns_branch handleAuthLoginEnhanced_framed
  apply returns_branch handleAuthLogout_framed
  apply returns_branch handleAuthWhoami_framed
  apply returns_branch handleAuthKey_framed
  exact returns_branch handleAuthKeyRotate_framed returns_none

theorem handleResolve_framed : Framed env msg s (handleResolve s msg) := by
  refine returns_bind fun args _ => returns_bind fun target _ => returns_bind fun resolved _ => ?_
  exact returns_either (framed_same _) (framed_same _)

theorem handleNavigation_framed : FramedIf env msg s (handleNavigation s msg path) := by
  apply returns_branch (framed_same _)
  apply returns_branch (framed_same _)
  apply returns_branch (framed_same _)
  apply returns_branch
  · exact returns_bind fun pre _ => framed_same _
  · exact returns_branch handleResolve_framed returns_none

theorem handleEvents_framed : FramedIf env msg s (handleEvents s msg path) := by
  apply returns_branch (framed_same _)
  apply returns_branch
  · refine returns_bind fun fdStr _ => ?_
    apply returns_ite
    · intro _
      apply framed_eq <;> rfl
    · intro _
      apply framed_eq <;> rfl
  · refine returns_branch ?_ returns_none
    apply framed_eq <;> rfl

theorem handleLocks_framed : FramedIf env msg s (handleLocks env s msg path) := by
  apply returns_branch
  · exact returns_bind fun filter _ => framed_same _
  apply returns_branch
  · refine returns_bind fun args _ => ?_
    split
    · exact framed_same _
    · apply returns_ite <;> intro _ <;> apply framed_eq <;> rfl
  apply returns_branch
  · refine returns_bind fun args _ => ?_
    split
    · exact framed_same _
    · refine returns_either ?_ (returns_either ?_ ?_) <;>
        apply framed_eq <;> rfl
  refine returns_branch ?_ returns_none
  refine returns_bind fun args _ => ?_
  split
  · exact framed_same _
  · apply framed_eq <;> rfl

/-! ### Users and storage -/

theorem filter_isConfig_saveUser (providers : List StorageProvider) (u : StoredUser) :
    (portalStorageSaveUser providers u).filter StorageWrite.isConfig = [] := by
  rw [filter_eq_nil_iff]
  intro w hw
  obtain ⟨p, -, hp⟩ := mem_filterMap.mp hw
  obtain ⟨save, -, rfl⟩ := map_eq_some_iff.mp hp
  exact Bool.false_ne_true

theorem AdminFrame.saveUserDual {s' : CoreState} (h : AdminFrame env msg s s') (username : CStr) :
    AdminFrame env msg s (saveUserDual env s' username) := by
  unfold Portal.saveUserDual
  split
  · exact h
  refine ⟨h.config, h.storage, ?_, h.modules, ?_, h.users⟩
  · rw [filter_append, filter_isConfig_saveUser, append_nil]
    exact h.configWrites
  · rw [← h.groups]
    split <;> rfl

section

variable (hadmin : callerIsAdmin msg = false)

include hadmin

theorem handlePassword_framed (name : CStr) : Framed env msg s (handlePassword env s msg name) := by
  refine returns_ite (fun _ => framed_same _) fun hself => ?_
  have hself : msg.ctxUser.map CStr.ofBytes = some name := by simpa [hadmin] using hself
  refine returns_bind fun newpass _ => ?_
  cases newpass with
  | none => exact framed_same _
  | some newpass =>
    simp only
    split
    · exact framed_same _
    apply framed_reply
    apply AdminFrame.saveUserDual
    refine ⟨rfl, rfl, rfl, rfl, rfl, ?_⟩
    apply forall₂_modifyUser UserChange.refl
    intro u hu
    have hname : u.username = name := by simpa using find?_some hu
    exact ⟨rfl, rfl, fun _ => by rw [hself, hname], fun h => absurd rfl h⟩

theorem handleUsers_framed : FramedIf env msg s (handleUsers env s msg path) := by
  apply returns_branch (framed_same _)
  split
  · exact returns_none
  apply returns_branch (handlePassword_framed hadmin _)
  apply returns_branch
  · unfold handleUserInfo
    split <;> exact framed_same _
  refine returns_branch ?_ returns_none
  rw [handleUserSet, hadmin]
  exact framed_same _

theorem handleGroups_framed : FramedIf env msg s (handleGroups env s msg path) := by
  have hmember : ∀ change text, Framed env msg s (handleMembership env s msg change text) := by
    intro change text
    rw [handleMembership, hadmin]
    exact framed_same _
  apply returns_branch (framed_same _)
  split
  · exact returns_none
  apply returns_branch (hmember _ _)
  apply returns_branch (hmember _ _)
  apply returns_branch
  · rw [handleGroupCreate, hadmin]
    exact framed_same _
  exact returns_branch (framed_same _) returns_none

theorem handleModules_framed : FramedIf env msg s (handleModules env s msg path) := by
  unfold handleModules
  split
  · exact returns_none
  · refine returns_either ?_ returns_none
    rw [hadmin]
    exact returns_some.mpr (framed_same _)

theorem handleConfig_framed : FramedIf env msg s (handleConfig env s msg path) := by
  apply returns_branch
  · refine returns_bind fun module _ => returns_bind fun key _ => ?_
    split
    · split <;> exact framed_same _
    · exact framed_same _
  apply returns_branch
  · rw [handleConfigSet, hadmin]
    exact framed_same _
  refine returns_branch ?_ returns_none
  exact returns_bind fun module _ => framed_same _

end

theorem handleSync_framed (prov : StorageProvider) : Framed env msg s (handleSync s prov) := by
  unfold handleSync
  split
  · exact returns_either (framed_same _) returns_none
  apply framed_reply
  refine ⟨rfl, rfl, ?_, rfl, rfl, forall₂_userChange_refl _⟩
  -- users are handed over, no setting is
  have hnone : ((s.auth.accounts.map AuthAccount.stored).map (StorageWrite.user prov.name)).filter
      StorageWrite.isConfig = [] := by
    rw [filter_eq_nil_iff]
    intro w hw
    obtain ⟨row, -, rfl⟩ := mem_map.mp hw
    exact Bool.false_ne_true
  rw [filter_append, hnone, append_nil]

theorem handleStorage_framed : FramedIf env msg s (handleStorage s msg path) := by
  apply returns_branch (framed_same _)
  split
  · exact returns_none
  split
  · exact returns_none
  split
  · exact returns_some.mpr (framed_same _)
  · apply returns_branch (framed_same _)
    exact returns_branch (handleSync_framed _) returns_none

/-- What every handler that takes the message brings about holds after the message. -/
theorem returns_coreHandleMessage {P : CoreState × CoreReply → Prop} (hnone : ∀ r, P (s, r))
    (h : ∀ path, msg.path.map CStr.ofBytes = some path →
      ∀ o ∈ coreHandlers env s msg path, Returns (Returns P) o) :
    Returns P (coreHandleMessage env s msg) := by
  unfold coreHandleMessage
  cases hpath : msg.path with
  | none => exact returns_none
  | some path =>
    dsimp only
    cases hfound : (coreHandlers env s msg (.ofBytes path)).findSome? id with
    | none => exact returns_some.mpr (hnone _)
    | some res =>
      obtain ⟨o, hmem, ho⟩ := exists_of_findSome?_eq_some hfound
      exact h _ (by rw [hpath]; rfl) o hmem res ho

end Handlers

/-- A caller who is neither root nor in `hub-admin` leaves the configuration, the modules, the
groups, the users and their labels alone; of a user's other fields, a message may change the
password of the user its context names, and the key of the one its token resolves to. -/
theorem coreHandleMessage_frame (env : CoreEnv) (s s' : CoreState) (msg : PortalMsg)
    (r : CoreReply)
    (huser : ∀ ctx, msg.ctx = some ctx → ctx.auth.user.map CStr.ofBytes ≠ some portalRootUser)
    (hlabels : ∀ ctx, msg.ctx = some ctx → CStr.lit "hub-admin" ∉ ctx.auth.labels.labels)
    (h : coreHandleMessage env s msg = some (s', r)) : AdminFrame env msg s s' := by
  have hadmin : callerIsAdmin msg = false := by
    unfold callerIsAdmin
    cases hctx : msg.ctx with
    | none => rfl
    | some ctx => simp [huser ctx hctx, portalLabelsHas, hlabels ctx hctx]
  have hframed : Framed env msg s (coreHandleMessage env s msg) := by
    refine returns_coreHandleMessage (fun _ => .refl) fun path _ => ?_
    simp only [coreHandlers, forall_mem_cons]
    exact ⟨handleNavigation_framed, handleModules_framed hadmin, handleAuth_framed,
      handleEvents_framed, handleUsers_framed hadmin, handleGroups_framed hadmin,
      handleConfig_framed hadmin, handleLocks_framed, handleStorage_framed, by simp⟩
  exact hframed (s', r) h

def twoUsers : CoreState where
  paths := portalPathInit
  modules := []
  config := portalHtInit htInitialCapacity
  auth := ⟨[newAccount (.lit "root") (.lit "secret") .empty,
    newAccount (.lit "ann") (.lit "old") .empty], [], 3600⟩
  events := portalEventsInit
  locks := lockTableInit
  store := ⟨fun _ => none, fun _ => none⟩
  storage := []
  writes := []

def ownPasswordMsg : PortalMsg :=
  { PortalMsg.zero with
    path := some (CStr.lit "/users/ann/password").bytes
    method := portalMethodCall
    headerCount := 1
    headers := [⟨some (CStr.lit "password").bytes, some (CStr.lit "new").bytes⟩]
    ctx := some { PortalCtx.zero with auth := ⟨some (CStr.lit "ann").bytes, none, .empty⟩ } }

/-- The password is changed, and the rest is as the frame says. -/
theorem coreHandleMessage_frame_ownPassword :
    ∃ s' r, coreHandleMessage plainEnv twoUsers ownPasswordMsg = some (s', r) ∧
      s'.auth.accounts.map AuthAccount.password = [.lit "secret", .lit "new"] ∧
      AdminFrame plainEnv ownPasswordMsg twoUsers s' := by
  have hresult : (coreHandleMessage plainEnv twoUsers ownPasswordMsg).map
      (fun x => x.1.auth.accounts.map AuthAccount.password)
        = some [.lit "secret", .lit "new"] := by
    decide +kernel
  obtain ⟨⟨s', r⟩, h, hpasswords⟩ := map_eq_some_iff.mp hresult
  refine ⟨s', r, h, hpasswords, coreHandleMessage_frame _ _ _ _ r ?_ ?_ h⟩
  · intro ctx hctx
    obtain rfl := some.inj hctx
    decide +kernel
  · intro ctx hctx
    obtain rfl := some.inj hctx
    exact not_mem_nil

end Portal
