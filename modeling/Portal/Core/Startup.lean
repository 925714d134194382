import Portal.Core.Accounts
import Portal.Core.Persistence

/-!
Two sources of users: the store, which every change by a message is written to, and `users.conf`,
which `main` of `src/main.c` loads over the store at the start and `sighup_cb` over the running
registry.

* `savedUser_files` — the text files refine the store of the messages.
-/

namespace Portal

open Runs Results Function
open List hiding Vector

variable {w : CStr} {users : CStr → Option StoredUser}

def storeFiles (users : CStr → Option StoredUser) : UserDir := fun f =>
  if (CStr.lit ".conf").bytes <:+ f.bytes then
    (users (f.truncate (f.bytes.length - 5))).map userText
  else none

def loadUsersFile (keys : Nat → GeneratedKey) (file : Option Bytes) (db : AuthDb) : AuthDb :=
  file.elim db fun text => portalAuthLoadUsers keys text db

/-- The order of `main`: the store first, and `users.conf` over it. -/
def startUsers (users : CStr → Option StoredUser) (raw : Option (Vector UInt8 32))
    (entries : List CStr) (keys : Nat → GeneratedKey) (file : Option Bytes) : AuthDb :=
  loadUsersFile keys file
    (portalAuthLoadFromStore (storeFiles users) entries (portalAuthInit raw))

/-- Of a restart nothing but the users is looked at. -/
inductive StartEvent where
  | message (env : CoreEnv) (m : UserMsg)
  | sighup (keys : Nat → GeneratedKey) (file : Option Bytes)
  | restart (raw : Option (Vector UInt8 32)) (entries : List CStr) (keys : Nat → GeneratedKey)
      (file : Option Bytes)

def startStep (s : CoreState) : StartEvent → CoreState
  | .message env m => userMessage env s m
  | .sighup keys file => { s with auth := loadUsersFile keys file s.auth }
  | .restart raw entries keys file =>
    { s with auth := startUsers s.store.users raw entries keys file }

/-! ### What is asked of the two sources -/

structure HasRecord (r : StoredUser) (u : AuthAccount) : Prop where
  password : u.password = r.password
  labels : ∀ l, l ∈ u.labels.labels ↔ l ∈ (storedLabels r.groups).labels

/-- Every user with a record has what the record says. -/
def Authoritative (s : CoreState) : Prop :=
  ∀ w r, s.store.users w = some r → ∃ u, findAccount s.auth w = some u ∧ HasRecord r u

/-- A line of `users.conf` that changes nothing about a user with this record. -/
structure LineAgrees (r : StoredUser) (l : UsersLine) : Prop where
  password : l.password.bytes = [] ∨ l.password.truncate 255 = r.password
  noMore : ∀ x ∈ l.labels.labels, x ∈ (storedLabels r.groups).labels
  noLess : l.username = portalRootUser ∨ l.labels.labels = [] ∨
    ∀ x ∈ (storedLabels r.groups).labels, x ∈ l.labels.labels

/-- No line of the file says anything else than the store. -/
def FileAgrees (users : CStr → Option StoredUser) (file : Option Bytes) : Prop :=
  ∀ text ∈ file, ∀ l ∈ usersLines text, ∀ r, users l.username = some r → LineAgrees r l

/-- A message is written to the store and the user it makes can be read back, the random generator
works, the directory is listed, and `users.conf` agrees with the store. -/
def KeepsStore (s : CoreState) : StartEvent → Prop
  | .message env m => env.userFile = true ∧ ∀ u ∈ messageUser s m, PlainUser u
  | .sighup _ file => FileAgrees s.store.users file
  | .restart raw entries _ file =>
    ((s.store.users portalRootUser).isSome → raw ≠ none) ∧
      DirListing (storeFiles s.store.users) entries ∧ FileAgrees s.store.users file

/-- The invariant: records can be read back, and are what the users have. -/
structure StoreInv (s : CoreState) : Prop where
  readable : ∀ w r, s.store.users w = some r → Readable w r
  authoritative : Authoritative s

/-! ### The files of the store -/

theorem storeFiles_userFileName (users : CStr → Option StoredUser) (w : CStr) :
    storeFiles users (userFileName w) = (users w).map userText := by
  have hsuffix : (CStr.lit ".conf").bytes <:+ (userFileName w).bytes := suffix_append _ _
  have hlen : (userFileName w).bytes.length - 5 = w.bytes.length := by
    change (w.bytes ++ (CStr.lit ".conf").bytes).length - 5 = _
    rw [length_append, confBytes]
    simp
  have hname : (userFileName w).truncate w.bytes.length = w := CStr.ext_bytes take_left
  rw [storeFiles, if_pos hsuffix, hlen, hname]

theorem userFileName_of_suffix {f : CStr} (h : (CStr.lit ".conf").bytes <:+ f.bytes) :
    f = userFileName (f.truncate (f.bytes.length - 5)) := by
  obtain ⟨t, ht⟩ := h
  have hlen : f.bytes.length - 5 = t.length := by
    rw [← ht, length_append, confBytes]
    simp
  refine CStr.ext_bytes ?_
  change f.bytes = f.bytes.take (f.bytes.length - 5) ++ (CStr.lit ".conf").bytes
  rw [hlen]
  conv_lhs => rw [← ht]
  conv_rhs => rw [← ht, take_left]

/-- The files that hold one more record are the files with one more. -/
theorem storeFiles_update (users : CStr → Option StoredUser) (w : CStr) (r : StoredUser) :
    storeFiles (update users w (some r)) =
      update (storeFiles users) (userFileName w) (some (userText r)) := by
  funext f
  by_cases hf : f = userFileName w
  · rw [hf, update_self, storeFiles_userFileName, update_self]
    rfl
  · rw [update_of_ne hf, storeFiles, storeFiles]
    split
    · rename_i hsuffix
      have hne : f.truncate (f.bytes.length - 5) ≠ w := by
        rintro rfl
        exact hf (userFileName_of_suffix hsuffix)
      rw [update_of_ne hne]
    · rfl

/-- Every file is that of a record. -/
theorem exists_record {f : CStr} (h : (storeFiles users f).isSome = true) :
    ∃ w r, f = userFileName w ∧ users w = some r := by
  rw [storeFiles] at h
  split at h
  · rename_i hsuffix
    rw [Option.isSome_map, Option.isSome_iff_exists] at h
    obtain ⟨r, hr⟩ := h
    exact ⟨_, r, userFileName_of_suffix hsuffix, hr⟩
  · cases h

/-! ### The start -/

/-- Records that can be read back have short names. -/
theorem notCut_records (hreadable : ∀ w r, users w = some r → Readable w r) {entries : List CStr}
    (hdir : DirListing (storeFiles users) entries) (w : CStr) : NotCut entries w := by
  intro n hn hlong
  obtain ⟨f, hf, hlisted⟩ := mem_filterMap.mp hn
  obtain ⟨v, r, rfl, hr⟩ := exists_record ((hdir.complete f).mp hf)
  have hv := hreadable v r hr
  obtain rfl := Option.some.inj ((hv.name.listed hv.nameShort).symm.trans hlisted)
  exact absurd hv.nameShort hlong

/-- After the store is loaded, the users are what their records say. -/
theorem loaded_hasRecord (hreadable : ∀ w r, users w = some r → Readable w r)
    {raw : Option (Vector UInt8 32)} (hraw : (users portalRootUser).isSome → raw ≠ none)
    {entries : List CStr} (hdir : DirListing (storeFiles users) entries) {r : StoredUser}
    (hw : users w = some r) :
    ∃ u, findAccount (portalAuthLoadFromStore (storeFiles users) entries (portalAuthInit raw)) w =
      some u ∧ HasRecord r u := by
  have hr := hreadable w r hw
  have hfile : storeFiles users (userFileName w) = some (userText r) := by
    rw [storeFiles_userFileName, hw]
    rfl
  have hmem : w ∈ entries.filterMap listedName :=
    mem_filterMap.mpr ⟨userFileName w, (hdir.complete _).mpr (by rw [hfile]; rfl),
      hr.name.listed hr.nameShort⟩
  have hseeded : w = portalRootUser → raw ≠ none := by
    rintro rfl
    exact hraw (by rw [hw]; rfl)
  obtain ⟨u, hu, hread⟩ := hr.apply hseeded
  rw [hdir.load raw hr.nameShort (notCut_records hreadable hdir w), if_pos hmem, applyFile, hfile]
  exact ⟨u, hu, hread.password, hread.labels⟩

/-! ### Lines of `users.conf` -/

section Lines

variable {db : AuthDb} {r : StoredUser} {u : AuthAccount}

theorem findAccount_addUser_other {name : CStr} (hw : w ≠ name) (hfind : findAccount db w = some u)
    (password : CStr) (labels : PortalLabels) :
    findAccount (portalAuthAddUser db name password labels).1 w = some u := by
  unfold portalAuthAddUser
  split
  · exact hfind
  split
  · have hmerge := findAccount_modifyUser (username_merge password labels) db name w
    rw [if_neg hw, hfind] at hmerge
    exact hmerge
  rw [findAccount, find?_append]
  rw [findAccount] at hfind
  rw [hfind]
  rfl

theorem findAccount_addUser_found (hfind : findAccount db w = some u) (password : CStr)
    (labels : PortalLabels) :
    ∃ u', findAccount (portalAuthAddUser db w password labels).1 w = some u' ∧
      (u' = u ∨ u' = u.merge password labels) := by
  by_cases hfull : authMaxUsers ≤ db.accounts.length
  · rw [portalAuthAddUser, if_pos hfull]
    exact ⟨u, hfind, .inl rfl⟩
  · rw [portalAuthAddUser, if_neg hfull, hfind]
    have hmerge := findAccount_modifyUser (username_merge password labels) db w w
    rw [if_pos rfl, hfind] at hmerge
    exact ⟨_, hmerge, .inr rfl⟩

theorem foldl_labelsAdd_of_mem {labels : List CStr} {ls : PortalLabels}
    (h : ∀ l ∈ labels, l ∈ ls.labels) :
    labels.foldl (fun ls label => (portalLabelsAdd ls label).1) ls = ls := by
  induction labels with
  | nil => rfl
  | cons l labels ih =>
    rw [foldl_cons, labelsAdd_of_mem (h l mem_cons_self)]
    exact ih fun l' hl' => h l' (mem_cons_of_mem l hl')

theorem username_mergeRootLine (key : GeneratedKey) (l : UsersLine) (u : AuthAccount) :
    (u.mergeRootLine key l).username = u.username := by
  unfold AuthAccount.mergeRootLine
  split_ifs <;> exact (setLineKey_fields ..).1

theorem HasRecord.mergeRootLine (hu : HasRecord r u) {l : UsersLine} (hl : LineAgrees r l)
    (hroot : portalRootUser ∈ (storedLabels r.groups).labels) (key : GeneratedKey) :
    HasRecord r (u.mergeRootLine key l) where
  password := by
    rw [password_mergeRootLine]
    split
    · exact hu.password
    · rename_i hne
      exact hl.password.resolve_left hne
  labels := by
    have hsame : (u.mergeRootLine key l).labels = u.labels := by
      have hkey (v : AuthAccount) : (v.setLineKey key l.apiKey).labels = v.labels :=
        (setLineKey_fields ..).2.2
      have hpassword : (if l.password.bytes = [] then u
          else u.setPassword l.password).labels = u.labels := by
        split_ifs <;> rfl
      simp only [AuthAccount.mergeRootLine, hkey, hpassword]
      split
      · rw [hkey, hpassword]
      · change l.labels.labels.foldl (fun ls label => (portalLabelsAdd ls label).1) _ = _
        rw [labelsAdd_of_mem ((hu.labels _).mpr hroot)]
        exact foldl_labelsAdd_of_mem fun x hx => (hu.labels x).mpr (hl.noMore x hx)
    rw [hsame]
    exact hu.labels

theorem HasRecord.merge (hu : HasRecord r u) {l : UsersLine} (hl : LineAgrees r l)
    (hroot : l.username ≠ portalRootUser) : HasRecord r (u.merge l.password l.labels) where
  password := by
    rw [password_merge]
    split
    · exact hu.password
    · rename_i hne
      exact hl.password.resolve_left hne
  labels := by
    rw [labels_merge]
    split
    · exact hu.labels
    rename_i hne
    have hless := (hl.noLess.resolve_left hroot).resolve_left fun hnil =>
      hne (by rw [PortalLabels.count, hnil]; rfl)
    exact fun x => ⟨hl.noMore x, hless x⟩

/-- A line that agrees with the record leaves the user as the record says. -/
theorem hasRecord_loadUsersLine (hfind : findAccount db w = some u) (hu : HasRecord r u)
    {l : UsersLine} (hl : l.username = w → LineAgrees r l)
    (hroot : w = portalRootUser → portalRootUser ∈ (storedLabels r.groups).labels)
    (key : GeneratedKey) :
    ∃ u', findAccount (loadUsersLine key db l) w = some u' ∧ HasRecord r u' := by
  have hkey (db : AuthDb) := findAccount_modifyUser (f := AuthAccount.setLineKey key l.apiKey)
    (fun u => (setLineKey_fields key l.apiKey u).1) db l.username w
  have hkept (u : AuthAccount) (hu : HasRecord r u) : HasRecord r (u.setLineKey key l.apiKey) := by
    obtain ⟨-, hpassword, hlabels⟩ := setLineKey_fields key l.apiKey u
    exact ⟨hpassword.trans hu.password, by rw [hlabels]; exact hu.labels⟩
  unfold loadUsersLine
  by_cases hw : w = l.username
  · subst hw
    by_cases hlroot : l.username = portalRootUser
    · rw [if_pos hlroot, findAccount_modifyUser (username_mergeRootLine key l), if_pos rfl, hfind]
      exact ⟨_, rfl, hu.mergeRootLine (hl rfl) (hroot hlroot) key⟩
    · rw [if_neg hlroot]
      obtain ⟨u', hfind', hu'⟩ := findAccount_addUser_found hfind l.password l.labels
      have hadded : HasRecord r u' := by
        rcases hu' with rfl | rfl
        · exact hu
        · exact hu.merge (hl rfl) hlroot
      simp only
      split
      · rw [hkey, if_pos rfl, hfind']
        exact ⟨_, rfl, hkept u' hadded⟩
      · exact ⟨u', hfind', hadded⟩
  · have hother := findAccount_addUser_other hw hfind l.password l.labels
    by_cases hlroot : l.username = portalRootUser
    · rw [if_pos hlroot, findAccount_modifyUser (username_mergeRootLine key l), if_neg hw]
      exact ⟨u, hfind, hu⟩
    · rw [if_neg hlroot]
      refine ⟨u, ?_, hu⟩
      simp only
      split
      · rw [hkey, if_neg hw]
        exact hother
      · exact hother

theorem hasRecord_loadUsersFile (hw : users w = some r) (hfind : findAccount db w = some u)
    (hu : HasRecord r u)
    (hroot : w = portalRootUser → portalRootUser ∈ (storedLabels r.groups).labels)
    {file : Option Bytes} (hfile : FileAgrees users file) (keys : Nat → GeneratedKey) :
    ∃ u', findAccount (loadUsersFile keys file db) w = some u' ∧ HasRecord r u' := by
  cases file with
  | none => exact ⟨u, hfind, hu⟩
  | some text =>
    have hline : ∀ (db : AuthDb) (l : UsersLine × Nat),
        (∃ u', findAccount db w = some u' ∧ HasRecord r u') →
        (l.1.username = w → LineAgrees r l.1) →
        ∃ u', findAccount (loadUsersLine (keys l.2) db l.1) w = some u' ∧ HasRecord r u' := by
      rintro db l ⟨u', hfind', hu'⟩ hl
      exact hasRecord_loadUsersLine hfind' hu' hl hroot (keys l.2)
    have hagrees : ∀ l ∈ (usersLines text).zipIdx, l.1.username = w → LineAgrees r l.1 := by
      rintro l hl rfl
      exact hfile text rfl l.1 (fst_mem_of_mem_zipIdx hl) r hw
    exact Along.invariant hline ⟨u, hfind, hu⟩ (along_of_forall (fun l hl _ => hagrees l hl) db)

end Lines

/-! ### Messages -/

/-- What a message does to the users: nothing, or one is changed and written as it is. -/
inductive SavedChange (s : CoreState) (changed : Option AuthAccount) (s' : CoreState) : Prop where
  | same (auth : s'.auth = s.auth) (users : s'.store.users = s.store.users)
  | saved (name : CStr) (u : AuthAccount) (user : changed = some u)
      (found : findAccount s'.auth name = some u)
      (users : s'.store.users = Function.update s.store.users name (some u.stored))
      (others : ∀ w, w ≠ name → ∀ v, findAccount s.auth w = some v →
        findAccount s'.auth w = some v)

section Messages

variable {env : CoreEnv} {s : CoreState} {changed : Option AuthAccount}

theorem savedChange_saveUserDual (henv : env.userFile = true) {auth : AuthDb} {name : CStr}
    {u : AuthAccount} (huser : changed = some u) (hfound : findAccount auth name = some u)
    (hothers : ∀ w, w ≠ name → ∀ v, findAccount s.auth w = some v → findAccount auth w = some v) :
    SavedChange s changed (saveUserDual env { s with auth := auth } name) := by
  refine .saved name u huser ?_ ?_ fun w hw v hv => ?_
  · rw [auth_saveUserDual]
    exact hfound
  · rw [saveUserDual, hfound, henv]
    rfl
  · rw [auth_saveUserDual]
    exact hothers w hw v hv

theorem savedChange_modifyUser (henv : env.userFile = true) {name : CStr} {u : AuthAccount}
    (hfind : findAccount s.auth name = some u) {f : AuthAccount → AuthAccount}
    (hf : ∀ u, (f u).username = u.username) (huser : changed = some (f u)) :
    SavedChange s changed (saveUserDual env { s with auth := s.auth.modifyUser name f } name) := by
  refine savedChange_saveUserDual henv huser ?_ ?_
  · rw [findAccount_modifyUser hf, if_pos rfl, hfind]
    rfl
  · intro w hw v hv
    rw [findAccount_modifyUser hf, if_neg hw, hv]

theorem MessageChange.saved {s' : CoreState} {m : UserMsg} (h : MessageChange env s m s')
    (henv : env.userFile = true) : SavedChange s (messageUser s m) s' := by
  cases h with
  | same auth users => exact .same auth users
  | password found stores user | labels found change user =>
    exact savedChange_modifyUser henv found (fun _ => rfl) user
  | added short stores done user =>
    have hroom := room_of_addUser done
    refine savedChange_saveUserDual henv user
      ((findAccount_addUser hroom short _ _ _).trans (if_pos rfl)) fun w hw v hv => ?_
    rw [findAccount_addUser hroom short, if_neg hw, hv]

end Messages

/-! ### Runs -/

/-- A change that is written as it is, and can be read back. -/
theorem StoreInv.savedChange {s s' : CoreState} {changed : Option AuthAccount} (h : StoreInv s)
    (hchange : SavedChange s changed s') (hplain : ∀ u ∈ changed, PlainUser u) :
    StoreInv s' := by
  cases hchange with
  | same auth users =>
    refine ⟨fun w r hr => h.readable w r (users ▸ hr), fun w r hr => ?_⟩
    rw [auth]
    exact h.authoritative w r (users ▸ hr)
  | saved name u user found users others =>
    have hu : PlainUser u := hplain u user
    have hname : u.username = name := by simpa [findAccount] using find?_some found
    constructor
    · intro w r hr
      rw [users] at hr
      by_cases hw : w = name
      · rw [hw, update_self] at hr
        cases hr
        rw [hw, ← hname]
        exact hu.readable
      · rw [update_of_ne hw] at hr
        exact h.readable w r hr
    intro w r hr
    rw [users] at hr
    by_cases hw : w = name
    · rw [hw, update_self] at hr
      cases hr
      rw [hw]
      exact ⟨u, found, rfl, fun l => (hu.mem_labels l).symm⟩
    · rw [update_of_ne hw] at hr
      obtain ⟨v, hv, hrecord⟩ := h.authoritative w r hr
      exact ⟨v, others w hw v hv, hrecord⟩

theorem StoreInv.step {s : CoreState} (h : StoreInv s) {e : StartEvent} (he : KeepsStore s e) :
    StoreInv (startStep s e) := by
  cases e with
  | message env m => exact h.savedChange (messageChange_userMessage.saved he.1) he.2
  | sighup keys file =>
    refine ⟨h.readable, fun w r hr => ?_⟩
    obtain ⟨u, hu, hrecord⟩ := h.authoritative w r hr
    exact hasRecord_loadUsersFile hr hu hrecord (h.readable w r hr).root he keys
  | restart raw entries keys file =>
    obtain ⟨hraw, hdir, hfile⟩ := he
    refine ⟨h.readable, fun w r hr => ?_⟩
    obtain ⟨u, hu, hrecord⟩ := loaded_hasRecord h.readable hraw hdir hr
    exact hasRecord_loadUsersFile hr hu hrecord (h.readable w r hr).root hfile keys

/-- Over messages, reloads and restarts, every user with a record has its password and its
labels. -/
theorem store_authoritative {s : CoreState} (hs : s.store.users = fun _ => none)
    {es : List StartEvent} (h : Along startStep KeepsStore s es) :
    Authoritative (run startStep s es) := by
  have hinit : StoreInv s := by
    constructor
    · intro w r hr
      rw [hs] at hr
      cases hr
    · intro w r hr
      rw [hs] at hr
      cases hr
  exact (Along.invariant (fun _ _ hinv he => hinv.step he) hinit h).authoritative

/-! ### A user that is created -/

def createStaff : UserMsg where
  msg := rootSends (.lit "/users/ann") portalMethodSet
    [(.lit "password", .lit "secret"), (.lit "groups", .lit "staff")]
  path := .lit "/users/ann"
  sentTo := by decide
  about := annPath_about

def staffCreated : CoreState := userMessage plainEnv freshCore createStaff

theorem startStep_createStaff :
    startStep freshCore (.message plainEnv createStaff) = staffCreated := rfl

theorem users_staffCreated :
    staffCreated.store.users = update (fun _ => none) (.lit "ann") (some annStaff.stored) := by
  rfl

theorem listing_staffCreated :
    DirListing (storeFiles staffCreated.store.users) [.lit "ann.conf"] where
  complete f := by
    have hnone : storeFiles (fun _ => none) = fun _ => none := by
      funext f
      rw [storeFiles]
      split <;> rfl
    have hfile : userFileName (.lit "ann") = .lit "ann.conf" := by decide
    rw [users_staffCreated, storeFiles_update, hnone, hfile, mem_singleton]
    by_cases hf : f = .lit "ann.conf"
    · rw [hf, update_self]
      exact iff_of_true rfl rfl
    · rw [update_of_ne hf]
      exact iff_of_false hf Bool.false_ne_true
  room := by decide

theorem keepsStore_createStaff : KeepsStore freshCore (.message plainEnv createStaff) := by
  have huser : messageUser freshCore createStaff = some annStaff := by decide +kernel
  refine ⟨rfl, fun u hu => ?_⟩
  rw [← Option.some.inj (huser.symm.trans hu)]
  exact annStaff_plain

theorem users_staffCreated_of_ne (hw : w ≠ .lit "ann") : staffCreated.store.users w = none := by
  rw [users_staffCreated, update_of_ne hw]

/-- Ann is created and the core started again, with a `users.conf` about somebody else. -/
theorem store_authoritative_restart :
    Authoritative (run startStep freshCore [.message plainEnv createStaff,
      .restart none [.lit "ann.conf"] noKeys (some (CStr.lit "bob:x\n").bytes)]) := by
  have hlines : usersLines (CStr.lit "bob:x\n").bytes =
      [⟨.lit "bob", .lit "x", .empty, none⟩] := by decide +kernel
  have hroot : (staffCreated.store.users portalRootUser).isSome = false := by
    rw [users_staffCreated_of_ne (by decide)]
    rfl
  refine store_authoritative rfl ?_
  rw [along_cons, startStep_createStaff]
  refine ⟨keepsStore_createStaff, ⟨fun h => ?_, listing_staffCreated, ?_⟩, trivial⟩
  · exact absurd (hroot.symm.trans h) Bool.false_ne_true
  intro text htext l hl r hr
  cases htext
  rw [hlines, mem_singleton] at hl
  subst hl
  rw [users_staffCreated_of_ne (by decide)] at hr
  cases hr

/-- A `users.conf` that still has the first password. -/
def oldFile : Option Bytes := some (CStr.lit "ann:old\n").bytes

/-- The password of the record is `secret`; after a reload and after a restart it is `old`. -/
theorem store_authoritative_false :
    ¬ Authoritative (run startStep freshCore
        [.message plainEnv createStaff, .sighup noKeys oldFile]) ∧
      ¬ Authoritative (run startStep freshCore
        [.message plainEnv createStaff, .restart none [.lit "ann.conf"] noKeys oldFile]) := by
  have hold (auth : AuthDb)
      (hauth : (findAccount auth (.lit "ann")).map AuthAccount.password = some (.lit "old")) :
      ¬ Authoritative { staffCreated with auth := auth } := by
    intro h
    have hrecord : staffCreated.store.users (.lit "ann") = some annStaff.stored := by
      rw [users_staffCreated, update_self]
    obtain ⟨u, hu, hu'⟩ := h (.lit "ann") annStaff.stored hrecord
    have hsecret : u.password = .lit "secret" := hu'.password.trans (by decide)
    have hfound : findAccount auth (.lit "ann") = some u := hu
    rw [hfound, Option.map_some, hsecret] at hauth
    exact absurd hauth (by decide)
  rw [run_cons, run_cons, startStep_createStaff]
  exact ⟨hold _ (by decide +kernel), hold _ (by decide +kernel)⟩

end Portal
