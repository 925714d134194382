import Portal.Core.Handlers
import Portal.Core.UserFiles

/-!
How a user gets a password: records of the store, lines of `users.conf` (`portal_auth_load_users`
of `src/core/core_auth.c`), messages to `/users` and `/groups`, and `api_auth_ensure_user` of
`src/core/portal_instance.c`.
-/

namespace Portal

open Runs Results Option CStr
open List hiding Vector
open CStr (lit ofBytes)

variable {rest password : CStr} {db : AuthDb}

/-! ### `users.conf` -/

def colonSign : UInt8 := 58

structure UsersLine where
  username : CStr
  password : CStr
  labels : PortalLabels
  apiKey : Option CStr
deriving DecidableEq

def lineLabels (s : Bytes) : PortalLabels :=
  ((s.splitOn 44).filter (· ≠ [])).foldl
    (fun ls tok => (portalLabelsAdd ls (.ofBytes (trim tok))).1) .empty

/-- `username:password:labels:apikey`; without a first colon the line is skipped. -/
def parseUsersLine (s : Bytes) : Option UsersLine :=
  if s = [] ∨ s.head? = some hashMark then none
  else
    (cutAt colonSign s).map fun p =>
      let username := ofBytes (trim p.1)
      match cutAt colonSign p.2 with
      | none => ⟨username, .ofBytes (trim p.2), .empty, none⟩
      | some q =>
        match cutAt colonSign q.2 with
        | none => ⟨username, .ofBytes (trim q.1), lineLabels (trim q.2), none⟩
        | some r =>
          ⟨username, .ofBytes (trim q.1), lineLabels (trim r.1), some (.ofBytes (trim r.2))⟩

/-- `auto` stands for a new key. -/
def AuthAccount.setLineKey (key : GeneratedKey) (apiKey : Option CStr) (u : AuthAccount) :
    AuthAccount :=
  match apiKey with
  | none => u
  | some k =>
    if k = .lit "auto" then u.setApiKey key else if k.bytes = [] then u else u.copyApiKey k

/-- Root keeps its labels and gets those of the line. -/
def AuthAccount.mergeRootLine (key : GeneratedKey) (l : UsersLine) (u : AuthAccount) :
    AuthAccount :=
  let u := if l.password.bytes = [] then u else u.setPassword l.password
  let u := u.setLineKey key l.apiKey
  if l.labels.count = 0 then u
  else
    u.setLabels (l.labels.labels.foldl (fun ls label => (portalLabelsAdd ls label).1)
      (portalLabelsAdd u.labels portalRootUser).1)

def loadUsersLine (key : GeneratedKey) (db : AuthDb) (l : UsersLine) : AuthDb :=
  if l.username = portalRootUser then db.modifyUser l.username (AuthAccount.mergeRootLine key l)
  else
    let added := portalAuthAddUser db l.username l.password l.labels
    if added.2 = 0 then added.1.modifyUser l.username (AuthAccount.setLineKey key l.apiKey)
    else added.1

def usersLines (file : Bytes) : List UsersLine := (fileLines 512 file).filterMap parseUsersLine

/-- `keys` is what the random generator delivers for the lines. -/
def portalAuthLoadUsers (keys : Nat → GeneratedKey) (file : Bytes) (db : AuthDb) : AuthDb :=
  (usersLines file).zipIdx.foldl (fun db l => loadUsersLine (keys l.2) db l.1) db

/-! ### `api_auth_ensure_user` -/

def apiAuthEnsureUser (env : CoreEnv) (s : CoreState) (username : CharPtr)
    (labels : Option PortalLabels) (key : CharPtr) : CoreState × Int :=
  match username.map ofBytes with
  | none => (s, -1)
  | some name =>
    if name.bytes = [] then (s, -1)
    else
      let given := (key.map ofBytes).filter fun k => k.bytes ≠ []
      match findAccount s.auth name with
      | none =>
        let added := portalAuthAddUser s.auth name (.lit "") (labels.getD .empty)
        let s := { s with auth := added.1 }
        if added.2 ≠ 0 then (s, -1)
        else
          match findAccount s.auth name with
          | none => (s, -1)
          | some _ =>
            let auth := s.auth.modifyUser name fun u =>
              given.elim (u.setApiKey env.key) u.copyApiKey
            (saveUserDual env { s with auth := auth } name, 1)
      | some u =>
        match given with
        | none => (s, 0)
        | some k =>
          if u.apiKey = k then (s, 0)
          else
            let auth := s.auth.modifyUser name fun u => u.copyApiKey k
            (saveUserDual env { s with auth := auth } name, 0)

/-! ### Messages -/

structure UserMsg where
  msg : PortalMsg
  path : CStr
  sentTo : msg.path.map ofBytes = some path
  about : (lit "/users/").bytes <+: path.bytes ∨ (lit "/groups/").bytes <+: path.bytes

/-- What the core makes of it; a message that the core crashes on changes nothing. -/
def userMessage (env : CoreEnv) (s : CoreState) (m : UserMsg) : CoreState :=
  (coreHandleMessage env s m.msg).elim s Prod.fst

/-- Of the tests of the core, those about users and groups are the ones that count. -/
theorem coreHandleMessage_user (env : CoreEnv) (s : CoreState) (m : UserMsg) :
    coreHandleMessage env s m.msg =
      (((handleUsers env s m.msg m.path).or (handleGroups env s m.msg m.path)).getD
        (s.reply (.fail .notFound))) := by
  obtain ⟨msg, path, hpath, habout⟩ := m
  obtain ⟨p, hp, rfl⟩ := map_eq_some_iff.mp hpath
  have hsecond : (ofBytes p).bytes[1]? = some 117 ∨ (ofBytes p).bytes[1]? = some 103 := by
    rcases habout with ⟨t, ht⟩ | ⟨t, ht⟩
    · refine .inl ?_
      rw [← ht, getElem?_append_left (by decide)]
      decide
    · refine .inr ?_
      rw [← ht, getElem?_append_left (by decide)]
      decide
  -- every other test is for a path that goes on differently
  have hne : ∀ t : String, (lit t).bytes[1]? ∉ ([some 117, some 103] : List (Option UInt8)) →
      ofBytes p ≠ .lit t := by
    rintro t ht heq
    rw [heq] at hsecond
    simp only [mem_cons, not_mem_nil, or_false] at ht
    exact ht hsecond
  have hafter : ∀ t : String, 1 < (lit t).bytes.length →
      (lit t).bytes[1]? ∉ ([some 117, some 103] : List (Option UInt8)) →
      afterPrefix (.lit t) (ofBytes p) = none := by
    intro t hlen ht
    refine if_neg ?_
    rintro ⟨r, hr⟩
    rw [← hr, getElem?_append_left hlen] at hsecond
    simp only [mem_cons, not_mem_nil, or_false] at ht
    exact ht hsecond
  have hnavigation : handleNavigation s msg (.ofBytes p) = none := by
    simp (disch := decide +kernel) only [handleNavigation, hne, false_and, if_false]
  have hmodules : handleModules env s msg (.ofBytes p) = none := by
    simp (disch := decide +kernel) only [handleModules, hafter]
  have hauth : handleAuth env s msg (.ofBytes p) = none := by
    simp (disch := decide +kernel) only [handleAuth, hne, false_and, if_false]
  have hevents : handleEvents s msg (.ofBytes p) = none := by
    simp (disch := decide +kernel) only [handleEvents, hne, hafter, isSome_none,
      Bool.false_eq_true, false_and, if_false]
  have hconfig : handleConfig env s msg (.ofBytes p) = none := by
    simp (disch := decide +kernel) only [handleConfig, hne, if_false]
  have hlocks : handleLocks env s msg (.ofBytes p) = none := by
    simp (disch := decide +kernel) only [handleLocks, hne, false_and, if_false]
  have hstorage : handleStorage s msg (.ofBytes p) = none := by
    simp (disch := decide +kernel) only [handleStorage, hne, hafter, false_and, if_false]
  simp only [coreHandleMessage, hp, coreHandlers, hnavigation, hmodules, hauth, hevents, hconfig,
    hlocks, hstorage]
  cases handleUsers env s msg (.ofBytes p) with
  | some r => rfl
  | none => cases handleGroups env s msg (.ofBytes p) <;> rfl

inductive UserEvent where
  | loadStore (dir : UserDir) (entries : List CStr)
  | loadUsers (keys : Nat → GeneratedKey) (file : Bytes)
  | message (env : CoreEnv) (m : UserMsg)
  | ensureUser (env : CoreEnv) (username : CharPtr) (labels : Option PortalLabels) (key : CharPtr)

def userStep (s : CoreState) : UserEvent → CoreState
  | .loadStore dir entries => { s with auth := portalAuthLoadFromStore dir entries s.auth }
  | .loadUsers keys file => { s with auth := portalAuthLoadUsers keys file s.auth }
  | .message env m => userMessage env s m
  | .ensureUser env username labels key => (apiAuthEnsureUser env s username labels key).1

/-! ### Passwords that are stored -/

/-- The password that `portal_auth_add_user` stores. A user that is there keeps theirs if none
is given. -/
def addStores (db : AuthDb) (name password : CStr) : Option CStr :=
  if authMaxUsers ≤ db.accounts.length then none
  else if (findAccount db name).isSome ∧ password.bytes = [] then none
  else some (password.truncate 255)

def recordStores (dir : UserDir) (db : AuthDb) (name : CStr) : Option CStr :=
  match dir (userFileName name) with
  | none => none
  | some file =>
    if name = portalRootUser then (readRecord file).password.map (CStr.truncate 255)
    else addStores db name ((readRecord file).password.getD (.lit ""))

def lineStores (db : AuthDb) (l : UsersLine) : Option CStr :=
  if l.username = portalRootUser then
    if l.password.bytes = [] then none else some (l.password.truncate 255)
  else addStores db l.username l.password

def messageStores (s : CoreState) (m : UserMsg) : Option CStr :=
  match afterPrefix (.lit "/users/") m.path with
  | none => none
  | some rest =>
    let name := (cutSegment rest).1
    let given := (getHdr (.lit "password") m.msg.headerList).join.map ofBytes
    if (cutSegment rest).2 = some (.lit "/password") ∧ m.msg.method = portalMethodCall then
      if callerIsAdmin m.msg ∨ m.msg.ctxUser.map ofBytes = some name then
        given.map (CStr.truncate 255)
      else none
    else if m.msg.method = portalMethodSet ∧ callerIsAdmin m.msg then
      addStores s.auth name (given.getD (.lit ""))
    else none

def membershipChange (msg : PortalMsg) (rest : CStr) : Option (PortalLabels → PortalLabels) :=
  let gname := (cutSegment rest).1
  let action := (cutSegment rest).2.map (CStr.drop 1)
  if action = some (.lit "add") ∧ msg.method = portalMethodCall then
    some fun ls => (portalLabelsAdd ls gname).1
  else if action = some (.lit "remove") ∧ msg.method = portalMethodCall then
    some fun ls => (portalLabelsRemove ls gname).1
  else none

/-- The user as a message to `/users/` leaves them, if its sender may change them. -/
def usersMessageUser (s : CoreState) (msg : PortalMsg) (rest : CStr) : Option AuthAccount :=
  let name := (cutSegment rest).1
  if (cutSegment rest).2 = some (.lit "/password") ∧ msg.method = portalMethodCall then
    if callerIsAdmin msg ∨ msg.ctxUser.map ofBytes = some name then do
      let given ← (← getHdr (.lit "password") msg.headerList)
      let u ← findAccount s.auth name
      return u.setPassword (.ofBytes given)
    else none
  else if msg.method = portalMethodSet ∧ callerIsAdmin msg ∧
      s.auth.accounts.length < authMaxUsers then do
    let password ← getHdr (.lit "password") msg.headerList
    let groups ← getHdr (.lit "groups") msg.headerList
    return addedUser name ((password.map ofBytes).getD (.lit ""))
      (parseGroups ((groups.map ofBytes).getD (.lit ""))) (findAccount s.auth name)
  else none

def groupsMessageUser (s : CoreState) (msg : PortalMsg) (rest : CStr) : Option AuthAccount :=
  if callerIsAdmin msg then do
    let change ← membershipChange msg rest
    let name ← (← getHdr (.lit "user") msg.headerList)
    let u ← findAccount s.auth (.ofBytes name)
    return u.setLabels (change u.labels)
  else none

def messageUser (s : CoreState) (m : UserMsg) : Option AuthAccount :=
  match afterPrefix (.lit "/users/") m.path with
  | some rest => usersMessageUser s m.msg rest
  | none => (afterPrefix (.lit "/groups/") m.path).bind (groupsMessageUser s m.msg)

def ensureStores (s : CoreState) (username : CharPtr) : Option CStr :=
  match username.map ofBytes with
  | none => none
  | some name =>
    if name.bytes = [] ∨ (findAccount s.auth name).isSome then none
    else addStores s.auth name (.lit "")

/-! ### What a message does to the users -/

inductive MessageChange (env : CoreEnv) (s : CoreState) (m : UserMsg) : CoreState → Prop where
  | same {s' : CoreState} (auth : s'.auth = s.auth) (users : s'.store.users = s.store.users) :
      MessageChange env s m s'
  | password {name password : CStr} {u : AuthAccount} (found : findAccount s.auth name = some u)
      (stores : messageStores s m = some (password.truncate 255))
      (user : messageUser s m = some (u.setPassword password)) :
      MessageChange env s m (saveUserDual env
        { s with auth := s.auth.modifyUser name fun u => u.setPassword password } name)
  | labels {name : CStr} {u : AuthAccount} (found : findAccount s.auth name = some u)
      (change : PortalLabels → PortalLabels)
      (user : messageUser s m = some (u.setLabels (change u.labels))) :
      MessageChange env s m (saveUserDual env
        { s with auth := s.auth.modifyUser name fun u => u.setLabels (change u.labels) } name)
  | added {name password : CStr} {labels : PortalLabels}
      (short : name.bytes.length < portalMaxLabelLen)
      (stores : messageStores s m = addStores s.auth name password)
      (done : (portalAuthAddUser s.auth name password labels).2 = 0)
      (user : messageUser s m = some (addedUser name password labels (findAccount s.auth name))) :
      MessageChange env s m (saveUserDual env
        { s with auth := (portalAuthAddUser s.auth name password labels).1 } name)

section Messages

variable {env : CoreEnv} {s : CoreState} {m : UserMsg}

abbrev Changes (env : CoreEnv) (s : CoreState) (m : UserMsg) : CoreResult → Prop :=
  Returns fun r => MessageChange env s m r.1

theorem changes_reply (r : CoreReply) : Changes env s m (s.reply r) :=
  returns_some.mpr (.same rfl rfl)

theorem changes_password (hrest : afterPrefix (.lit "/users/") m.path = some rest)
    (hsub : (cutSegment rest).2 = some (.lit "/password") ∧ m.msg.method = portalMethodCall) :
    Changes env s m (handlePassword env s m.msg (cutSegment rest).1) := by
  refine returns_ite (fun _ => changes_reply _) fun hmay => ?_
  have hmay : callerIsAdmin m.msg = true ∨
      m.msg.ctxUser.map ofBytes = some (cutSegment rest).1 := by
    cases hadmin : callerIsAdmin m.msg with
    | true => exact .inl rfl
    | false => exact .inr (by simpa [hadmin] using hmay)
  refine returns_bind fun newpass hnew => ?_
  cases newpass with
  | none => exact changes_reply _
  | some newpass =>
    cases hfind : findAccount s.auth (cutSegment rest).1 with
    | none => exact changes_reply _
    | some u =>
      refine returns_some.mpr (.password hfind ?_ ?_)
      · simp only [messageStores, hrest, if_pos hsub, if_pos hmay, hnew]
        rfl
      · simp only [messageUser, usersMessageUser, hrest, if_pos hsub, if_pos hmay, hnew, hfind]
        rfl

theorem addUser_failed {name : CStr} {labels : PortalLabels}
    (h : (portalAuthAddUser db name password labels).2 ≠ 0) :
    (portalAuthAddUser db name password labels).1 = db := by
  by_cases hroom : db.accounts.length < authMaxUsers
  · exact absurd (addUser_rc hroom password labels) h
  · rw [portalAuthAddUser, if_pos (Nat.le_of_not_lt hroom)]

theorem room_of_addUser {name : CStr} {labels : PortalLabels}
    (h : (portalAuthAddUser db name password labels).2 = 0) :
    db.accounts.length < authMaxUsers := by
  by_contra hfull
  rw [portalAuthAddUser, if_pos (Nat.le_of_not_lt hfull)] at h
  exact absurd (show (-1 : Int) = 0 from h) (by decide)

theorem changes_userSet (hrest : afterPrefix (.lit "/users/") m.path = some rest)
    (hsub : ¬ ((cutSegment rest).2 = some (.lit "/password") ∧ m.msg.method = portalMethodCall))
    (hset : m.msg.method = portalMethodSet) :
    Changes env s m (handleUserSet env s m.msg (cutSegment rest).1) := by
  refine returns_ite (fun _ => changes_reply _) fun hadmin => ?_
  have hadmin : callerIsAdmin m.msg = true := by simpa using hadmin
  refine returns_bind fun password hpassword => returns_bind fun groups hgroups => ?_
  refine returns_ite (fun hdone => ?_) fun hfailed => ?_
  · refine returns_some.mpr (.added (length_truncate_lt _ (by decide)) ?_ hdone ?_)
    · simp only [messageStores, hrest, if_neg hsub, if_pos (And.intro hset hadmin), hpassword]
      rfl
    · simp only [messageUser, usersMessageUser, hrest, if_neg hsub,
        if_pos (And.intro hset (And.intro hadmin (room_of_addUser hdone))), hpassword, hgroups]
      rfl
  · exact returns_some.mpr (.same (addUser_failed hfailed) rfl)

theorem changes_users : Returns (Changes env s m) (handleUsers env s m.msg m.path) := by
  apply returns_branch (changes_reply _)
  cases hrest : afterPrefix (.lit "/users/") m.path with
  | none => exact returns_none
  | some rest =>
    refine returns_ite (fun hsub => returns_some.mpr (changes_password hrest hsub)) fun hsub => ?_
    apply returns_branch
    · unfold handleUserInfo
      split <;> exact changes_reply _
    · exact returns_ite (fun hset => returns_some.mpr (changes_userSet hrest hsub hset))
        fun _ => returns_none

/-- A path begins with one of the two. -/
theorem afterPrefix_users {path : CStr} (h : afterPrefix (.lit "/groups/") path = some rest) :
    afterPrefix (.lit "/users/") path = none := by
  refine if_neg fun husers => ?_
  have hgroups : (lit "/groups/").bytes <+: path.bytes := by
    by_contra hnot
    rw [afterPrefix, if_neg hnot] at h
    cases h
  have hpre : (lit "/users/").bytes <+: (lit "/groups/").bytes :=
    prefix_of_prefix_length_le husers hgroups (by decide)
  exact absurd hpre (by decide)

theorem changes_membership (hrest : afterPrefix (.lit "/groups/") m.path = some rest)
    {change : PortalLabels → PortalLabels} (hchange : membershipChange m.msg rest = some change)
    (text : CStr → CStr) : Changes env s m (handleMembership env s m.msg change text) := by
  refine returns_ite (fun _ => changes_reply _) fun hadmin => ?_
  have hadmin : callerIsAdmin m.msg = true := by simpa using hadmin
  refine returns_bind fun uname huname => ?_
  cases uname with
  | none => exact changes_reply _
  | some name =>
    dsimp only [Option.map_some]
    cases hfind : findAccount s.auth (ofBytes name) with
    | none => exact changes_reply _
    | some u =>
      refine returns_some.mpr (.labels hfind change ?_)
      simp only [messageUser, afterPrefix_users hrest, hrest, groupsMessageUser, if_pos hadmin,
        Option.bind_some, hchange, huname, hfind, bind, pure]

theorem changes_groups : Returns (Changes env s m) (handleGroups env s m.msg m.path) := by
  apply returns_branch (changes_reply _)
  cases hrest : afterPrefix (.lit "/groups/") m.path with
  | none => exact returns_none
  | some rest =>
    refine returns_ite (fun hadd => returns_some.mpr (changes_membership hrest ?_ _)) fun hadd => ?_
    · exact if_pos hadd
    refine returns_ite (fun hremove => returns_some.mpr (changes_membership hrest ?_ _)) fun _ => ?_
    · exact (if_neg hadd).trans (if_pos hremove)
    apply returns_branch
    · refine returns_either (changes_reply _) (returns_bind fun desc _ => ?_)
      refine returns_some.mpr (.same rfl ?_)
      split <;> rfl
    · exact returns_branch (changes_reply _) returns_none

/-- All that a message about users and groups can do. -/
theorem messageChange_userMessage : MessageChange env s m (userMessage env s m) := by
  have hresult : Changes env s m (coreHandleMessage env s m.msg) := by
    rw [coreHandleMessage_user]
    cases husers : handleUsers env s m.msg m.path with
    | some r => exact changes_users r husers
    | none =>
      cases hgroups : handleGroups env s m.msg m.path with
      | some r => exact changes_groups r hgroups
      | none => exact changes_reply _
  unfold userMessage
  cases hmsg : coreHandleMessage env s m.msg with
  | none => exact .same rfl rfl
  | some r => exact hresult r hmsg

end Messages

section Rejecting

variable (sha256Hex : Bytes → CStr)

def RejectsEmpty (stored : CStr) : Prop :=
  portalAuthCheckPassword sha256Hex stored (.lit "") = false

def AllReject (db : AuthDb) : Prop := ∀ u ∈ db.accounts, RejectsEmpty sha256Hex u.password

def StoresReject (s : CoreState) : UserEvent → Prop
  | .loadStore dir entries =>
    Along (loadUserCb dir)
      (fun db name => ∀ p ∈ recordStores dir db name, RejectsEmpty sha256Hex p) s.auth
      (entries.filterMap listedName)
  | .loadUsers keys file =>
    Along (fun db l => loadUsersLine (keys l.2) db l.1)
      (fun db l => ∀ p ∈ lineStores db l.1, RejectsEmpty sha256Hex p) s.auth
      (usersLines file).zipIdx
  | .message _ m => ∀ p ∈ messageStores s m, RejectsEmpty sha256Hex p
  | .ensureUser _ username _ _ => ∀ p ∈ ensureStores s username, RejectsEmpty sha256Hex p

end Rejecting

section Steps

variable {sha256Hex : Bytes → CStr} {db : AuthDb} {name : CStr}

theorem forall_mem_of_forall₂ {α : Type} {P : α → Prop} {xs ys : List α}
    (h : List.Forall₂ (fun x y => P x → P y) xs ys) (hxs : ∀ x ∈ xs, P x) : ∀ y ∈ ys, P y := by
  induction h with
  | nil => exact fun y hy => absurd hy not_mem_nil
  | cons hxy _ ih =>
    rw [forall_mem_cons] at hxs ⊢
    exact ⟨hxy hxs.1, ih hxs.2⟩

theorem AllReject.modifyUser (h : AllReject sha256Hex db) {f : AuthAccount → AuthAccount}
    (hf : ∀ u, RejectsEmpty sha256Hex u.password → RejectsEmpty sha256Hex (f u).password) :
    AllReject sha256Hex (db.modifyUser name f) :=
  forall_mem_of_forall₂ (forall₂_modifyUser (fun _ hu => hu) fun u _ => hf u) h

theorem AllReject.addUser (h : AllReject sha256Hex db)
    (hp : ∀ p ∈ addStores db name password, RejectsEmpty sha256Hex p) (labels : PortalLabels) :
    AllReject sha256Hex (portalAuthAddUser db name password labels).1 := by
  rw [portalAuthAddUser]
  by_cases hfull : authMaxUsers ≤ db.accounts.length
  · rw [if_pos hfull]
    exact h
  · rw [addStores, if_neg hfull] at hp
    rw [if_neg hfull]
    cases hfind : findAccount db name with
    | some u =>
      rw [hfind] at hp
      refine h.modifyUser fun v hv => ?_
      change RejectsEmpty sha256Hex (v.merge password labels).password
      rw [password_merge]
      split
      · exact hv
      · rename_i hne
        exact hp _ (by rw [if_neg fun hc => hne hc.2]; rfl)
    | none =>
      rw [hfind, if_neg fun hc => Bool.false_ne_true hc.1] at hp
      intro u hu
      rcases mem_append.mp hu with hu | hu
      · exact h u hu
      · rw [mem_singleton.mp hu]
        exact hp _ rfl

theorem setLineKey_fields (key : GeneratedKey) (apiKey : Option CStr) (u : AuthAccount) :
    (u.setLineKey key apiKey).username = u.username ∧
      (u.setLineKey key apiKey).password = u.password ∧
      (u.setLineKey key apiKey).labels = u.labels := by
  unfold AuthAccount.setLineKey
  split
  · exact ⟨rfl, rfl, rfl⟩
  · split_ifs <;> exact ⟨rfl, rfl, rfl⟩

theorem password_mergeRootLine (key : GeneratedKey) (l : UsersLine) (u : AuthAccount) :
    (u.mergeRootLine key l).password =
      if l.password.bytes = [] then u.password else l.password.truncate 255 := by
  unfold AuthAccount.mergeRootLine
  split_ifs <;> exact (setLineKey_fields ..).2.1

theorem AllReject.loadUserCb (h : AllReject sha256Hex db) {dir : UserDir}
    (hp : ∀ p ∈ recordStores dir db name, RejectsEmpty sha256Hex p) :
    AllReject sha256Hex (loadUserCb dir db name) := by
  unfold recordStores at hp
  unfold Portal.loadUserCb
  cases hfile : dir (userFileName name) with
  | none => exact h
  | some file =>
    simp only [hfile] at hp
    simp only [loadRecord]
    by_cases hroot : name = portalRootUser
    · rw [if_pos hroot] at hp ⊢
      refine h.modifyUser fun u hu => ?_
      rw [password_loadRoot]
      cases hpw : (readRecord file).password with
      | none => exact hu
      | some pw => exact hp _ (by rw [hpw]; rfl)
    · rw [if_neg hroot] at hp ⊢
      have hadded := h.addUser hp (readRecord file).labels
      split
      · refine hadded.modifyUser fun u hu => ?_
        cases (readRecord file).apiKey <;> exact hu
      · exact hadded

theorem AllReject.loadUsersLine (h : AllReject sha256Hex db) {l : UsersLine}
    (hp : ∀ p ∈ lineStores db l, RejectsEmpty sha256Hex p) (key : GeneratedKey) :
    AllReject sha256Hex (loadUsersLine key db l) := by
  unfold lineStores at hp
  unfold Portal.loadUsersLine
  by_cases hroot : l.username = portalRootUser
  · rw [if_pos hroot] at hp ⊢
    refine h.modifyUser fun u hu => ?_
    rw [password_mergeRootLine]
    split
    · exact hu
    · rename_i hne
      exact hp _ (by rw [if_neg hne]; rfl)
  · rw [if_neg hroot] at hp ⊢
    have hadded := h.addUser hp l.labels
    simp only
    split
    · exact hadded.modifyUser fun u hu => by rwa [(setLineKey_fields ..).2.1]
    · exact hadded

theorem auth_saveUserDual (env : CoreEnv) (s : CoreState) (username : CStr) :
    (saveUserDual env s username).auth = s.auth := by
  unfold saveUserDual
  split <;> rfl

theorem AllReject.ensureUser {s : CoreState} (h : AllReject sha256Hex s.auth) {username : CharPtr}
    (hp : ∀ p ∈ ensureStores s username, RejectsEmpty sha256Hex p) (env : CoreEnv)
    (labels : Option PortalLabels) (key : CharPtr) :
    AllReject sha256Hex (apiAuthEnsureUser env s username labels key).1.auth := by
  unfold ensureStores at hp
  unfold apiAuthEnsureUser
  cases hname : username.map ofBytes with
  | none => exact h
  | some name =>
    simp only [hname] at hp
    simp only
    split
    · exact h
    rename_i hnil
    cases hfind : findAccount s.auth name with
    | none =>
      rw [hfind, if_neg (by simpa using hnil)] at hp
      have hadded := h.addUser hp (labels.getD .empty)
      simp only
      split
      · exact hadded
      split
      · exact hadded
      simp only [auth_saveUserDual]
      refine hadded.modifyUser fun u hu => ?_
      generalize (key.map ofBytes).filter _ = given
      cases given <;> exact hu
    | some u =>
      simp only
      split
      · exact h
      split
      · exact h
      · simp only [auth_saveUserDual]
        exact h.modifyUser fun _ hu => hu

theorem AllReject.messageChange {env : CoreEnv} {s s' : CoreState} {m : UserMsg}
    (h : AllReject sha256Hex s.auth) (hchange : MessageChange env s m s')
    (hp : ∀ p ∈ messageStores s m, RejectsEmpty sha256Hex p) : AllReject sha256Hex s'.auth := by
  cases hchange with
  | same auth users => rwa [auth]
  | password found stores user =>
    rw [auth_saveUserDual]
    exact h.modifyUser fun _ _ => hp _ stores
  | labels found change user =>
    rw [auth_saveUserDual]
    exact h.modifyUser fun _ hu => hu
  | added short stores done user =>
    rw [auth_saveUserDual]
    exact h.addUser (stores ▸ hp) _

theorem AllReject.step {s : CoreState} (h : AllReject sha256Hex s.auth) {e : UserEvent}
    (hp : StoresReject sha256Hex s e) : AllReject sha256Hex (userStep s e).auth := by
  cases e with
  | loadStore dir entries =>
    have hrecord : ∀ db name, AllReject sha256Hex db →
        (∀ p ∈ recordStores dir db name, RejectsEmpty sha256Hex p) →
        AllReject sha256Hex (Portal.loadUserCb dir db name) :=
      fun _ _ hdb hc => hdb.loadUserCb hc
    exact Along.invariant hrecord h hp
  | loadUsers keys file =>
    have hline : ∀ db (l : UsersLine × Nat), AllReject sha256Hex db →
        (∀ p ∈ lineStores db l.1, RejectsEmpty sha256Hex p) →
        AllReject sha256Hex (Portal.loadUsersLine (keys l.2) db l.1) :=
      fun _ _ hdb hc => hdb.loadUsersLine hc _
    exact Along.invariant hline h hp
  | message env m => exact h.messageChange messageChange_userMessage hp
  | ensureUser env username labels key => exact h.ensureUser hp env labels key

end Steps

section Logins

variable {sha256Hex : Bytes → CStr}

theorem rejectsEmpty_of_head {stored : CStr} {b : UInt8} (hb : stored.bytes.head? = some b)
    (hne : b ≠ dollar) : RejectsEmpty sha256Hex stored := by
  have hplain : ¬ authHashPrefix.bytes <+: stored.bytes := by
    intro hpre
    have hhead : stored.bytes.head? = some dollar := by
      obtain ⟨t, ht⟩ := hpre
      rw [← ht]
      rfl
    exact hne (some.inj (hb.symm.trans hhead))
  have hstored : stored ≠ .lit "" := by
    rintro rfl
    cases hb
  rw [RejectsEmpty, portalAuthCheckPassword, if_neg hplain]
  exact decide_eq_false hstored

theorem allReject_init (raw : Option (Vector UInt8 32)) :
    AllReject sha256Hex (portalAuthInit raw) := by
  have hzero : AllReject sha256Hex zeroedAuth := fun u hu => absurd hu not_mem_nil
  rw [portalAuthInit]
  split
  · exact hzero
  cases raw with
  | none =>
    rename_i hne
    exact absurd (generateToken_eq_nil.mpr rfl) hne
  | some raw =>
    refine hzero.addUser (fun p hp => ?_) rootLabels
    obtain ⟨n, hn, hhead⟩ := head_generateToken raw
    have hdigit : ∀ n < 16, hexDigit n ≠ dollar := by decide
    obtain rfl : (generateToken (some raw)).truncate 255 = p := by
      have hstores : addStores zeroedAuth portalRootUser (generateToken (some raw)) =
          some ((generateToken (some raw)).truncate 255) := by
        rw [addStores, if_neg (by decide), if_neg fun hc => absurd hc.1 (by decide)]
      exact some.inj (hstores.symm.trans hp)
    refine rejectsEmpty_of_head ?_ (hdigit n hn)
    change ((generateToken (some raw)).bytes.take 255).head? = _
    rw [head?_take, if_neg (by decide), hhead]

theorem AllReject.login (h : AllReject sha256Hex db) (now : UInt64) (token name : CStr) :
    (portalAuthLogin sha256Hex db now token name (.lit "")).2 = none := by
  unfold portalAuthLogin
  cases hfind : findAccount db name with
  | none => rfl
  | some u =>
    have hu : portalAuthCheckPassword sha256Hex u.password (.lit "") = false :=
      h u (mem_of_find?_eq_some hfind)
    simp [hu]

/-- Nobody can log in with an empty password, if no password that accepts it is ever stored. -/
theorem no_empty_login (sha256Hex : Bytes → CStr) {s : CoreState}
    {raw : Option (Vector UInt8 32)} (hs : s.auth = portalAuthInit raw) {es : List UserEvent}
    (h : Along userStep (StoresReject sha256Hex) s es) (now : UInt64) (token name : CStr) :
    (portalAuthLogin sha256Hex (run userStep s es).auth now token name (.lit "")).2 = none := by
  have hinit : AllReject sha256Hex s.auth := hs ▸ allReject_init raw
  have hstep : ∀ s e, AllReject sha256Hex s.auth → StoresReject sha256Hex s e →
      AllReject sha256Hex (userStep s e).auth := fun _ _ hdb hc => hdb.step hc
  exact (Along.invariant hstep hinit h).login now token name

/-! ### A fresh core -/

def freshCore : CoreState := plainState (portalAuthInit (some (Vector.replicate 32 0)))

def noKeys : Nat → GeneratedKey := fun _ => plainEnv.key

/-- A line of `users.conf` with a password makes a user who cannot log in without it. -/
theorem no_empty_login_line :
    (portalAuthLogin plainEnv.sha256Hex
      (run userStep freshCore [.loadUsers noKeys (lit "ann:secret:staff\n").bytes]).auth 0
      (.lit "t") (.lit "ann") (.lit "")).2 = none := by
  have hlines : usersLines (lit "ann:secret:staff\n").bytes =
      [⟨.lit "ann", .lit "secret", (portalLabelsAdd .empty (.lit "staff")).1, none⟩] := by
    decide +kernel
  have hfresh : freshCore.auth = portalAuthInit (some (Vector.replicate 32 0)) := rfl
  refine no_empty_login plainEnv.sha256Hex hfresh
    (?_ : Along userStep _ freshCore [.loadUsers _ _]) 0 _ _
  refine ⟨?_, trivial⟩
  simp only [StoresReject, hlines]
  refine ⟨fun p hp => ?_, trivial⟩
  obtain rfl : lit "secret" = p := by
    have hstores : lineStores freshCore.auth
        ⟨.lit "ann", .lit "secret", (portalLabelsAdd .empty (.lit "staff")).1, none⟩ =
          some (.lit "secret") := by
      decide +kernel
    exact some.inj (hstores.symm.trans hp)
  exact rejectsEmpty_of_head (b := 115) (by decide) (by decide)

theorem annPath_about : (lit "/users/").bytes <+: (lit "/users/ann").bytes ∨
    (lit "/groups/").bytes <+: (lit "/users/ann").bytes := .inl (by decide)

def createAnn : UserMsg where
  msg := rootSends (.lit "/users/ann") portalMethodSet []
  path := .lit "/users/ann"
  sentTo := by decide
  about := annPath_about

def clearPassword : UserMsg where
  msg := rootSends (.lit "/users/root/password") portalMethodCall [(.lit "password", .lit "")]
  path := .lit "/users/root/password"
  sentTo := by decide
  about := .inl (by decide)

def groupsOnly : UserDir := fun f =>
  if f = .lit "ann.conf" then some (lit "groups = staff\n").bytes else none

theorem login_of_empty {name : CStr}
    (h : (findAccount db name).map AuthAccount.password = some (.lit "")) (sha256Hex : Bytes → CStr)
    (now : UInt64) (token : CStr) :
    (portalAuthLogin sha256Hex db now token name (.lit "")).2 = some token := by
  obtain ⟨u, hfind, hu⟩ := map_eq_some_iff.mp h
  have hcheck : portalAuthCheckPassword sha256Hex (.lit "") (.lit "") = true := by
    rw [portalAuthCheckPassword, if_neg (by decide)]
    exact decide_eq_true rfl
  simp [portalAuthLogin, hfind, hu, hcheck]

def emptyLogin (e : UserEvent) (name : CStr) : Option CStr :=
  (portalAuthLogin plainEnv.sha256Hex (run userStep freshCore [e]).auth 0 (.lit "t") name
    (.lit "")).2

/-- A record, a line or a message without a password, a message that clears it, and a module that
needs a user: after each there is a user who logs in with an empty password. -/
theorem no_empty_login_false :
    emptyLogin (.loadStore groupsOnly [.lit "ann.conf"]) (.lit "ann") = some (.lit "t") ∧
      emptyLogin (.loadUsers noKeys (lit "ann:\n").bytes) (.lit "ann") = some (.lit "t") ∧
      emptyLogin (.message plainEnv createAnn) (.lit "ann") = some (.lit "t") ∧
      emptyLogin (.message plainEnv clearPassword) portalRootUser = some (.lit "t") ∧
      emptyLogin (.ensureUser plainEnv (some (lit "ann").bytes) none none) (.lit "ann") =
        some (.lit "t") := by
  refine ⟨?_, ?_, ?_, ?_, ?_⟩ <;> exact login_of_empty (by decide +kernel) _ _ _

end Logins

end Portal
