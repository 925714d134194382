import Portal.Core.Auth
import Portal.Lib.Runs
import Portal.Lib.Slots

/-!
The life of a session token: `portal_auth_login`, `portal_auth_login_key`,
`portal_auth_logout`, `portal_auth_cleanup_sessions` and `portal_auth_resolve_token` of
`src/core/core_auth.c`.

SHA-256 is an argument, and so is what `generate_token` writes for a login.
-/

namespace Portal

open List Runs Slots Option Function

def authMaxSessions : Nat := 256

def authKeyLen : Nat := 64

/-- `auth_user_t`, with the sizes of its fields. -/
structure AuthAccount extends AuthUser where
  password : CStr
  username_short : username.bytes.length < portalMaxLabelLen
  password_short : password.bytes.length < 256
  apiKey_short : apiKey.bytes.length ≤ authKeyLen
deriving DecidableEq

/-- `portal_auth_registry_t`. -/
structure AuthDb where
  accounts : List AuthAccount
  sessions : List AuthSession
  sessionTtl : Int32
deriving DecidableEq

def AuthDb.registry (db : AuthDb) : PortalAuthRegistry :=
  ⟨db.accounts.map AuthAccount.toAuthUser, db.sessions⟩

/-- `portal_auth_find_user`, with the password. -/
def findAccount (db : AuthDb) (username : CStr) : Option AuthAccount :=
  db.accounts.find? fun u => u.username = username

section Passwords

variable (sha256Hex : Bytes → CStr)

def authHashPrefix : CStr := .lit "$sha256$"

/-- The hash of salt and password, printed into a buffer of `outLen` bytes. -/
def portalAuthHashPassword (password salt : CStr) (outLen : Nat) : CStr :=
  let combined := (salt.append password).truncate 383
  let hex := sha256Hex combined.bytes
  ((authHashPrefix.append salt).append ((CStr.lit "$").append hex)).truncate (outLen - 1)

def dollar : UInt8 := 36

def portalAuthCheckPassword (stored input : CStr) : Bool :=
  if authHashPrefix.bytes <+: stored.bytes then
    let rest := stored.bytes.drop authHashPrefix.bytes.length
    match rest.idxOf? dollar with
    | none => false
    | some slen =>
      if 65 ≤ slen then false
      else stored = portalAuthHashPassword sha256Hex input (.ofBytes (rest.take slen)) 256
  else stored = input  -- plain text

end Passwords

/-! ### Sessions -/

def loginSlot (sessions : List AuthSession) : Nat :=
  (sessions.findIdx? fun s => !s.active).getD 0

/-- The end of both logins: the session is written, `token` being what `generate_token`
produced. -/
def openSession (db : AuthDb) (now : UInt64) (token username : CStr) : AuthDb :=
  { db with
    sessions := db.sessions.set (loginSlot db.sessions)
      { token
        username := username.truncate (portalMaxLabelLen - 1)
        expiresAt := now + db.sessionTtl.toInt64.toUInt64
        active := true } }

def portalAuthLogin (sha256Hex : Bytes → CStr) (db : AuthDb) (now : UInt64)
    (token username password : CStr) : AuthDb × Option CStr :=
  match findAccount db username with
  | none => (db, none)
  | some user =>
    if portalAuthCheckPassword sha256Hex user.password password then
      (openSession db now token username, some token)
    else (db, none)

def portalAuthLoginKey (db : AuthDb) (now : UInt64) (token : CStr) (apiKey : CharPtr) :
    AuthDb × Option CStr :=
  match portalAuthFindByKey db.registry apiKey with
  | none => (db, none)
  | some user => (openSession db now token user.username, some token)

def portalAuthLogout (db : AuthDb) (token : CStr) : AuthDb × Int :=
  match db.sessions.findIdx? fun s => s.active && s.token = token with
  | none => (db, -1)
  | some i =>
    ({ db with sessions := db.sessions.modify i fun s => { s with active := false } }, 0)

def sessionExpired (now : UInt64) (s : AuthSession) : Bool :=
  s.active && decide (0 < s.expiresAt) && decide (s.expiresAt < now)

def portalAuthCleanupSessions (db : AuthDb) (now : UInt64) : AuthDb × Nat :=
  ({ db with
      sessions := db.sessions.map fun s =>
        if sessionExpired now s then { s with active := false } else s },
    db.sessions.countP (sessionExpired now))

/-- A call, with the time at which it reads the clock and, for a login, the token that
`generate_token` produces if it comes to that. -/
inductive SessionEvent where
  | login (now : UInt64) (token username password : CStr)
  | loginKey (now : UInt64) (token : CStr) (apiKey : CharPtr)
  | logout (token : CStr)
  | cleanup (now : UInt64)
  | resolve (now : UInt64) (token : CharPtr)
deriving DecidableEq

def sessionStep (sha256Hex : Bytes → CStr) (db : AuthDb) : SessionEvent → AuthDb
  | .login now token username password =>
    (portalAuthLogin sha256Hex db now token username password).1
  | .loginKey now token apiKey => (portalAuthLoginKey db now token apiKey).1
  | .logout token => (portalAuthLogout db token).1
  | .cleanup now => (portalAuthCleanupSessions db now).1
  | .resolve now token =>
    { db with sessions := (portalAuthResolveToken db.registry now token).2.sessions }

/-- The token a login issues, the name of the user it is issued to, and the time. -/
structure Issue where
  token : CStr
  username : CStr
  loginTime : UInt64

def issued (sha256Hex : Bytes → CStr) (db : AuthDb) : SessionEvent → Option Issue
  | .login now token username password =>
    (portalAuthLogin sha256Hex db now token username password).2.map fun t => ⟨t, username, now⟩
  | .loginKey now token apiKey =>
    (portalAuthFindByKey db.registry apiKey).bind fun user =>
      (portalAuthLoginKey db now token apiKey).2.map fun t => ⟨t, user.username, now⟩
  | _ => none

def TableFull (db : AuthDb) : Prop := ∀ s ∈ db.sessions, s.active = true

def SessionEvent.time : SessionEvent → Option UInt64
  | .login now _ _ _ => some now
  | .loginKey now _ _ => some now
  | .logout _ => none
  | .cleanup now => some now
  | .resolve now _ => some now

def SessionEvent.token : SessionEvent → Option CStr
  | .login _ token _ _ => some token
  | .loginKey _ token _ => some token
  | _ => none

/-! ### Which tokens are good -/

section History

variable (sha256Hex : Bytes → CStr) (db₀ : AuthDb)

def sessionRun (es : List SessionEvent) : AuthDb := run (sessionStep sha256Hex) db₀ es

/-- A login of the history issued the token to the user of that name, in that slot; it was not
logged out since, its time has not passed, and no login that found all slots active has taken its
slot. -/
def GoodTokenIn (es : List SessionEvent) (now : UInt64) (token username : CStr) (slot : Nat) :
    Prop :=
  ∃ before e after loginTime, es = before ++ e :: after ∧
    issued sha256Hex (sessionRun sha256Hex db₀ before) e = some ⟨token, username, loginTime⟩ ∧
    slot = loginSlot (sessionRun sha256Hex db₀ before).sessions ∧
    .logout token ∉ after ∧
    now.toNat ≤ loginTime.toNat + db₀.sessionTtl.toInt.toNat ∧
    ∀ mid e' rest, after = mid ++ e' :: rest →
      (issued sha256Hex (sessionRun sha256Hex db₀ (before ++ e :: mid)) e').isSome →
      TableFull (sessionRun sha256Hex db₀ (before ++ e :: mid)) →
      loginSlot (sessionRun sha256Hex db₀ (before ++ e :: mid)).sessions ≠ slot

def GoodToken (es : List SessionEvent) (now : UInt64) (token username : CStr) : Prop :=
  ∃ slot, GoodTokenIn sha256Hex db₀ es now token username slot

/-- A history from an empty table: generated tokens are distinct and not empty, sessions have a
lifetime, and no call has read a later time than `now`. -/
structure SessionHistory (es : List SessionEvent) (now : UInt64) : Prop where
  slots : db₀.sessions.length = authMaxSessions
  idle : ∀ s ∈ db₀.sessions, s.active = false
  ttl : 0 < db₀.sessionTtl.toInt
  nonempty : ∀ t ∈ es.filterMap SessionEvent.token, t.bytes ≠ []
  distinct : (es.filterMap SessionEvent.token).Nodup
  clock : ∀ t ∈ es.filterMap SessionEvent.time, t ≤ now
  timeT : now.toNat < 2 ^ 63

variable {sha256Hex db₀} {es : List SessionEvent} {e : SessionEvent} {now : UInt64}
  {token username : CStr} {slot : Nat}

theorem SessionHistory.of_append (h : SessionHistory db₀ (es ++ [e]) now) :
    SessionHistory db₀ es now where
  slots := h.slots
  idle := h.idle
  ttl := h.ttl
  nonempty t ht := h.nonempty t (by rw [filterMap_append]; exact mem_append_left _ ht)
  distinct := by
    have := h.distinct
    rw [filterMap_append] at this
    exact this.of_append_left
  clock t ht := h.clock t (by rw [filterMap_append]; exact mem_append_left _ ht)
  timeT := h.timeT

theorem sessionRun_append :
    sessionRun sha256Hex db₀ (es ++ [e]) = sessionStep sha256Hex (sessionRun sha256Hex db₀ es) e :=
  run_append _ es [e]

theorem goodTokenIn_append :
    GoodTokenIn sha256Hex db₀ (es ++ [e]) now token username slot ↔
      (∃ loginTime, issued sha256Hex (sessionRun sha256Hex db₀ es) e
          = some ⟨token, username, loginTime⟩ ∧
        slot = loginSlot (sessionRun sha256Hex db₀ es).sessions ∧
        now.toNat ≤ loginTime.toNat + db₀.sessionTtl.toInt.toNat) ∨
      GoodTokenIn sha256Hex db₀ es now token username slot ∧ e ≠ .logout token ∧
        ((issued sha256Hex (sessionRun sha256Hex db₀ es) e).isSome →
          TableFull (sessionRun sha256Hex db₀ es) →
          loginSlot (sessionRun sha256Hex db₀ es).sessions ≠ slot) := by
  constructor
  · rintro ⟨before, e₀, after, loginTime, heq, hissued, hslot, hkept, htime, hown⟩
    rcases append_singleton_eq_split.mp heq with ⟨rfl, rfl, rfl⟩ | ⟨after, rfl, rfl⟩
    · exact .inl ⟨loginTime, hissued, hslot, htime⟩
    · simp only [mem_append, mem_singleton, not_or] at hkept
      refine .inr ⟨⟨before, e₀, after, loginTime, rfl, hissued, hslot, hkept.1, htime, ?_⟩,
        Ne.symm hkept.2, hown after e [] rfl⟩
      intro mid e' rest hafter
      exact hown mid e' (rest ++ [e]) (by rw [hafter]; simp)
  rintro (⟨loginTime, hissued, hslot, htime⟩ |
    ⟨⟨before, e₀, after, loginTime, rfl, hissued, hslot, hkept, htime, hown⟩, hlogout, hlast⟩)
  · exact ⟨es, e, [], loginTime, rfl, hissued, hslot, by simp, htime, by simp⟩
  refine ⟨before, e₀, after ++ [e], loginTime, by simp, hissued, hslot, ?_, htime, ?_⟩
  · simp only [mem_append, mem_singleton, not_or]
    exact ⟨hkept, Ne.symm hlogout⟩
  intro mid e' rest hafter
  rcases append_singleton_eq_split.mp hafter with ⟨rfl, rfl, rfl⟩ | ⟨rest, rfl, rfl⟩
  · exact hlast
  · exact hown mid e' rest rfl

end History

/-! ### What the slots hold -/

def sessionView (s : AuthSession) : Option (CStr × (CStr × UInt64)) :=
  if s.active then some (s.token, s.username, s.expiresAt) else none

def held (db : AuthDb) : Nat → Option (CStr × (CStr × UInt64)) := contents sessionView db.sessions

theorem sessionView_eq_some {s : AuthSession} {token username : CStr} {expires : UInt64} :
    sessionView s = some (token, username, expires) ↔
      s.active = true ∧ s.token = token ∧ s.username = username ∧ s.expiresAt = expires := by
  unfold sessionView
  cases s.active <;> simp

section Slots

variable {db : AuthDb}

theorem loginSlot_lt (hlen : 0 < db.sessions.length) :
    loginSlot db.sessions < db.sessions.length := by
  unfold loginSlot
  cases h : db.sessions.findIdx? fun s => !s.active with
  | none => exact hlen
  | some i => exact (findIdx?_eq_some_iff_getElem.mp h).1

theorem held_loginSlot (h : ¬ TableFull db) : held db (loginSlot db.sessions) = none := by
  unfold loginSlot
  cases hfind : db.sessions.findIdx? fun s => !s.active with
  | none =>
    have hall := findIdx?_eq_none_iff.mp hfind
    exact absurd (fun s hs => by simpa using hall s hs) h
  | some i =>
    obtain ⟨hlt, hidle, -⟩ := findIdx?_eq_some_iff_getElem.mp hfind
    have hactive : (db.sessions[i]).active = false := by simpa using hidle
    simp [held, contents, getElem?_eq_getElem hlt, sessionView, hactive]

theorem held_openSession (hlen : 0 < db.sessions.length) (now : UInt64) (token username : CStr) :
    held (openSession db now token username) =
      update (held db) (loginSlot db.sessions)
        (some (token, username.truncate (portalMaxLabelLen - 1),
          now + db.sessionTtl.toInt64.toUInt64)) :=
  contents_set sessionView (loginSlot_lt hlen) _

theorem held_find {token : CStr} {i : Nat}
    (h : (db.sessions.findIdx? fun s => s.active && s.token = token) = some i) :
    ∃ s, db.sessions[i]? = some s ∧ s.active = true ∧
      held db i = some (token, s.username, s.expiresAt) := by
  obtain ⟨hlt, hp, -⟩ := findIdx?_eq_some_iff_getElem.mp h
  have hs : (db.sessions[i]).active = true ∧ (db.sessions[i]).token = token := by simpa using hp
  refine ⟨db.sessions[i], getElem?_eq_getElem hlt, hs.1, ?_⟩
  rw [held, contents, getElem?_eq_getElem hlt, bind_some]
  exact sessionView_eq_some.mpr ⟨hs.1, hs.2, rfl, rfl⟩

theorem not_held_find {token : CStr}
    (h : (db.sessions.findIdx? fun s => s.active && s.token = token) = none) (i : Nat)
    (v : CStr × UInt64) : held db i ≠ some (token, v) := by
  intro hheld
  obtain ⟨s, hs, hview⟩ := bind_eq_some_iff.mp hheld
  obtain ⟨hactive, htoken, -⟩ := sessionView_eq_some.mp hview
  have := findIdx?_eq_none_iff.mp h s (mem_of_getElem? hs)
  simp [hactive, htoken] at this

theorem held_logout (db : AuthDb) (token : CStr) :
    (∃ i v, held db i = some (token, v) ∧
      held (portalAuthLogout db token).1 = update (held db) i none) ∨
    (∀ i v, held db i ≠ some (token, v)) ∧ held (portalAuthLogout db token).1 = held db := by
  unfold portalAuthLogout
  cases h : db.sessions.findIdx? fun s => s.active && s.token = token with
  | none => exact .inr ⟨not_held_find h, rfl⟩
  | some i =>
    obtain ⟨s, -, -, hheld⟩ := held_find h
    exact .inl ⟨i, _, hheld, contents_modify_none sessionView (fun _ => rfl) _ i⟩

theorem held_cleanup (db : AuthDb) (now : UInt64) :
    held (portalAuthCleanupSessions db now).1 = fun i =>
      (held db i).filter fun e => !(decide (0 < e.2.2) && decide (e.2.2 < now)) := by
  funext i
  unfold held portalAuthCleanupSessions
  rw [contents_map, contents]
  cases db.sessions[i]? with
  | none => rfl
  | some s =>
    obtain ⟨token, username, expiresAt, active⟩ := s
    simp only [bind_some, sessionView, sessionExpired]
    cases active with
    | false => rfl
    | true =>
      by_cases hlate : 0 < expiresAt ∧ expiresAt < now
      · simp [hlate.1, hlate.2, Option.filter]
      · have hkeep : (decide (0 < expiresAt) && decide (expiresAt < now)) = false := by
          simpa using hlate
        simp [hkeep, Option.filter]

theorem resolveToken_empty (auth : PortalAuthRegistry) (now : UInt64) {token : CharPtr}
    {tok : CStr} (htok : token.map CStr.ofBytes = some tok) (hempty : tok.bytes = []) :
    portalAuthResolveToken auth now token = (none, auth) := by
  simp [portalAuthResolveToken, htok, hempty]

/-- What resolving a token finds: no slot, an expired one, which it empties, or the user
of the slot's name. -/
theorem resolveToken_cases (db : AuthDb) (now : UInt64) {token : CharPtr} {tok : CStr}
    (htok : token.map CStr.ofBytes = some tok) (hne : tok.bytes ≠ []) :
    (∀ i v, held db i ≠ some (tok, v)) ∧
      portalAuthResolveToken db.registry now token = (none, db.registry) ∨
    ∃ i name expires, held db i = some (tok, name, expires) ∧
      (0 < expires ∧ expires < now ∧ (portalAuthResolveToken db.registry now token).1 = none ∧
        contents sessionView (portalAuthResolveToken db.registry now token).2.sessions
          = update (held db) i none ∨
      ¬ (0 < expires ∧ expires < now) ∧
        portalAuthResolveToken db.registry now token
          = (portalAuthFindUser db.registry name, db.registry)) := by
  have hsessions : db.registry.sessions = db.sessions := rfl
  unfold portalAuthResolveToken
  simp only [htok, hne, if_false, hsessions]
  cases hfind : db.sessions.findIdx? fun s => s.active && s.token = tok with
  | none => exact .inl ⟨not_held_find hfind, rfl⟩
  | some i =>
    obtain ⟨s, hs, -, hheld⟩ := held_find hfind
    simp only [hs]
    refine .inr ⟨i, s.username, s.expiresAt, hheld, ?_⟩
    by_cases hlate : 0 < s.expiresAt ∧ s.expiresAt < now
    · left
      simp only [hlate.1, hlate.2, decide_true, Bool.and_self, if_true, true_and]
      exact contents_modify_none sessionView (fun _ => rfl) _ i
    · right
      have hkeep : (decide (0 < s.expiresAt) && decide (s.expiresAt < now)) = false := by
        simpa using hlate
      simp only [hkeep, Bool.false_eq_true, if_false, and_true]
      exact hlate

end Slots

/-! ### What one call does -/

theorem exists_account {db : AuthDb} {user : AuthUser} (h : user ∈ db.registry.users) :
    user.username.bytes.length < portalMaxLabelLen ∧
      (portalAuthFindUser db.registry user.username).isSome := by
  obtain ⟨account, haccount, rfl⟩ := mem_map.mp h
  refine ⟨account.username_short, ?_⟩
  rw [portalAuthFindUser, find?_isSome]
  exact ⟨account.toAuthUser, h, by simp⟩

theorem mem_users_of_findByKey {auth : PortalAuthRegistry} {apiKey : CharPtr} {user : AuthUser}
    (h : portalAuthFindByKey auth apiKey = some user) : user ∈ auth.users := by
  unfold portalAuthFindByKey at h
  cases hkey : apiKey.map CStr.ofBytes with
  | none =>
    rw [hkey] at h
    cases h
  | some key =>
    simp only [hkey] at h
    split at h
    · cases h
    · exact mem_of_find?_eq_some h

/-- A call opens a session, or issues nothing and is one of the others or a login that
failed. -/
theorem sessionStep_cases (sha256Hex : Bytes → CStr) (db : AuthDb) (e : SessionEvent) :
    (∃ now token username, e.token = some token ∧ e.time = some now ∧
      issued sha256Hex db e = some ⟨token, username, now⟩ ∧
      sessionStep sha256Hex db e = openSession db now token username ∧
      username.bytes.length < portalMaxLabelLen ∧
      (portalAuthFindUser db.registry username).isSome) ∨
    issued sha256Hex db e = none ∧
      ((∀ t, e ≠ .logout t) ∧ sessionStep sha256Hex db e = db ∨ (∃ token, e = .logout token) ∨
        (∃ now, e = .cleanup now) ∨ ∃ now token, e = .resolve now token) := by
  cases e with
  | logout token => exact .inr ⟨rfl, .inr (.inl ⟨token, rfl⟩)⟩
  | cleanup now => exact .inr ⟨rfl, .inr (.inr (.inl ⟨now, rfl⟩))⟩
  | resolve now token => exact .inr ⟨rfl, .inr (.inr (.inr ⟨now, token, rfl⟩))⟩
  | login now token username password =>
    simp only [issued, sessionStep, portalAuthLogin]
    cases hfind : findAccount db username with
    | none => exact .inr ⟨rfl, .inl ⟨by simp, rfl⟩⟩
    | some account =>
      simp only
      split
      · left
        obtain rfl : account.username = username := by simpa using find?_some hfind
        have hmem : account.toAuthUser ∈ db.registry.users :=
          mem_map_of_mem (mem_of_find?_eq_some hfind)
        exact ⟨now, token, account.username, rfl, rfl, rfl, rfl, exists_account hmem⟩
      · exact .inr ⟨rfl, .inl ⟨by simp, rfl⟩⟩
  | loginKey now token apiKey =>
    simp only [issued, sessionStep, portalAuthLoginKey]
    cases hfind : portalAuthFindByKey db.registry apiKey with
    | none => exact .inr ⟨rfl, .inl ⟨by simp, rfl⟩⟩
    | some user =>
      exact .inl ⟨now, token, user.username, rfl, rfl, rfl, rfl,
        exists_account (mem_users_of_findByKey hfind)⟩

/-- No token is held twice, every token held was generated for a user of the registry, and those
whose time has not come by `now` are the good ones. -/
structure SessionInv (sha256Hex : Bytes → CStr) (db₀ : AuthDb) (es : List SessionEvent)
    (now : UInt64) (db : AuthDb) : Prop where
  accounts : db.accounts = db₀.accounts
  ttl : db.sessionTtl = db₀.sessionTtl
  slots : db.sessions.length = authMaxSessions
  once : ∃ m, Represents (held db) m
  generated : ∀ {i t v}, held db i = some (t, v) → t ∈ es.filterMap SessionEvent.token
  known : ∀ {i t name expires}, held db i = some (t, name, expires) →
    (portalAuthFindUser db₀.registry name).isSome ∧ 0 < expires
  live : ∀ i t name, (∃ expires, held db i = some (t, name, expires) ∧ now ≤ expires) ↔
    GoodTokenIn sha256Hex db₀ es now t name i

section Step

variable {sha256Hex : Bytes → CStr} {db₀ db db' : AuthDb} {es : List SessionEvent}
  {e : SessionEvent} {now : UInt64}

theorem sessionInv_init (h : SessionHistory db₀ [] now) : SessionInv sha256Hex db₀ [] now db₀ := by
  have hempty : held db₀ = fun _ => none := by
    funext i
    unfold held contents
    cases hs : db₀.sessions[i]? with
    | none => rfl
    | some s => simp [sessionView, h.idle s (mem_of_getElem? hs)]
  refine ⟨rfl, rfl, h.slots, ⟨_, hempty ▸ represents_empty⟩, ?_, ?_, ?_⟩
  · simp [hempty]
  · simp [hempty]
  · simp [hempty, GoodTokenIn]

/-- Calls that only empty slots: it remains to say which tokens are good. -/
theorem SessionInv.shrink (inv : SessionInv sha256Hex db₀ es now db)
    (haccounts : db'.accounts = db.accounts) (httl : db'.sessionTtl = db.sessionTtl)
    (hslots : db'.sessions.length = db.sessions.length) (hrep : ∃ m, Represents (held db') m)
    (hsub : ∀ {i v}, held db' i = some v → held db i = some v)
    (hlive : ∀ i t name, (∃ expires, held db' i = some (t, name, expires) ∧ now ≤ expires) ↔
      GoodTokenIn sha256Hex db₀ (es ++ [e]) now t name i) :
    SessionInv sha256Hex db₀ (es ++ [e]) now db' where
  accounts := haccounts.trans inv.accounts
  ttl := httl.trans inv.ttl
  slots := hslots.trans inv.slots
  once := hrep
  generated h := by
    rw [filterMap_append]
    exact mem_append_left _ (inv.generated (hsub h))
  known h := inv.known (hsub h)
  live := hlive

/-- A call that issues nothing and logs nobody out leaves the good tokens alone. -/
theorem goodTokenIn_append_idle
    (hissued : issued sha256Hex (sessionRun sha256Hex db₀ es) e = none)
    (hlogout : ∀ t, e ≠ .logout t) (t name : CStr) (i : Nat) :
    GoodTokenIn sha256Hex db₀ (es ++ [e]) now t name i ↔
      GoodTokenIn sha256Hex db₀ es now t name i := by
  rw [goodTokenIn_append]
  simp [hissued, hlogout]

theorem sessionInv_logout {token : CStr}
    (inv : SessionInv sha256Hex db₀ es now db) :
    SessionInv sha256Hex db₀ (es ++ [.logout token]) now
      (portalAuthLogout db token).1 := by
  have hgood : ∀ t name i, GoodTokenIn sha256Hex db₀ (es ++ [.logout token]) now t name i ↔
      GoodTokenIn sha256Hex db₀ es now t name i ∧ t ≠ token := by
    intro t name i
    rw [goodTokenIn_append]
    simp [issued, eq_comm]
  obtain ⟨haccounts, httl, hslots⟩ : (portalAuthLogout db token).1.accounts = db.accounts ∧
      (portalAuthLogout db token).1.sessionTtl = db.sessionTtl ∧
      (portalAuthLogout db token).1.sessions.length = db.sessions.length := by
    unfold portalAuthLogout
    split <;> simp
  obtain ⟨m, hm⟩ := inv.once
  -- a slot that does not hold the token is as good as before
  have hother {j : Nat} {t name : CStr} (hne : ∀ v, held db j ≠ some (token, v)) :
      (∃ expires, held db j = some (t, name, expires) ∧ now ≤ expires) ↔
        (∃ expires, held db j = some (t, name, expires) ∧ now ≤ expires) ∧ t ≠ token := by
    refine (and_iff_left_of_imp ?_).symm
    rintro ⟨expires, hw, -⟩ rfl
    exact hne _ hw
  rcases held_logout db token with ⟨i, v, hheld, heq⟩ | ⟨hnot, heq⟩
  · apply inv.shrink haccounts httl hslots ⟨_, heq ▸ hm.erase hheld⟩
    · intro j w hw
      rw [heq, Represents.update_slot] at hw
      obtain ⟨-, ⟨⟩⟩ | ⟨-, hw⟩ := hw
      exact hw
    · intro j t name
      rw [heq, hgood, ← inv.live]
      by_cases hj : j = i
      · subst hj
        rw [update_self, hheld]
        simp only [reduceCtorEq, false_and, exists_false, some.injEq, Prod.mk.injEq,
          false_iff, not_and, not_not, forall_exists_index]
        rintro expires ⟨⟨rfl, -⟩, -⟩
        rfl
      · rw [update_of_ne hj]
        exact hother fun v hv => hj (hm.unique hv hheld)
  · apply inv.shrink haccounts httl hslots ⟨_, heq ▸ hm⟩
    · intro j w hw
      rwa [heq] at hw
    · intro j t name
      rw [heq, hgood, ← inv.live]
      exact hother (hnot j)

/-- Emptying slots whose time has come changes nothing that is good at `now`. -/
theorem sessionInv_expire (inv : SessionInv sha256Hex db₀ es now db)
    (hissued : issued sha256Hex (sessionRun sha256Hex db₀ es) e = none)
    (hlogout : ∀ t, e ≠ .logout t)
    (haccounts : db'.accounts = db.accounts)
    (httl : db'.sessionTtl = db.sessionTtl)
    (hslots : db'.sessions.length = db.sessions.length)
    (hrep : ∃ m, Represents (held db') m)
    (hdrop : ∀ i, held db' i = held db i ∨
      held db' i = none ∧ ∃ t name expires, held db i = some (t, name, expires) ∧ expires < now) :
    SessionInv sha256Hex db₀ (es ++ [e]) now db' := by
  apply inv.shrink haccounts httl hslots hrep
  · intro i v hv
    rcases hdrop i with heq | ⟨hnone, -⟩
    · rwa [heq] at hv
    · rw [hnone] at hv
      cases hv
  intro i t name
  rw [goodTokenIn_append_idle hissued hlogout, ← inv.live]
  rcases hdrop i with heq | ⟨hnone, t', name', expires', hheld, hlate⟩
  · rw [heq]
  · rw [hnone, hheld]
    constructor
    · rintro ⟨expires, h, -⟩
      cases h
    rintro ⟨expires, h, hle⟩
    obtain ⟨-, -, rfl⟩ := h
    exact absurd hle (UInt64.not_le.mpr hlate)

theorem sessionInv_cleanup {now' : UInt64} (hnow : now' ≤ now)
    (inv : SessionInv sha256Hex db₀ es now db) :
    SessionInv sha256Hex db₀ (es ++ [.cleanup now']) now
      (portalAuthCleanupSessions db now').1 := by
  obtain ⟨m, hm⟩ := inv.once
  have heq := held_cleanup db now'
  have hrep := hm.filter fun _ v => !(decide (0 < v.2) && decide (v.2 < now'))
  refine sessionInv_expire inv rfl (by simp) rfl rfl ?_ ⟨_, heq ▸ hrep⟩ fun i => ?_
  · exact length_map _
  have hi := congrFun heq i
  cases hheld : held db i with
  | none =>
    rw [hheld] at hi
    exact .inl hi
  | some v =>
    rw [hheld] at hi
    rw [hi]
    by_cases hlate : 0 < v.2.2 ∧ v.2.2 < now'
    · refine .inr ⟨?_, v.1, v.2.1, v.2.2, rfl, UInt64.lt_of_lt_of_le hlate.2 hnow⟩
      simp [Option.filter, hlate.1, hlate.2]
    · have hkeep : (decide (0 < v.2.2) && decide (v.2.2 < now')) = false := by
        simpa using hlate
      left
      simp [Option.filter, hkeep]

/-- Resolving a token changes nothing, or empties a slot whose time has come. -/
theorem resolveStep_cases (sha256Hex : Bytes → CStr) (db : AuthDb) (now' : UInt64)
    (token : CharPtr) :
    sessionStep sha256Hex db (.resolve now' token) = db ∨
    ∃ i t name expires, held db i = some (t, name, expires) ∧ expires < now' ∧
      held (sessionStep sha256Hex db (.resolve now' token)) = update (held db) i none := by
  have hsame : (portalAuthResolveToken db.registry now' token).2 = db.registry →
      sessionStep sha256Hex db (.resolve now' token) = db := by
    intro hreg
    rw [sessionStep, hreg]
    rfl
  cases htok : token.map CStr.ofBytes with
  | none =>
    apply Or.inl (hsame _)
    rw [portalAuthResolveToken, htok]
  | some tok =>
    by_cases hne : tok.bytes = []
    · apply Or.inl (hsame _)
      rw [resolveToken_empty _ _ htok hne]
    · rcases resolveToken_cases db now' htok hne with
        ⟨-, heq⟩ | ⟨i, name, expires, hheld, ⟨-, hlate, -, heq⟩ | ⟨-, heq⟩⟩
      · exact .inl (hsame (by rw [heq]))
      · exact .inr ⟨i, tok, name, expires, hheld, hlate, heq⟩
      · exact .inl (hsame (by rw [heq]))

theorem length_resolve (auth : PortalAuthRegistry) (now' : UInt64) (token : CharPtr) :
    (portalAuthResolveToken auth now' token).2.sessions.length = auth.sessions.length := by
  unfold portalAuthResolveToken
  repeat' split
  all_goals simp

theorem sessionInv_resolve {now' : UInt64} (hnow : now' ≤ now) (token : CharPtr)
    (inv : SessionInv sha256Hex db₀ es now db) :
    SessionInv sha256Hex db₀ (es ++ [.resolve now' token]) now
      (sessionStep sha256Hex db (.resolve now' token)) := by
  rcases resolveStep_cases sha256Hex db now' token with
    heq | ⟨i, t, name, expires, hheld, hlate, heq⟩
  · rw [heq]
    exact sessionInv_expire inv rfl (by simp) rfl rfl rfl inv.once fun i => .inl rfl
  · obtain ⟨m, hm⟩ := inv.once
    refine sessionInv_expire inv rfl (by simp) rfl rfl (length_resolve _ _ _)
      ⟨_, heq ▸ hm.erase hheld⟩ fun j => ?_
    rw [heq]
    by_cases hj : j = i
    · subst hj
      rw [update_self]
      exact .inr ⟨rfl, t, name, expires, hheld, UInt64.lt_of_lt_of_le hlate hnow⟩
    · exact .inl (update_of_ne hj _ _)

theorem toNat_expiresAt {loginTime : UInt64} {ttl : Int32} (htime : loginTime.toNat < 2 ^ 63)
    (httl : 0 < ttl.toInt) :
    (loginTime + ttl.toInt64.toUInt64).toNat = loginTime.toNat + ttl.toInt.toNat := by
  have hconv : ttl.toInt64.toUInt64.toNat = ttl.toInt.toNat := by
    have hext : ttl.toInt64.toInt = ttl.toInt := Int32.toInt_toInt64 ttl
    have hpos : 0 ≤ ttl.toInt64.toBitVec.toInt := by
      change 0 ≤ ttl.toInt64.toInt
      omega
    rw [← hext]
    change ttl.toInt64.toBitVec.toNat = ttl.toInt64.toBitVec.toInt.toNat
    rw [BitVec.toInt_eq_toNat_of_msb]
    · rfl
    · rw [BitVec.msb_eq_toInt]
      simpa using hpos
  have hlt := ttl.toInt_lt
  rw [UInt64.toNat_add, hconv, Nat.mod_eq_of_lt]
  omega

/-- What a login adds to the good tokens, and what it takes from them. -/
theorem live_login {now' expires : UInt64} {token username : CStr}
    (hrun : sessionRun sha256Hex db₀ es = db) (inv : SessionInv sha256Hex db₀ es now db)
    (htoken : e.token = some token)
    (hissued : issued sha256Hex db e = some ⟨token, username, now'⟩)
    (hexpires : expires.toNat = now'.toNat + db₀.sessionTtl.toInt.toNat)
    (heq : held db' = update (held db) (loginSlot db.sessions) (some (token, username, expires)))
    (i : Nat) (t name : CStr) :
    (∃ expires, held db' i = some (t, name, expires) ∧ now ≤ expires) ↔
      GoodTokenIn sha256Hex db₀ (es ++ [e]) now t name i := by
  rw [heq, goodTokenIn_append, hrun, hissued]
  have hlogout : e ≠ .logout t := by
    rintro rfl
    cases htoken
  by_cases hi : i = loginSlot db.sessions
  · rw [hi, update_self]
    constructor
    · rintro ⟨expires, h, hle⟩
      obtain ⟨rfl, rfl, rfl⟩ := h
      rw [UInt64.le_iff_toNat_le, hexpires] at hle
      exact .inl ⟨now', rfl, rfl, hle⟩
    rintro (⟨loginTime, h, -, hle⟩ | ⟨hgood, -, hkept⟩)
    · obtain ⟨rfl, rfl, rfl⟩ := Issue.mk.inj (some.inj h)
      refine ⟨_, rfl, ?_⟩
      rwa [UInt64.le_iff_toNat_le, hexpires]
    · -- the slot was free, or it was taken from its token
      exfalso
      apply hkept rfl _ rfl
      by_contra hfull
      obtain ⟨expires, h, -⟩ := (inv.live _ t name).mpr hgood
      rw [held_loginSlot hfull] at h
      cases h
  · rw [update_of_ne hi, inv.live]
    constructor
    · exact fun hgood => .inr ⟨hgood, hlogout, fun _ _ => Ne.symm hi⟩
    · rintro (⟨-, -, hslot, -⟩ | ⟨hgood, -⟩)
      · exact absurd hslot hi
      · exact hgood

/-- A login: a free slot is filled, or slot 0 of a full table changes hands. -/
theorem sessionInv_login {now' : UInt64} {token username : CStr}
    (hist : SessionHistory db₀ (es ++ [e]) now)
    (hrun : sessionRun sha256Hex db₀ es = db) (inv : SessionInv sha256Hex db₀ es now db)
    (htoken : e.token = some token) (htime : e.time = some now')
    (hissued : issued sha256Hex db e = some ⟨token, username, now'⟩)
    (hshort : username.bytes.length < portalMaxLabelLen)
    (hknown : (portalAuthFindUser db₀.registry username).isSome) :
    SessionInv sha256Hex db₀ (es ++ [e]) now (openSession db now' token username) := by
  have hlen : 0 < db.sessions.length := by
    rw [inv.slots]
    decide
  have hnow : now' ≤ now := hist.clock now' (by simp [htime])
  have hexpires := toNat_expiresAt (lt_of_le_of_lt hnow hist.timeT) hist.ttl
  have hnew : token ∉ es.filterMap SessionEvent.token := by
    have := hist.distinct
    rw [filterMap_append, nodup_append] at this
    intro hmem
    exact this.2.2 token hmem token (by simp [htoken]) rfl
  have heq := held_openSession hlen now' token username
  rw [CStr.truncate_eq_self (by omega), inv.ttl] at heq
  obtain ⟨m, hm⟩ := inv.once
  have hm_token : m token = none := hm.eq_none fun i v h => hnew (inv.generated h)
  have hheld : ∀ {i v}, held (openSession db now' token username) i = some v →
      v = (token, username, now' + db₀.sessionTtl.toInt64.toUInt64) ∨ held db i = some v := by
    intro i v hv
    rw [heq, Represents.update_slot] at hv
    rcases hv with ⟨-, hv⟩ | ⟨-, hv⟩
    · exact .inl (some.inj hv).symm
    · exact .inr hv
  refine ⟨inv.accounts, inv.ttl, ?_, ?_, ?_, ?_, live_login hrun inv htoken hissued hexpires heq⟩
  · rw [← inv.slots]
    exact length_set
  · rw [heq]
    cases hslot : held db (loginSlot db.sessions) with
    | none => exact ⟨_, hm.insert hslot hm_token _⟩
    | some v => exact ⟨_, hm.replace hslot (.inr hm_token) _⟩
  · intro i t v hv
    rw [filterMap_append, mem_append]
    rcases hheld hv with h | hold
    · obtain ⟨rfl, -⟩ := Prod.mk.inj h
      exact .inr (by simp [htoken])
    · exact .inl (inv.generated hold)
  intro i t name expires hv
  rcases hheld hv with h | hold
  · simp only [Prod.mk.injEq] at h
    obtain ⟨-, rfl, rfl⟩ := h
    refine ⟨hknown, ?_⟩
    rw [UInt64.lt_iff_toNat_lt, hexpires]
    have := hist.ttl
    change 0 < _
    omega
  · exact inv.known hold

theorem registry_users (inv : SessionInv sha256Hex db₀ es now db) :
    db.registry.users = db₀.registry.users := by
  rw [AuthDb.registry, AuthDb.registry, inv.accounts]

theorem sessionInv_step (hist : SessionHistory db₀ (es ++ [e]) now)
    (inv : SessionInv sha256Hex db₀ es now (sessionRun sha256Hex db₀ es)) :
    SessionInv sha256Hex db₀ (es ++ [e]) now (sessionRun sha256Hex db₀ (es ++ [e])) := by
  have hclock : ∀ {t}, e.time = some t → t ≤ now := fun ht =>
    hist.clock _ (by simp [ht])
  rw [sessionRun_append]
  rcases sessionStep_cases sha256Hex (sessionRun sha256Hex db₀ es) e with
    ⟨now', token, username, htoken, htime, hissued, hstep, hshort, hknown⟩ |
    ⟨hissued, ⟨hlogout, hstep⟩ | ⟨token, rfl⟩ | ⟨now', rfl⟩ | ⟨now', token, rfl⟩⟩
  · rw [hstep]
    rw [portalAuthFindUser, registry_users inv] at hknown
    exact sessionInv_login hist rfl inv htoken htime hissued hshort hknown
  · rw [hstep]
    exact sessionInv_expire inv hissued hlogout rfl rfl rfl inv.once fun i => .inl rfl
  · exact sessionInv_logout inv
  · exact sessionInv_cleanup (hclock rfl) inv
  · exact sessionInv_resolve (hclock rfl) token inv

theorem sessionInv_run (hist : SessionHistory db₀ es now) :
    SessionInv sha256Hex db₀ es now (sessionRun sha256Hex db₀ es) := by
  induction es using reverseRecOn with
  | nil => exact sessionInv_init hist
  | append_singleton es e ih => exact sessionInv_step hist (ih hist.of_append)

/-- A slot that holds a token that is good holds it under the name it was issued to. -/
theorem SessionInv.held_of_good (inv : SessionInv sha256Hex db₀ es now db) {i : Nat}
    {token name username : CStr} {expires : UInt64}
    (hheld : held db i = some (token, name, expires))
    (hgood : GoodToken sha256Hex db₀ es now token username) : name = username ∧ now ≤ expires := by
  obtain ⟨m, hm⟩ := inv.once
  obtain ⟨j, hj⟩ := hgood
  obtain ⟨expires', hheld', hle⟩ := (inv.live j token username).mpr hj
  obtain rfl := hm.unique hheld hheld'
  rw [hheld] at hheld'
  simp only [some.injEq, Prod.mk.injEq, true_and] at hheld'
  exact ⟨hheld'.1, hheld'.2 ▸ hle⟩

end Step

/-- A token resolves to a user exactly when a login issued it to the user of that name and, since
then, it was not logged out, its time has not passed, and no login that found the table full has
taken its slot. -/
theorem resolveToken_iff (sha256Hex : Bytes → CStr) (db₀ : AuthDb) (es : List SessionEvent)
    (now : UInt64) (hist : SessionHistory db₀ es now) (token : CStr) (user : AuthUser) :
    (portalAuthResolveToken (sessionRun sha256Hex db₀ es).registry now (some token.bytes)).1
        = some user ↔
      portalAuthFindUser db₀.registry user.username = some user ∧
        GoodToken sha256Hex db₀ es now token user.username := by
  have inv : SessionInv sha256Hex db₀ es now (sessionRun sha256Hex db₀ es) := sessionInv_run hist
  have htok : (some token.bytes : CharPtr).map CStr.ofBytes = some token := by
    rw [map_some, CStr.ofBytes_bytes]
  have hslot : GoodToken sha256Hex db₀ es now token user.username →
      ∃ i v, held (sessionRun sha256Hex db₀ es) i = some (token, v) := by
    rintro ⟨i, hi⟩
    obtain ⟨expires, hheld, -⟩ := (inv.live i token user.username).mpr hi
    exact ⟨i, _, hheld⟩
  by_cases hne : token.bytes = []
  · -- no login issues an empty token
    rw [resolveToken_empty _ _ htok hne]
    simp only [reduceCtorEq, false_iff, not_and]
    rintro - hgood
    obtain ⟨i, v, hheld⟩ := hslot hgood
    exact hist.nonempty token (inv.generated hheld) hne
  · rcases resolveToken_cases (sessionRun sha256Hex db₀ es) now htok hne with
      ⟨hnot, heq⟩ | ⟨i, name, expires, hheld, ⟨-, hlate, hnone, -⟩ | ⟨hkept, heq⟩⟩
    · rw [heq]
      simp only [reduceCtorEq, false_iff, not_and]
      rintro - hgood
      obtain ⟨i, v, hheld⟩ := hslot hgood
      exact hnot i v hheld
    · rw [hnone]
      simp only [reduceCtorEq, false_iff, not_and]
      rintro - hgood
      exact absurd (inv.held_of_good hheld hgood).2 (UInt64.not_le.mpr hlate)
    · obtain ⟨-, hpos⟩ := inv.known hheld
      have hle : now ≤ expires := UInt64.not_lt.mp fun hlt => hkept ⟨hpos, hlt⟩
      rw [heq, portalAuthFindUser, portalAuthFindUser, registry_users inv]
      constructor
      · intro hfind
        obtain rfl : user.username = name := by simpa using find?_some hfind
        exact ⟨hfind, i, (inv.live i token user.username).mp ⟨expires, hheld, hle⟩⟩
      · rintro ⟨hfind, hgood⟩
        rw [(inv.held_of_good hheld hgood).1]
        exact hfind

/-- A registry with the users `root` and `ann`, whose passwords are `pw` and `pw2`. -/
def rootDb : AuthDb where
  accounts := [⟨⟨.lit "root", .lit "", .empty⟩, .lit "pw", by decide, by decide, by decide⟩,
    ⟨⟨.lit "ann", .lit "", .empty⟩, .lit "pw2", by decide, by decide, by decide⟩]
  sessions := List.replicate authMaxSessions ⟨.lit "", .lit "", 0, false⟩
  sessionTtl := 3600

def bothLogins : List SessionEvent :=
  [.login 100 (.lit "t") (.lit "root") (.lit "pw"), .login 200 (.lit "u") (.lit "ann") (.lit "pw2")]

/-- `root` logs in at 100 and `ann` at 200, and their tokens are good until 3700 and 3800. -/
theorem resolveToken_rootDb :
    GoodToken (fun _ => .lit "") rootDb bothLogins 3700 (.lit "t") (.lit "root") ∧
      ¬ GoodToken (fun _ => .lit "") rootDb bothLogins 3701 (.lit "t") (.lit "root") ∧
      GoodToken (fun _ => .lit "") rootDb bothLogins 3701 (.lit "u") (.lit "ann") := by
  have hist : ∀ now : UInt64, 200 ≤ now → now.toNat < 2 ^ 63 →
      SessionHistory rootDb bothLogins now := by
    intro now hlow hhigh
    refine ⟨length_replicate, ?_, by decide, by decide, by decide, ?_, hhigh⟩
    · intro s hs
      rw [eq_of_mem_replicate hs]
    · intro t ht
      obtain rfl | rfl : t = 100 ∨ t = 200 := by simpa [bothLogins, SessionEvent.time] using ht
      · exact UInt64.le_trans (by decide) hlow
      · exact hlow
  have hgood := resolveToken_iff (fun _ => .lit "") rootDb bothLogins 3700
    (hist 3700 (by decide) (by decide)) (.lit "t") ⟨.lit "root", .lit "", .empty⟩
  have hlater := resolveToken_iff (fun _ => .lit "") rootDb bothLogins 3701
    (hist 3701 (by decide) (by decide))
  refine ⟨(hgood.mp (by decide +kernel)).2, fun h => ?_,
    ((hlater (.lit "u") ⟨.lit "ann", .lit "", .empty⟩).mp (by decide +kernel)).2⟩
  have hresolved := (hlater (.lit "t") ⟨.lit "root", .lit "", .empty⟩).mpr ⟨by decide, h⟩
  revert hresolved
  decide +kernel

end Portal
