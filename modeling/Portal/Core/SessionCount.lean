import Portal.Core.Session

/-!
The session counter of `src/core/core_auth.c`, and a full session table. `session_count` and the
`created_at` fields are read by none of the calls of `Portal.Core.Session`, so they are added here
to the registry that these work on.
-/

namespace Portal

open List Runs Slots Option

/-! ### The counter -/

/-- `oldest` says that every login that found all slots active replaced a session with the smallest
creation time. -/
structure SessionTable where
  db : AuthDb
  createdAt : List UInt64
  sessionCount : Int
  oldest : Bool

/-- The branch of `portal_auth_resolve_token` that closes the session. -/
def resolveExpires (db : AuthDb) (now : UInt64) (token : CharPtr) : Bool :=
  match token.map CStr.ofBytes with
  | none => false
  | some tok =>
    tok.bytes ≠ [] &&
      (((db.sessions.findIdx? fun s => s.active && s.token = tok).bind fun i =>
        db.sessions[i]?).any fun s => 0 < s.expiresAt && s.expiresAt < now)

/-- How often a call decrements `session_count`. -/
def released (db : AuthDb) : SessionEvent → Nat
  | .login _ _ _ _ => 0
  | .loginKey _ _ _ => 0
  | .logout token => if (portalAuthLogout db token).2 = 0 then 1 else 0
  | .cleanup now => (portalAuthCleanupSessions db now).2
  | .resolve now token => if resolveExpires db now token then 1 else 0

def activeSessions (db : AuthDb) : Nat := db.sessions.countP AuthSession.active

def oldestIn (createdAt : List UInt64) (slot : Nat) : Bool :=
  createdAt.all fun t => createdAt.getD slot 0 ≤ t

instance (db : AuthDb) : Decidable (TableFull db) :=
  inferInstanceAs (Decidable (∀ s ∈ db.sessions, s.active = true))

def tableStep (sha256Hex : Bytes → CStr) (t : SessionTable) (e : SessionEvent) : SessionTable :=
  let slot := loginSlot t.db.sessions
  let left := t.sessionCount - released t.db e
  match issued sha256Hex t.db e with
  | none => { t with db := sessionStep sha256Hex t.db e, sessionCount := left }
  | some i =>
    { db := sessionStep sha256Hex t.db e
      createdAt := t.createdAt.set slot i.loginTime
      sessionCount := left + 1
      oldest := t.oldest && (!decide (TableFull t.db) || oldestIn t.createdAt slot) }

def freshTable (accounts : List AuthAccount) (sessionTtl : Int32) : SessionTable where
  db := ⟨accounts, List.replicate authMaxSessions ⟨.lit "", .lit "", 0, false⟩, sessionTtl⟩
  createdAt := List.replicate authMaxSessions 0
  sessionCount := 0
  oldest := true

structure SessionTable.Lawful (t : SessionTable) : Prop where
  count : t.sessionCount = activeSessions t.db
  evicted : t.oldest = true

/-- The call is not a login that succeeds with all slots active. -/
def FindsRoom (sha256Hex : Bytes → CStr) (t : SessionTable) (e : SessionEvent) : Prop :=
  ¬ ((issued sha256Hex t.db e).isSome ∧ TableFull t.db)

section Step

variable {sha256Hex : Bytes → CStr} {db : AuthDb} {t : SessionTable} {e : SessionEvent}

theorem active_openSession (hroom : ¬ TableFull db) (now : UInt64) (token username : CStr) :
    activeSessions (openSession db now token username) = activeSessions db + 1 := by
  cases hfind : db.sessions.findIdx? fun s => !s.active with
  | none =>
    have hall := findIdx?_eq_none_iff.mp hfind
    exact absurd (fun s hs => by simpa using hall s hs) hroom
  | some i =>
    obtain ⟨hlt, hidle, -⟩ := findIdx?_eq_some_iff_getElem.mp hfind
    have hslot : loginSlot db.sessions = i := by rw [loginSlot, hfind, getD_some]
    rw [activeSessions, openSession, hslot]
    exact countP_set_on (getElem?_eq_getElem hlt) (by simpa using hidle) rfl

theorem length_sessionStep (sha256Hex : Bytes → CStr) (db : AuthDb) (e : SessionEvent) :
    (sessionStep sha256Hex db e).sessions.length = db.sessions.length := by
  rcases sessionStep_cases sha256Hex db e with
    ⟨now, token, username, -, -, -, heq, -⟩ |
    ⟨-, ⟨-, heq⟩ | ⟨token, rfl⟩ | ⟨now, rfl⟩ | ⟨now, token, rfl⟩⟩
  · rw [heq]
    exact length_set
  · rw [heq]
  · simp only [sessionStep, portalAuthLogout]
    split
    · rfl
    · exact length_modify ..
  · exact length_map _
  · exact length_resolve db.registry now token

theorem active_logout (db : AuthDb) (token : CStr) :
    activeSessions (portalAuthLogout db token).1 + released db (.logout token)
      = activeSessions db := by
  rw [released, portalAuthLogout]
  cases hfind : db.sessions.findIdx? fun s => s.active && s.token = token with
  | none => simp
  | some i =>
    obtain ⟨hlt, hmatch, -⟩ := findIdx?_eq_some_iff_getElem.mp hfind
    have hactive : db.sessions[i].active = true := (Bool.and_eq_true_iff.mp hmatch).1
    exact countP_modify_off (fun _ => rfl) (getElem?_eq_getElem hlt) hactive

theorem active_cleanup (db : AuthDb) (now : UInt64) :
    activeSessions (portalAuthCleanupSessions db now).1 + released db (.cleanup now)
      = activeSessions db := by
  refine countP_map_off (fun _ => rfl) ?_ db.sessions
  intro s hs
  rw [sessionExpired, Bool.and_assoc, Bool.and_eq_true_iff] at hs
  exact hs.1

theorem active_resolve (sha256Hex : Bytes → CStr) (db : AuthDb) (now : UInt64) (token : CharPtr) :
    activeSessions (sessionStep sha256Hex db (.resolve now token))
      + released db (.resolve now token) = activeSessions db := by
  have hsessions : db.registry.sessions = db.sessions := rfl
  cases htok : token.map CStr.ofBytes with
  | none =>
    simp [released, resolveExpires, sessionStep, portalAuthResolveToken, activeSessions, htok,
      hsessions]
  | some tok =>
    by_cases hempty : tok.bytes = []
    · simp [released, resolveExpires, sessionStep, portalAuthResolveToken, activeSessions, htok,
        hsessions, hempty]
    cases hfind : db.sessions.findIdx? fun s => s.active && s.token = tok with
    | none =>
      simp [released, resolveExpires, sessionStep, portalAuthResolveToken, activeSessions, htok,
        hsessions, hempty, hfind]
    | some i =>
      obtain ⟨hlt, hmatch, -⟩ := findIdx?_eq_some_iff_getElem.mp hfind
      have hget := getElem?_eq_getElem hlt
      have hactive : db.sessions[i].active = true := (Bool.and_eq_true_iff.mp hmatch).1
      simp only [released, resolveExpires, sessionStep, portalAuthResolveToken, activeSessions,
        htok, hsessions, hempty, hfind, hget, if_false, bind_some, Option.any_some]
      by_cases hlate : (0 < db.sessions[i].expiresAt && db.sessions[i].expiresAt < now) = true
      · have hoff := countP_modify_off (p := AuthSession.active)
          (f := fun s => { s with active := false }) (fun _ => rfl) hget hactive
        simpa [hlate, hempty] using hoff
      · simp [hlate, hsessions]

theorem active_login {token : CStr} (htoken : e.token = some token)
    (hroom : FindsRoom sha256Hex t e) :
    activeSessions (sessionStep sha256Hex t.db e)
      = activeSessions t.db + if (issued sha256Hex t.db e).isSome then 1 else 0 := by
  rcases sessionStep_cases sha256Hex t.db e with
    ⟨now, token', username, -, -, hissued, heq, -⟩ |
    ⟨hissued, ⟨-, heq⟩ | ⟨token', rfl⟩ | ⟨now, rfl⟩ | ⟨now, token', rfl⟩⟩
  · have hnot : ¬ TableFull t.db := fun hfull => hroom ⟨by rw [hissued]; rfl, hfull⟩
    rw [heq, hissued, active_openSession hnot]
    rfl
  · rw [heq, hissued]
    rfl
  · cases htoken
  · cases htoken
  · cases htoken

/-- What a call that finds room does to the number of active sessions. -/
theorem active_sessionStep (hroom : FindsRoom sha256Hex t e) :
    activeSessions (sessionStep sha256Hex t.db e) + released t.db e
      = activeSessions t.db + if (issued sha256Hex t.db e).isSome then 1 else 0 := by
  cases e with
  | login now token username password | loginKey now token apiKey => exact active_login rfl hroom
  | logout token => exact active_logout t.db token
  | cleanup now => exact active_cleanup t.db now
  | resolve now token => exact active_resolve sha256Hex t.db now token

structure SessionTable.Counts (t : SessionTable) : Prop extends t.Lawful where
  slots : t.db.sessions.length = authMaxSessions

theorem SessionTable.Counts.step (h : t.Counts) (hroom : FindsRoom sha256Hex t e) :
    (tableStep sha256Hex t e).Counts := by
  have hactive := active_sessionStep hroom
  have hslots := (length_sessionStep sha256Hex t.db e).trans h.slots
  have hcount := h.count
  unfold tableStep
  cases hissued : issued sha256Hex t.db e with
  | none =>
    rw [hissued] at hactive
    simp only [isSome_none, Bool.false_eq_true, if_false] at hactive
    exact ⟨⟨by simp only; omega, h.evicted⟩, hslots⟩
  | some i =>
    rw [hissued] at hactive
    simp only [isSome_some, if_true] at hactive
    have hnot : ¬ TableFull t.db := fun hfull => hroom ⟨by rw [hissued]; rfl, hfull⟩
    refine ⟨⟨by simp only; omega, ?_⟩, hslots⟩
    simp [h.evicted, hnot]

/-- A login into a full table counts one session too many. -/
theorem SessionTable.Counts.findsRoom (h : t.Counts)
    (hlaw : (tableStep sha256Hex t e).Lawful) : FindsRoom sha256Hex t e := by
  rintro ⟨hissued, hfull⟩
  obtain ⟨i, hi⟩ := isSome_iff_exists.mp hissued
  have hcount := hlaw.count
  have hbefore : activeSessions t.db = authMaxSessions := by
    rw [← h.slots]
    exact countP_eq_length.mpr hfull
  have hafter : activeSessions (sessionStep sha256Hex t.db e) ≤ authMaxSessions := by
    rw [← h.slots, ← length_sessionStep sha256Hex t.db e]
    exact countP_le_length
  have hreleased : released t.db e = 0 := by
    cases e with
    | login | loginKey => rfl
    | logout | cleanup | resolve => cases hi
  have hold := h.count
  simp only [tableStep, hi, hreleased] at hcount
  omega

end Step

theorem counts_freshTable (accounts : List AuthAccount) (sessionTtl : Int32) :
    (freshTable accounts sessionTtl).Counts := by
  refine ⟨⟨?_, rfl⟩, length_replicate⟩
  rw [activeSessions, freshTable, countP_replicate]
  rfl

/-- After every call `session_count` is the number of active sessions and logins into a full table
have replaced the oldest session, exactly when there is no login into a full table. -/
theorem session_count_iff (sha256Hex : Bytes → CStr) (accounts : List AuthAccount)
    (sessionTtl : Int32) (es : List SessionEvent) :
    (∀ done, done <+: es →
      (run (tableStep sha256Hex) (freshTable accounts sessionTtl) done).Lawful) ↔
      Along (tableStep sha256Hex) (FindsRoom sha256Hex) (freshTable accounts sessionTtl) es := by
  have hrun : Along (tableStep sha256Hex) (fun _ _ => True) (freshTable accounts sessionTtl) es :=
    along_of_forall (fun _ _ _ => trivial) _
  exact along_iff_forall (fun _ h => h.toLawful) (fun _ _ h _ hroom => h.step hroom)
    (fun _ _ h _ hlaw => h.findsRoom hlaw) (counts_freshTable accounts sessionTtl) hrun

def loginToken (n : Nat) : CStr := .ofBytes [UInt8.ofNat (n % 255 + 1), UInt8.ofNat (n / 255 + 1)]

def rootLogin (n : Nat) : SessionEvent :=
  .login (UInt64.ofNat n) (loginToken n) (.lit "root") (.lit "pw")

/-- The last login replaces the session of the login before it, and `session_count` is 257
with 256 active sessions. -/
theorem session_count_false :
    let t := run (tableStep fun _ => .lit "") (freshTable rootDb.accounts 3600)
      ((List.range authMaxSessions).map rootLogin ++
        [.logout (loginToken 0), rootLogin 300, rootLogin 301])
    t.oldest = false ∧ t.sessionCount = 257 ∧ activeSessions t.db = 256 := by
  decide +kernel

end Portal
