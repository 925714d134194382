import Portal.Core.UserFiles

/-!
The user table of `src/core/core_auth.c` as a map, over sequences of `portal_auth_add_user`. For
each name the last password and label set given that were not empty are kept next to the table. It
holds the same as long as names and passwords fit and no known name is added to a full table: the
capacity is checked first.
-/

namespace Portal

open List Runs Option Function

/-! ### Calls, and what they give -/

/-- The arguments of `portal_auth_add_user`; no labels stand for a NULL pointer too. -/
structure AddCall where
  name : CStr
  password : CStr
  labels : PortalLabels

structure UserValue where
  password : CStr
  labels : PortalLabels
deriving DecidableEq

def AuthAccount.value (u : AuthAccount) : UserValue := ⟨u.password, u.labels⟩

def AddCall.give (c : AddCall) (v : Option UserValue) : UserValue where
  password := if c.password.bytes = [] then (v.map UserValue.password).getD c.password
    else c.password
  labels := if c.labels.count = 0 then (v.map UserValue.labels).getD c.labels else c.labels

/-- The table, what the successful calls gave to each name, and whether a call for a name
that had been given something failed. -/
structure UserMap where
  db : AuthDb
  given : CStr → Option UserValue
  refused : Bool

def addStep (m : UserMap) (c : AddCall) : UserMap :=
  let r := portalAuthAddUser m.db c.name c.password c.labels
  if r.2 = 0 then
    { m with db := r.1, given := Function.update m.given c.name (some (c.give (m.given c.name))) }
  else { m with db := r.1, refused := m.refused || (m.given c.name).isSome }

def UserMap.empty : UserMap := ⟨zeroedAuth, fun _ => none, false⟩

/-- Names are distinct, every name that was added is found with what it was given, and no
call for a known name was refused. -/
structure UserMap.Lawful (m : UserMap) : Prop where
  distinct : (m.db.accounts.map fun u => u.username).Nodup
  found : ∀ name v, m.given name = some v →
    ∃ u, findAccount m.db name = some u ∧ u.value = v
  known : m.refused = false

/-- With room in the table, the name has at most 63 bytes and the password at most 255;
without, the name is new. -/
def Storable (m : UserMap) (c : AddCall) : Prop :=
  if m.db.accounts.length < authMaxUsers then
    c.name.bytes.length ≤ 63 ∧ c.password.bytes.length ≤ 255
  else findAccount m.db c.name = none

section Step

variable {m : UserMap} {c : AddCall}

structure UserMap.Tracks (m : UserMap) : Prop where
  distinct : (m.db.accounts.map fun u => u.username).Nodup
  found : ∀ name, (findAccount m.db name).map AuthAccount.value = m.given name
  known : m.refused = false

theorem UserMap.Tracks.lawful (h : m.Tracks) : m.Lawful where
  distinct := h.distinct
  found name v hv := by
    rw [← h.found, map_eq_some_iff] at hv
    exact hv
  known := h.known

theorem addUser_full (h : ¬ m.db.accounts.length < authMaxUsers) :
    portalAuthAddUser m.db c.name c.password c.labels = (m.db, -1) :=
  if_pos (not_lt.mp h)

theorem addStep_room (h : m.db.accounts.length < authMaxUsers) :
    addStep m c =
      { m with
        db := (portalAuthAddUser m.db c.name c.password c.labels).1
        given := update m.given c.name (some (c.give (m.given c.name))) } :=
  if_pos (addUser_rc h _ _)

theorem addStep_full (h : ¬ m.db.accounts.length < authMaxUsers) :
    addStep m c = { m with refused := m.refused || (m.given c.name).isSome } := by
  rw [addStep, addUser_full h]
  rfl

theorem value_addedUser (hpassword : c.password.bytes.length ≤ 255) (u : Option AuthAccount) :
    (addedUser c.name c.password c.labels u).value = c.give (u.map AuthAccount.value) := by
  have hcut : c.password.truncate 255 = c.password := CStr.truncate_eq_self hpassword
  cases u with
  | none =>
    simp [addedUser, AuthAccount.value, newAccount, hcut, AddCall.give]
  | some u =>
    simp [addedUser, AuthAccount.value, password_merge, labels_merge, hcut, AddCall.give]

theorem usernames_modifyUser {f : AuthAccount → AuthAccount}
    (hf : ∀ u, (f u).username = u.username) (db : AuthDb) (name : CStr) :
    db.accounts.map (fun u => u.username)
      = (db.modifyUser name f).accounts.map fun u => u.username := by
  rw [← forall₂_eq_eq_eq, forall₂_map_left_iff, forall₂_map_right_iff]
  exact forall₂_modifyUser (fun _ => rfl) fun u _ => (hf u).symm

theorem distinct_addUser (hdistinct : (m.db.accounts.map fun u => u.username).Nodup)
    (hname : c.name.bytes.length ≤ 63) :
    ((portalAuthAddUser m.db c.name c.password c.labels).1.accounts.map
      fun u => u.username).Nodup := by
  unfold portalAuthAddUser
  split
  · exact hdistinct
  cases hfind : findAccount m.db c.name with
  | some u =>
    rw [usernames_modifyUser (username_merge c.password c.labels) m.db c.name] at hdistinct
    exact hdistinct
  | none =>
    have hnew : c.name ∉ m.db.accounts.map fun u => u.username := by
      intro hmem
      obtain ⟨u, hu, heq⟩ := mem_map.mp hmem
      exact (find?_eq_none.mp hfind u hu) (by simpa using heq)
    have hstored := username_newAccount (Nat.lt_succ_of_le hname) c.password c.labels
    simp only [map_append, map_singleton, hstored]
    exact nodup_append.mpr ⟨hdistinct, nodup_singleton _, by
      intro x hx y hy
      obtain rfl := mem_singleton.mp hy
      exact fun heq => hnew (heq ▸ hx)⟩

theorem UserMap.Tracks.step (h : m.Tracks) (hc : Storable m c) : (addStep m c).Tracks := by
  unfold Storable at hc
  by_cases hroom : m.db.accounts.length < authMaxUsers
  · rw [if_pos hroom] at hc
    obtain ⟨hname, hpassword⟩ := hc
    rw [addStep_room hroom]
    refine ⟨distinct_addUser h.distinct hname, ?_, h.known⟩
    intro name
    simp only [findAccount_addUser hroom (Nat.lt_succ_of_le hname)]
    by_cases heq : name = c.name
    · rw [if_pos heq, heq, update_self, map_some, value_addedUser hpassword, h.found]
    · rw [if_neg heq, update_of_ne heq, h.found]
  · rw [if_neg hroom] at hc
    have hnew : m.given c.name = none := by rw [← h.found, hc, map_none]
    rw [addStep_full hroom, hnew, isSome_none, Bool.or_false]
    exact h

/-- After a call that is not storable, the table is not the map. -/
theorem UserMap.Tracks.storable (h : m.Tracks) (hlaw : (addStep m c).Lawful) : Storable m c := by
  unfold Storable
  by_cases hroom : m.db.accounts.length < authMaxUsers
  · rw [if_pos hroom]
    rw [addStep_room hroom] at hlaw
    obtain ⟨u, hfind, hvalue⟩ := hlaw.found c.name _ (update_self ..)
    have hname : u.username = c.name := by simpa using find?_some hfind
    refine ⟨hname ▸ Nat.le_of_lt_succ u.username_short, ?_⟩
    by_cases hempty : c.password.bytes = []
    · rw [hempty]
      exact Nat.zero_le _
    · have hpassword : u.password = c.password := by
        have := congrArg UserValue.password hvalue
        rwa [AddCall.give, if_neg hempty] at this
      exact hpassword ▸ Nat.le_of_lt_succ u.password_short
  · rw [if_neg hroom]
    rw [addStep_full hroom] at hlaw
    have hnew : m.given c.name = none := by
      have hrefused : (m.refused || (m.given c.name).isSome) = false := hlaw.known
      rw [Bool.or_eq_false_iff, Option.isSome_eq_false_iff] at hrefused
      exact Option.isNone_iff_eq_none.mp hrefused.2
    rw [← h.found] at hnew
    exact Option.map_eq_none_iff.mp hnew

end Step

theorem tracks_empty_map : UserMap.empty.Tracks :=
  ⟨nodup_nil, fun _ => rfl, rfl⟩

/-- The user table is a map after every call of a sequence exactly when every call of the
sequence is storable. -/
theorem user_map_iff (calls : List AddCall) :
    (∀ done, done <+: calls → (run addStep .empty done).Lawful) ↔
      Along addStep Storable .empty calls := by
  have hrun : Along addStep (fun _ _ => True) .empty calls :=
    along_of_forall (fun _ _ _ => trivial) _
  exact along_iff_forall (fun _ h => h.lawful) (fun _ _ h _ hc => h.step hc)
    (fun _ _ h _ hlaw => h.storable hlaw) tracks_empty_map hrun

def addPlain (name : CStr) : AddCall := ⟨name, .lit "pw", .empty⟩

def byteNames : List CStr := (List.range authMaxUsers).map fun i => .ofBytes [UInt8.ofNat (i + 1)]

def longNameCall : AddCall := addPlain (.ofBytes (List.replicate 64 97))

/-- The long name is added and not found, and adding it again makes a second entry; in the
full table a new password for a known name is refused. -/
theorem user_map_false :
    (findAccount (run addStep .empty [longNameCall]).db longNameCall.name = none ∧
      (run addStep .empty [longNameCall]).given longNameCall.name = some ⟨.lit "pw", .empty⟩) ∧
    ¬ ((run addStep .empty [longNameCall, longNameCall]).db.accounts.map
      fun u => u.username).Nodup ∧
    (run addStep .empty (byteNames.map addPlain ++
      [⟨.ofBytes [1], .lit "new", .empty⟩])).refused = true := by
  exact ⟨⟨by decide +kernel, by decide +kernel⟩, by decide +kernel, by decide +kernel⟩

end Portal
