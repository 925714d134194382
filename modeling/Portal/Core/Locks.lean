import Portal.Core.CString
import Portal.Lib.Runs
import Portal.Lib.Slots

/-!
Exclusive resource locks: `api_resource_lock`, `api_resource_unlock`, `api_resource_keepalive` and
`lock_cleanup` of `src/core/portal_instance.c`. `find_lock` takes `lock_count`, the number of
active entries, for the end of the table, although entries do not move when a lower one is
released.
-/

namespace Portal

open List Runs Slots Option

def lockMax : Nat := 64

def lockTimeoutSec : Int := 60

structure ResourceLock where
  resource : CStr
  owner : CStr
  lockedAt : Int
  lastKeepalive : Int
  active : Bool
deriving DecidableEq

/-- The fields `locks` and `lock_count` of `portal_instance_t`. -/
structure LockTable where
  locks : List ResourceLock
  lockCount : Int

def lockTableInit : LockTable := ⟨List.replicate lockMax ⟨.lit "", .lit "", 0, 0, false⟩, 0⟩

def findLock (t : LockTable) (resource : CStr) : Option (Nat × ResourceLock) :=
  ((t.locks.take t.lockCount.toNat).findIdx? fun lk => lk.active && lk.resource = resource).bind
    fun i => t.locks[i]?.map fun lk => (i, lk)

def apiResourceLock (now : Int) (t : LockTable) (resource owner : CStr) : LockTable × Int :=
  if (findLock t resource).isSome then (t, -1)  -- already locked
  else if (lockMax : Int) ≤ t.lockCount then (t, -1)
  else
    match t.locks.findIdx? fun lk => !lk.active with
    | none => (t, -1)
    | some i =>
      ({ locks := t.locks.set i
          { resource := resource.truncate 1023
            owner := owner.truncate 127
            lockedAt := now
            lastKeepalive := now
            active := true }
         lockCount := t.lockCount + 1 }, 0)

def apiResourceUnlock (t : LockTable) (resource owner : CStr) : LockTable × Int :=
  match findLock t resource with
  | none => (t, -1)                           -- not locked
  | some (i, lk) =>
    if lk.owner ≠ owner then (t, -2)        -- not your lock
    else ({ locks := t.locks.set i { lk with active := false }, lockCount := t.lockCount - 1 }, 0)

def apiResourceKeepalive (now : Int) (t : LockTable) (resource owner : CStr) : LockTable × Int :=
  match findLock t resource with
  | none => (t, -1)
  | some (i, lk) =>
    if lk.owner ≠ owner then (t, -1)
    else ({ t with locks := t.locks.set i { lk with lastKeepalive := now } }, 0)

def lockExpired (now : Int) (lk : ResourceLock) : Bool :=
  lk.active && decide (lockTimeoutSec < now - lk.lastKeepalive)

def lockCleanup (now : Int) (t : LockTable) : LockTable where
  locks := t.locks.map fun lk => if lockExpired now lk then { lk with active := false } else lk
  lockCount := t.lockCount - (t.locks.countP (lockExpired now) : Nat)

/-! ### Runs and holders -/

inductive LockEvent where
  | lock (now : Int) (resource owner : CStr)
  | unlock (resource owner : CStr)
  | keepalive (now : Int) (resource owner : CStr)
  | cleanup (now : Int)

def lockCall (t : LockTable) : LockEvent → LockTable × Int
  | .lock now resource owner => apiResourceLock now t resource owner
  | .unlock resource owner => apiResourceUnlock t resource owner
  | .keepalive now resource owner => apiResourceKeepalive now t resource owner
  | .cleanup now => (lockCleanup now t, 0)

/-- Who holds each resource, and since when without a sign of life. -/
abbrev Holders := CStr → Option (CStr × Int)

/-- What a call means for the holders: a granted lock makes one, a granted unlock by the holder
ends the hold, a keepalive by the holder is a sign of life whatever it returns, and at a cleanup
the holds without one expire. -/
def holdersStep (rc : Int) (h : Holders) : LockEvent → Holders
  | .lock now resource owner =>
    if rc = 0 then Function.update h resource (some (owner, now)) else h
  | .unlock resource owner =>
    if rc = 0 ∧ (h resource).map Prod.fst = some owner then Function.update h resource none else h
  | .keepalive now resource owner =>
    if (h resource).map Prod.fst = some owner then
      Function.update h resource (some (owner, now)) else h
  | .cleanup now => fun resource =>
    (h resource).filter fun hold => decide (now - hold.2 ≤ lockTimeoutSec)

structure LockWorld where
  table : LockTable
  holders : Holders

def lockWorldInit : LockWorld := ⟨lockTableInit, fun _ => none⟩

def lockStep (w : LockWorld) (e : LockEvent) : LockWorld :=
  ⟨(lockCall w.table e).1, holdersStep (lockCall w.table e).2 w.holders e⟩

def OneEntry (t : LockTable) : Prop :=
  ∀ (i j : Nat) (lk lk' : ResourceLock), t.locks[i]? = some lk → t.locks[j]? = some lk' →
    lk.active = true → lk'.active = true → lk.resource = lk'.resource → i = j

/-- A lock is granted only if nobody else holds the resource. -/
def GrantedToHolder (w : LockWorld) : LockEvent → Prop
  | .lock now resource owner =>
    (apiResourceLock now w.table resource owner).2 = 0 →
      ∀ owner' since, w.holders resource = some (owner', since) → owner' = owner
  | _ => True

def NamesFit (resource owner : CStr) : Prop :=
  resource.bytes.length ≤ 1023 ∧ owner.bytes.length ≤ 127

/-- No active entry of the resource lies beyond the part of the table that `find_lock`
looks at. -/
def EntrySeen (t : LockTable) (resource : CStr) : Prop :=
  ∀ lk ∈ t.locks.drop t.lockCount.toNat, ¬ (lk.active = true ∧ lk.resource = resource)

/-- The names of the call fit, and if it locks or keeps alive, it does not miss an active
entry of its resource. -/
def LockSeen (w : LockWorld) : LockEvent → Prop
  | .lock _ resource owner => NamesFit resource owner ∧ EntrySeen w.table resource
  | .unlock resource owner => NamesFit resource owner
  | .keepalive _ resource owner => NamesFit resource owner ∧ EntrySeen w.table resource
  | .cleanup _ => True

instance (resource owner : CStr) : Decidable (NamesFit resource owner) :=
  inferInstanceAs (Decidable (_ ∧ _))

instance (t : LockTable) (resource : CStr) : Decidable (EntrySeen t resource) :=
  inferInstanceAs (Decidable (∀ lk ∈ _, _))

instance (w : LockWorld) : (e : LockEvent) → Decidable (LockSeen w e)
  | .lock _ _ _ => inferInstanceAs (Decidable (_ ∧ _))
  | .unlock resource owner => inferInstanceAs (Decidable (NamesFit resource owner))
  | .keepalive _ _ _ => inferInstanceAs (Decidable (_ ∧ _))
  | .cleanup _ => .isTrue trivial

/-! ### The table holds the holders -/

def lockView (lk : ResourceLock) : Option (CStr × (CStr × Int)) :=
  if lk.active then some (lk.resource, lk.owner, lk.lastKeepalive) else none

variable {lk : ResourceLock}

theorem lockView_eq_some {resource owner : CStr} {since : Int} :
    lockView lk = some (resource, owner, since) ↔
      lk.active = true ∧ lk.resource = resource ∧ lk.owner = owner ∧ lk.lastKeepalive = since := by
  unfold lockView
  cases lk.active <;> simp

section Find

variable {t : LockTable} {resource : CStr}

theorem findLock_eq_some {i : Nat} (h : findLock t resource = some (i, lk)) :
    t.locks[i]? = some lk ∧ lk.active = true ∧ lk.resource = resource := by
  obtain ⟨j, hj, hmap⟩ := bind_eq_some_iff.mp h
  obtain ⟨lk', hlk', heq⟩ := map_eq_some_iff.mp hmap
  obtain ⟨rfl, rfl⟩ := Prod.mk.inj heq
  obtain ⟨hlt, hp, -⟩ := findIdx?_eq_some_iff_getElem.mp hj
  have hget : t.locks[j]? = some ((t.locks.take t.lockCount.toNat)[j]) := by
    rw [← getElem?_eq_getElem hlt, getElem?_take_of_lt]
    rw [length_take] at hlt
    omega
  obtain rfl := some.inj (hlk'.symm.trans hget)
  refine ⟨hlk', ?_⟩
  simpa using hp

/-- When every active entry of the resource is looked at, nothing found means that there
is none. -/
theorem not_active_of_findLock (hseen : EntrySeen t resource) (h : findLock t resource = none)
    (hmem : lk ∈ t.locks) : ¬ (lk.active = true ∧ lk.resource = resource) := by
  rw [← take_append_drop t.lockCount.toNat t.locks, mem_append] at hmem
  rcases hmem with hmem | hmem
  · unfold findLock at h
    have hnone : ((t.locks.take t.lockCount.toNat).findIdx? fun lk =>
        lk.active && lk.resource = resource) = none := by
      cases hfind : (t.locks.take t.lockCount.toNat).findIdx? fun lk =>
          lk.active && lk.resource = resource with
      | none => rfl
      | some i =>
        obtain ⟨hlt, -⟩ := findIdx?_eq_some_iff_getElem.mp hfind
        rw [length_take] at hlt
        rw [hfind, bind_some, getElem?_eq_getElem (by omega)] at h
        cases h
    simpa using findIdx?_eq_none_iff.mp hnone lk hmem
  · exact hseen lk hmem

end Find

def LockInv (w : LockWorld) : Prop := Represents (contents lockView w.table.locks) w.holders

theorem lockInv_init : LockInv lockWorldInit := by
  have hempty : contents lockView lockTableInit.locks = fun _ => none := by
    funext i
    unfold contents
    cases h : lockTableInit.locks[i]? with
    | none => rfl
    | some lk =>
      obtain rfl := eq_of_mem_replicate (mem_of_getElem? h)
      rfl
  unfold LockInv lockWorldInit
  rw [hempty]
  exact represents_empty

section Step

variable {w : LockWorld} {resource owner : CStr} {now : Int}

theorem LockInv.holder_of_find (inv : LockInv w) {i : Nat}
    (h : findLock w.table resource = some (i, lk)) :
    contents lockView w.table.locks i = some (resource, lk.owner, lk.lastKeepalive) ∧
      w.holders resource = some (lk.owner, lk.lastKeepalive) := by
  obtain ⟨hget, hactive, hres⟩ := findLock_eq_some h
  have hcontents : contents lockView w.table.locks i
      = some (resource, lk.owner, lk.lastKeepalive) := by
    rw [contents, hget, bind_some]
    exact lockView_eq_some.mpr ⟨hactive, hres, rfl, rfl⟩
  exact ⟨hcontents, inv.mem.mpr ⟨i, hcontents⟩⟩

/-- If all entries of the resource are looked at and none is found, nobody holds it. -/
theorem LockInv.no_holder (inv : LockInv w) (hseen : EntrySeen w.table resource)
    (h : findLock w.table resource = none) : w.holders resource = none := by
  apply inv.eq_none
  intro i hold hcontents
  obtain ⟨lk, hget, hview⟩ := bind_eq_some_iff.mp hcontents
  obtain ⟨hactive, hres, -⟩ := lockView_eq_some.mp hview
  exact not_active_of_findLock hseen h (mem_of_getElem? hget) ⟨hactive, hres⟩

/-- What a lock call does: it is refused, or it fills an idle entry for a resource that
was not found. -/
theorem apiResourceLock_cases (now : Int) (t : LockTable) (resource owner : CStr) :
    apiResourceLock now t resource owner = (t, -1) ∨
    ∃ i lk, findLock t resource = none ∧ t.locks[i]? = some lk ∧ lk.active = false ∧
      apiResourceLock now t resource owner =
        ({ locks := t.locks.set i ⟨resource.truncate 1023, owner.truncate 127, now, now, true⟩
           lockCount := t.lockCount + 1 }, 0) := by
  unfold apiResourceLock
  cases hfind : findLock t resource with
  | some r => exact .inl rfl
  | none =>
    simp only [isSome_none, Bool.false_eq_true, if_false]
    split
    · exact .inl rfl
    cases hslot : t.locks.findIdx? fun lk => !lk.active with
    | none => exact .inl rfl
    | some i =>
      obtain ⟨hlt, hidle, -⟩ := findIdx?_eq_some_iff_getElem.mp hslot
      refine .inr ⟨i, t.locks[i], trivial, getElem?_eq_getElem hlt, ?_, rfl⟩
      simpa using hidle

section

variable (inv : LockInv w)

include inv

theorem lockInv_lock (hfit : NamesFit resource owner) (hseen : EntrySeen w.table resource) :
    LockInv (lockStep w (.lock now resource owner)) := by
  rcases apiResourceLock_cases now w.table resource owner with
    heq | ⟨i, lk, hnone, hget, hidle, heq⟩
  · simp only [lockStep, lockCall, holdersStep, heq]
    exact inv
  · simp only [lockStep, lockCall, holdersStep, heq, if_true]
    have hlt : i < w.table.locks.length := (List.getElem?_eq_some_iff.mp hget).1
    have hempty : contents lockView w.table.locks i = none := by
      rw [contents, hget, bind_some, lockView, hidle]
      rfl
    have hins := inv.insert hempty (inv.no_holder hseen hnone) (owner, now)
    unfold LockInv
    rw [contents_set lockView hlt, CStr.truncate_eq_self hfit.1, CStr.truncate_eq_self hfit.2]
    exact hins

theorem lockInv_unlock : LockInv (lockStep w (.unlock resource owner)) := by
  simp only [lockStep, lockCall, apiResourceUnlock]
  cases hfind : findLock w.table resource with
  | none => exact inv
  | some r =>
    obtain ⟨i, lk⟩ := r
    obtain ⟨hcontents, hholder⟩ := inv.holder_of_find hfind
    have hlt := (List.getElem?_eq_some_iff.mp (findLock_eq_some hfind).1).1
    by_cases howner : lk.owner = owner
    · simp only [howner, ne_eq, not_true_eq_false, if_false, holdersStep, hholder,
        map_some, and_self, if_true]
      unfold LockInv
      rw [contents_set lockView hlt]
      exact inv.erase hcontents
    · simp only [ne_eq, howner, not_false_eq_true, if_true, holdersStep]
      exact inv

theorem lockInv_keepalive (hseen : EntrySeen w.table resource) :
    LockInv (lockStep w (.keepalive now resource owner)) := by
  simp only [lockStep, lockCall, apiResourceKeepalive, holdersStep]
  cases hfind : findLock w.table resource with
  | none =>
    -- nobody holds the resource, so this is not its holder's sign of life
    simp only [inv.no_holder hseen hfind, map_none, reduceCtorEq, if_false]
    exact inv
  | some r =>
    obtain ⟨i, lk⟩ := r
    obtain ⟨hcontents, hholder⟩ := inv.holder_of_find hfind
    obtain ⟨hget, hactive, hres⟩ := findLock_eq_some hfind
    have hlt := (List.getElem?_eq_some_iff.mp hget).1
    simp only [hholder, map_some, some.injEq]
    by_cases howner : lk.owner = owner
    · simp only [howner, ne_eq, not_true_eq_false, if_false, if_true]
      have hnew := inv.replace hcontents (.inl rfl) (owner, now)
      rw [Function.update_idem] at hnew
      unfold LockInv
      rw [contents_set lockView hlt]
      simpa [lockView, hactive, hres, howner] using hnew
    · simp only [ne_eq, howner, not_false_eq_true, if_true, if_false]
      exact inv

theorem lockInv_cleanup : LockInv (lockStep w (.cleanup now)) := by
  have hdrop : contents lockView (lockCleanup now w.table).locks = fun i =>
      (contents lockView w.table.locks i).filter
        fun e => decide (now - e.2.2 ≤ lockTimeoutSec) := by
    funext i
    rw [lockCleanup, contents_map, contents]
    cases w.table.locks[i]? with
    | none => rfl
    | some lk =>
      obtain ⟨resource, owner, lockedAt, lastKeepalive, active⟩ := lk
      simp only [bind_some, lockView, lockExpired]
      cases active with
      | false => rfl
      | true =>
        by_cases hlate : lockTimeoutSec < now - lastKeepalive
        · have hgone := not_le.mpr hlate
          simp [hlate, hgone, Option.filter]
        · have hkept := not_lt.mp hlate
          simp [hlate, hkept, Option.filter]
  change Represents (contents lockView (lockCleanup now w.table).locks) _
  rw [hdrop]
  exact inv.filter fun _ hold => decide (now - hold.2 ≤ lockTimeoutSec)

theorem lockInv_step (e : LockEvent) (h : LockSeen w e) : LockInv (lockStep w e) := by
  cases e with
  | lock now resource owner => exact lockInv_lock inv h.1 h.2
  | unlock resource owner => exact lockInv_unlock inv
  | keepalive now resource owner => exact lockInv_keepalive inv h.2
  | cleanup now => exact lockInv_cleanup inv

theorem LockInv.oneEntry : OneEntry w.table := by
  intro i j lk lk' hi hj hactive hactive' hres
  have hview : contents lockView w.table.locks i =
      some (lk.resource, lk.owner, lk.lastKeepalive) := by
    rw [contents, hi, bind_some]
    exact lockView_eq_some.mpr ⟨hactive, rfl, rfl, rfl⟩
  have hview' : contents lockView w.table.locks j
      = some (lk.resource, lk'.owner, lk'.lastKeepalive) := by
    rw [contents, hj, bind_some]
    exact lockView_eq_some.mpr ⟨hactive', hres.symm, rfl, rfl⟩
  exact inv.unique hview hview'

theorem LockInv.granted (e : LockEvent) (h : LockSeen w e) : GrantedToHolder w e := by
  cases e with
  | unlock resource owner | keepalive now resource owner | cleanup now => exact trivial
  | lock now resource owner =>
    intro hrc owner' since hholder
    rcases apiResourceLock_cases now w.table resource owner with heq | ⟨-, -, hnone, -, -, -⟩
    · rw [heq] at hrc
      cases hrc
    · rw [inv.no_holder h.2 hnone] at hholder
      cases hholder

end

end Step

/-- As long as no lock or keepalive call misses an active entry of its resource, a resource never
has two active entries, and a lock is granted only if nobody else holds the resource. -/
theorem locks_exclusive (es : List LockEvent) (h : Along lockStep LockSeen lockWorldInit es) :
    (∀ before, before <+: es → OneEntry (run lockStep lockWorldInit before).table) ∧
      ∀ before e, before ++ [e] <+: es → GrantedToHolder (run lockStep lockWorldInit before) e := by
  have hinv : ∀ before, Along lockStep LockSeen lockWorldInit before →
      LockInv (run lockStep lockWorldInit before) := fun before =>
    Along.invariant (fun w e (inv : LockInv w) he => lockInv_step inv e he) lockInv_init
  constructor
  · rintro before ⟨after, rfl⟩
    exact (hinv before ((along_append _ _ _).mp h).1).oneEntry
  rintro before e ⟨after, rfl⟩
  obtain ⟨hboth, -⟩ := (along_append _ _ _).mp h
  obtain ⟨hbefore, he, -⟩ := (along_append _ _ _).mp hboth
  exact (hinv before hbefore).granted e he

def handOverRun : List LockEvent :=
  [.lock 0 (.lit "/r") (.lit "a"), .lock 1 (.lit "/r") (.lit "b"),
    .keepalive 30 (.lit "/r") (.lit "a"), .cleanup 70, .unlock (.lit "/r") (.lit "a"),
    .lock 71 (.lit "/r") (.lit "b"), .cleanup 132]

theorem locks_exclusive_handOver :
    (∀ before, before <+: handOverRun → OneEntry (run lockStep lockWorldInit before).table) ∧
      ∀ before e, before ++ [e] <+: handOverRun →
        GrantedToHolder (run lockStep lockWorldInit before) e :=
  locks_exclusive handOverRun (by decide +kernel)

def holeRun : List LockEvent :=
  [.lock 0 (.lit "/r") (.lit "a"), .lock 0 (.lit "/s") (.lit "b"), .unlock (.lit "/r") (.lit "a")]

/-- Only the first entry is looked at, and that of `/s` is the second: `c` is granted the lock that
`b` holds. -/
theorem locks_exclusive_false :
    ¬ GrantedToHolder (run lockStep lockWorldInit holeRun) (.lock 1 (.lit "/s") (.lit "c")) ∧
      ¬ OneEntry
        (run lockStep lockWorldInit (holeRun ++ [.lock 1 (.lit "/s") (.lit "c")])).table := by
  constructor
  · intro h
    have hsame := h (by decide +kernel) (.lit "b") 0 (by decide +kernel)
    revert hsame
    decide
  intro h
  have hsame := h 0 1 ⟨.lit "/s", .lit "c", 1, 1, true⟩ ⟨.lit "/s", .lit "b", 0, 0, true⟩
    (by decide +kernel) (by decide +kernel) rfl rfl rfl
  cases hsame

end Portal
