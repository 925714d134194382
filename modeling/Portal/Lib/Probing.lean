import Mathlib.Data.List.Nodup
import Mathlib.Data.List.Count
import Mathlib.Data.List.GetD
import Mathlib.Data.Nat.ModEq

/-!
Open addressing with tombstones, over an arbitrary key type and hash function. Every operation
walks the probe sequence of its key, a bounded loop with an early return (`scan`):

* `search` skips tombstones and stops at the first empty slot (`search_eq_some_iff`);
* `place` stops at the first slot that is free or holds the key (`place_eq_some_iff`);
* `entries` are the occupied slots, in slot order.

`WellFormed` is the representation invariant, `WellFormed.store` and `WellFormed.erase` the two
ways to keep it.
-/

namespace Probing

open List Option

/-- One slot of the table. A tombstone is a slot whose entry was deleted. -/
inductive Slot (K V : Type) where
  | empty
  | occupied (key : K) (value : V)
  | tombstone
deriving DecidableEq, Repr

variable {K V R : Type}

def Slot.entry? : Slot K V → Option (K × V)
  | .occupied k v => some (k, v)
  | _ => none

def Slot.isOccupied : Slot K V → Bool
  | .occupied _ _ => true
  | _ => false

@[simp] theorem Slot.isOccupied_empty : (.empty : Slot K V).isOccupied = false := rfl

@[simp] theorem Slot.isOccupied_occupied (k : K) (v : V) :
    (.occupied k v : Slot K V).isOccupied = true := rfl

@[simp] theorem Slot.isOccupied_tombstone : (.tombstone : Slot K V).isOccupied = false := rfl

/-- The slot at position `i`; positions outside the table read as empty. -/
def slotAt (t : List (Slot K V)) (i : Nat) : Slot K V := t.getD i .empty

/-- Position number `i` of the probe sequence that starts at hash `h`. -/
def probe (cap h i : Nat) : Nat := (h % cap + i) % cap

/-- `for (i = 0; i < n; i++)` whose body returns from the function or falls through. -/
def scan (n : Nat) (body : Nat → Option R) : Option R := (List.range n).findSome? body

theorem scan_eq_none_iff {n : Nat} {body : Nat → Option R} :
    scan n body = none ↔ ∀ i < n, body i = none := by
  simp [scan]

/-- The loop returns `r` exactly when its first returning iteration returns `r`. -/
theorem scan_eq_some_iff {n : Nat} {body : Nat → Option R} {r : R} :
    scan n body = some r ↔ ∃ i < n, body i = some r ∧ ∀ j < i, body j = none := by
  induction n with
  | zero => simp [scan]
  | succ n ih =>
    have hstep : scan (n + 1) body = (scan n body).or (body n) := by
      simp [scan, range_succ, findSome?_append]
    rw [hstep, Option.or_eq_some_iff, ih, scan_eq_none_iff]
    constructor
    · rintro (⟨i, hi, hfirst⟩ | ⟨hnone, hbody⟩)
      · exact ⟨i, by omega, hfirst⟩
      · exact ⟨n, by omega, hbody, hnone⟩
    rintro ⟨i, hi, hbody, hbefore⟩
    rcases Nat.lt_succ_iff_lt_or_eq.mp hi with hlt | rfl
    · exact .inl ⟨i, hlt, hbody, hbefore⟩
    · exact .inr ⟨hbefore, hbody⟩

/-! ### Positions and probe sequences -/

variable {t : List (Slot K V)} {i : Nat}

theorem slotAt_of_length_le (h : t.length ≤ i) :
    slotAt t i = .empty := by
  simp [slotAt, h]

theorem lt_length_of_slotAt_ne_empty (h : slotAt t i ≠ .empty) : i < t.length := by
  by_contra hge
  exact h (slotAt_of_length_le (Nat.le_of_not_lt hge))

theorem slotAt_mem (h : i < t.length) : slotAt t i ∈ t := by
  simp [slotAt, h]

theorem exists_slotAt_of_mem {s : Slot K V} (h : s ∈ t) :
    ∃ i < t.length, slotAt t i = s := by
  obtain ⟨i, hi, rfl⟩ := getElem_of_mem h
  exact ⟨i, hi, by simp [slotAt, hi]⟩

theorem slotAt_set {p i : Nat} {s : Slot K V} (hp : p < t.length) :
    slotAt (t.set p s) i = if i = p then s else slotAt t i := by
  by_cases h : i = p
  · subst h
    simp [slotAt, hp]
  · simp [slotAt, getD_eq_getElem?_getD, getElem?_set_ne (Ne.symm h), h]

theorem probe_lt {cap h i : Nat} (hcap : 0 < cap) : probe cap h i < cap :=
  Nat.mod_lt _ hcap

/-- One round of the probe sequence visits every position. -/
theorem probe_surjective {cap s : Nat} (h : Nat) (hs : s < cap) :
    ∃ i < cap, probe cap h i = s := by
  have hcap : 0 < cap := by omega
  have hh : h % cap < cap := Nat.mod_lt _ hcap
  refine ⟨(s + (cap - h % cap)) % cap, Nat.mod_lt _ hcap, ?_⟩
  have : h % cap + (s + (cap - h % cap)) = s + cap := by omega
  rw [probe, Nat.add_mod_mod, this, Nat.add_mod_right, Nat.mod_eq_of_lt hs]

/-- Two steps of one round that end at the same position are the same step. -/
theorem probe_injective {cap h i j : Nat} (hi : i < cap) (hj : j < cap)
    (heq : probe cap h i = probe cap h j) : i = j := by
  have hij : i ≡ j [MOD cap] := Nat.ModEq.add_left_cancel' (h % cap) heq
  rwa [Nat.ModEq, Nat.mod_eq_of_lt hi, Nat.mod_eq_of_lt hj] at hij

/-! ### The representation invariant -/

/-- Every stored key is reached from its home position before an empty slot, and
no key is stored in two slots. -/
structure WellFormed (hash : K → Nat) (t : List (Slot K V)) : Prop where
  reach : ∀ i k v, slotAt t i = .occupied k v →
    ∃ d < t.length, probe t.length (hash k) d = i ∧
      ∀ j < d, slotAt t (probe t.length (hash k) j) ≠ .empty
  unique : ∀ i j k v w, slotAt t i = .occupied k v → slotAt t j = .occupied k w → i = j

def Maps (t : List (Slot K V)) (k : K) (v : V) : Prop := ∃ i, slotAt t i = .occupied k v

def Present (t : List (Slot K V)) (k : K) : Prop := ∃ v, Maps t k v

def occupancy (t : List (Slot K V)) : Nat := t.countP Slot.isOccupied

def entries (t : List (Slot K V)) : List (K × V) := t.filterMap Slot.entry?

open Slot

theorem length_entries (t : List (Slot K V)) : (entries t).length = occupancy t := by
  induction t with
  | nil => rfl
  | cons s t ih =>
    simp only [entries, occupancy] at ih
    cases s <;>
      simp [entries, occupancy, entry?, isOccupied, filterMap_cons, countP_cons, ih]

theorem mem_entries {k : K} {v : V} : (k, v) ∈ entries t ↔ Maps t k v := by
  simp only [entries, mem_filterMap]
  constructor
  · rintro ⟨s, hs, hentry⟩
    obtain ⟨i, _, rfl⟩ := exists_slotAt_of_mem hs
    refine ⟨i, ?_⟩
    cases hsi : slotAt t i with
    | occupied k' v' => simpa [hsi, entry?] using hentry
    | empty | tombstone => simp [hsi, entry?] at hentry
  · rintro ⟨i, hi⟩
    have hlt : i < t.length := lt_length_of_slotAt_ne_empty (by simp [hi])
    exact ⟨slotAt t i, slotAt_mem hlt, by simp [hi, entry?]⟩

/-- In a well-formed table every key is listed once. -/
theorem nodup_keys_entries {hash : K → Nat} {t : List (Slot K V)} (wf : WellFormed hash t) :
    ((entries t).map Prod.fst).Nodup := by
  have hslots : t.Pairwise fun a b =>
      ∀ x, a.entry? = some x → ∀ y, b.entry? = some y → x.1 ≠ y.1 := by
    rw [pairwise_iff_getElem]
    intro i j hi hj hij x hx y hy hxy
    have hsi : slotAt t i = t[i] := by simp [slotAt, hi]
    have hsj : slotAt t j = t[j] := by simp [slotAt, hj]
    cases hti : t[i] with
    | occupied k v =>
      cases htj : t[j] with
      | occupied k' v' =>
        simp only [hti, htj, entry?, some.injEq] at hx hy
        subst hx; subst hy
        have hk : k' = k := hxy.symm
        have := wf.unique i j k v v' (by rw [hsi, hti]) (by rw [hsj, htj, hk])
        omega
      | empty | tombstone => simp [htj, entry?] at hy
    | empty | tombstone => simp [hti, entry?] at hx
  rw [List.Nodup, pairwise_map, entries, pairwise_filterMap]
  exact hslots

section Search

variable [DecidableEq K]

/-- The search loop: an empty slot ends it, a slot that holds the key ends it with
`hit`, every other slot is passed over. -/
def search (hash : K → Nat) (t : List (Slot K V)) (k : K) (hit : Nat → V → R) : Option R :=
  (scan t.length fun i =>
    match slotAt t (probe t.length (hash k) i) with
    | .empty => some none
    | .occupied k' v => if k' = k then some (some (hit (probe t.length (hash k) i) v)) else none
    | .tombstone => none).join

/-- On any table the search ends at a slot that holds the key. -/
theorem exists_of_search {hash : K → Nat} {k : K} {hit : Nat → V → R} {r : R}
    (h : search hash t k hit = some r) : ∃ i v, slotAt t i = .occupied k v ∧ hit i v = r := by
  rw [search, Option.join_eq_some_iff, scan_eq_some_iff] at h
  obtain ⟨d, _, hbody, _⟩ := h
  split at hbody
  · simp at hbody
  · rename_i k' v hslot
    split at hbody
    · rename_i hk
      subst hk
      exact ⟨_, v, hslot, by simpa using hbody⟩
    · cases hbody
  · cases hbody

/-- On a well-formed table the search finds exactly what is stored. -/
theorem search_eq_some_iff {hash : K → Nat} {t : List (Slot K V)} (wf : WellFormed hash t)
    {k : K} {hit : Nat → V → R} {r : R} :
    search hash t k hit = some r ↔ ∃ i v, slotAt t i = .occupied k v ∧ hit i v = r := by
  constructor
  · exact exists_of_search
  rintro ⟨i, v, hslot, rfl⟩
  rw [search, Option.join_eq_some_iff, scan_eq_some_iff]
  obtain ⟨d, hd, rfl, hbefore⟩ := wf.reach i k v hslot
  refine ⟨d, hd, by simp [hslot], ?_⟩
  intro j hj
  -- Before the key's own slot there is neither an empty slot nor a second copy.
  split
  · rename_i hempty
    exact absurd hempty (hbefore j hj)
  · rename_i k' w hother
    split
    · rename_i hk
      subst hk
      have := probe_injective (by omega) hd (wf.unique _ _ _ _ _ hother hslot)
      omega
    · rfl
  · rfl

theorem search_eq_none_iff {hash : K → Nat} {t : List (Slot K V)} (wf : WellFormed hash t)
    {k : K} {hit : Nat → V → R} : search hash t k hit = none ↔ ¬ Present t k := by
  rw [eq_none_iff_forall_ne_some]
  simp only [ne_eq, search_eq_some_iff wf]
  constructor
  · rintro h ⟨v, i, hi⟩
    exact h _ ⟨i, v, hi, rfl⟩
  · rintro h r ⟨i, v, hi, _⟩
    exact h ⟨v, i, hi⟩

end Search

section Place

variable [DecidableEq K]

/-- The insertion loop: the first slot that is free (`true`) or already holds the
key (`false`). -/
def place (hash : K → Nat) (t : List (Slot K V)) (k : K) : Option (Nat × Bool) :=
  scan t.length fun i =>
    match slotAt t (probe t.length (hash k) i) with
    | .empty => some (probe t.length (hash k) i, true)
    | .tombstone => some (probe t.length (hash k) i, true)
    | .occupied k' _ => if k' = k then some (probe t.length (hash k) i, false) else none

/-- What the insertion loop returns: a position on the probe sequence, every
earlier one being occupied by another key. -/
theorem place_eq_some_iff {hash : K → Nat} {t : List (Slot K V)} {k : K} {p : Nat} {new : Bool} :
    place hash t k = some (p, new) ↔
      ∃ d < t.length, probe t.length (hash k) d = p ∧
        (∀ j < d, ∃ k' v', slotAt t (probe t.length (hash k) j) = .occupied k' v' ∧ k' ≠ k) ∧
        (if new then (slotAt t p).isOccupied = false else ∃ v, slotAt t p = .occupied k v) := by
  have hpass : ∀ j, (match slotAt t (probe t.length (hash k) j) with
      | .empty => some (probe t.length (hash k) j, true)
      | .tombstone => some (probe t.length (hash k) j, true)
      | .occupied k' _ => if k' = k then some (probe t.length (hash k) j, false) else none) = none ↔
      ∃ k' v', slotAt t (probe t.length (hash k) j) = .occupied k' v' ∧ k' ≠ k := by
    intro j
    cases slotAt t (probe t.length (hash k) j) <;> simp
  rw [place, scan_eq_some_iff]
  simp only [hpass]
  constructor
  · rintro ⟨d, hd, hbody, hbefore⟩
    refine ⟨d, hd, ?_⟩
    cases hs : slotAt t (probe t.length (hash k) d) with
    | empty | tombstone =>
      simp only [hs, some.injEq, Prod.mk.injEq] at hbody
      obtain ⟨rfl, rfl⟩ := hbody
      exact ⟨rfl, hbefore, by simp [hs, isOccupied]⟩
    | occupied k' v' =>
      by_cases hk : k' = k
      · simp only [hs, hk, if_true, some.injEq, Prod.mk.injEq] at hbody
        obtain ⟨rfl, rfl⟩ := hbody
        exact ⟨rfl, hbefore, by simp [hs, hk]⟩
      · simp [hs, hk] at hbody
  rintro ⟨d, hd, rfl, hbefore, hslot⟩
  refine ⟨d, hd, ?_, hbefore⟩
  cases new with
  | true =>
    cases hs : slotAt t (probe t.length (hash k) d) with
    | empty | tombstone => rfl
    | occupied k' v' => simp [hs, isOccupied] at hslot
  | false =>
    obtain ⟨v, hv⟩ : ∃ v, slotAt t (probe t.length (hash k) d) = .occupied k v := by
      simpa using hslot
    simp [hv]

/-- A table with a free slot always has a place for the key. -/
theorem exists_place {t : List (Slot K V)} (hash : K → Nat) (k : K)
    (h : occupancy t < t.length) : ∃ p new, place hash t k = some (p, new) := by
  have hfree : ∃ s ∈ t, s.isOccupied = false := by
    by_contra hall
    push Not at hall
    have := countP_eq_length.mpr fun s hs => (Bool.not_eq_false _).mp (hall s hs)
    simp only [occupancy] at h
    omega
  obtain ⟨s, hs, hfree⟩ := hfree
  obtain ⟨i, hi, rfl⟩ := exists_slotAt_of_mem hs
  obtain ⟨d, hd, rfl⟩ := probe_surjective (hash k) hi
  cases hplace : place hash t k with
  | some r => exact ⟨r.1, r.2, rfl⟩
  | none =>
    rw [place, scan_eq_none_iff] at hplace
    have := hplace d hd
    cases hsd : slotAt t (probe t.length (hash k) d) with
    | empty | tombstone => simp [hsd] at this
    | occupied k' v' => simp [hsd, isOccupied] at hfree

end Place

/-! ### Updates that keep the invariant -/

/-- Storing a key in a slot it reaches keeps the invariant, provided the key is
stored nowhere else. -/
theorem WellFormed.store {hash : K → Nat} {t : List (Slot K V)} (wf : WellFormed hash t)
    {k : K} {v : V} {d : Nat} (hd : d < t.length)
    (hbefore : ∀ j < d, slotAt t (probe t.length (hash k) j) ≠ .empty)
    (honly : ∀ i w, slotAt t i = .occupied k w → i = probe t.length (hash k) d) :
    WellFormed hash (t.set (probe t.length (hash k) d) (.occupied k v)) := by
  have hp : probe t.length (hash k) d < t.length := probe_lt (by omega)
  have hkeep : ∀ i, slotAt t i ≠ .empty →
      slotAt (t.set (probe t.length (hash k) d) (.occupied k v)) i ≠ .empty := by
    intro i hi
    rw [slotAt_set hp]
    split
    · simp
    · exact hi
  constructor
  · intro i k' v' hslot
    rw [length_set]
    rw [slotAt_set hp] at hslot
    split at hslot
    · rename_i hi
      obtain ⟨rfl, rfl⟩ := occupied.inj hslot
      exact ⟨d, hd, hi.symm, fun j hj => hkeep _ (hbefore j hj)⟩
    · obtain ⟨d', hd', heq, hb⟩ := wf.reach i k' v' hslot
      exact ⟨d', hd', heq, fun j hj => hkeep _ (hb j hj)⟩
  intro i j k' v' w' hi hj
  rw [slotAt_set hp] at hi hj
  split at hi <;> split at hj
  · rename_i h₁ h₂
    exact h₁.trans h₂.symm
  · rename_i h₁ _
    obtain ⟨rfl, rfl⟩ := occupied.inj hi
    exact h₁.trans (honly j w' hj).symm
  · rename_i _ h₂
    obtain ⟨rfl, rfl⟩ := occupied.inj hj
    exact (honly i v' hi).trans h₂.symm
  · exact wf.unique i j k' v' w' hi hj

/-- Replacing an entry by a tombstone keeps the invariant. -/
theorem WellFormed.erase {hash : K → Nat} {t : List (Slot K V)} (wf : WellFormed hash t)
    {p : Nat} (hp : p < t.length) : WellFormed hash (t.set p .tombstone) := by
  have hold : ∀ i k v, slotAt (t.set p .tombstone) i = .occupied k v →
      slotAt t i = .occupied k v := by
    intro i k v h
    rw [slotAt_set hp] at h
    split at h
    · cases h
    · exact h
  constructor
  · intro i k v hslot
    obtain ⟨d, hd, heq, hb⟩ := wf.reach i k v (hold i k v hslot)
    refine ⟨d, by simpa using hd, by simpa using heq, ?_⟩
    intro j hj
    rw [length_set, slotAt_set hp]
    split
    · simp
    · exact hb j hj
  · intro i j k v w hi hj
    exact wf.unique i j k v w (hold i k v hi) (hold j k w hj)

theorem occupancy_set {t : List (Slot K V)} {p : Nat} {s : Slot K V} (hp : p < t.length) :
    occupancy (t.set p s) + (if (slotAt t p).isOccupied then 1 else 0)
      = occupancy t + (if s.isOccupied then 1 else 0) := by
  have hslot : slotAt t p = t[p] := by simp [slotAt, hp]
  have hle : (if t[p].isOccupied then 1 else 0) ≤ occupancy t := by
    split
    · rename_i h
      exact countP_pos_iff.mpr ⟨t[p], getElem_mem hp, h⟩
    · omega
  rw [hslot, occupancy, countP_set hp]
  simp only [occupancy] at hle ⊢
  omega

/-- An insertion adds an entry unless it overwrites one. -/
theorem occupancy_place [DecidableEq K] {hash : K → Nat} {t : List (Slot K V)} {k : K} {p : Nat}
    {new : Bool} (h : place hash t k = some (p, new)) (v : V) :
    occupancy (t.set p (.occupied k v)) = occupancy t + if new then 1 else 0 := by
  obtain ⟨d, hd, rfl, -, hslot⟩ := place_eq_some_iff.mp h
  have hocc := occupancy_set (s := .occupied k v)
    (probe_lt (h := hash k) (i := d) (Nat.zero_lt_of_lt hd))
  cases new with
  | true =>
    rw [if_pos rfl] at hslot
    simpa [hslot] using hocc
  | false =>
    obtain ⟨w, hw⟩ : ∃ w, slotAt t _ = .occupied k w := by simpa using hslot
    simpa [hw] using hocc

/-- What is stored after a write to position `p` that is about `key` only: no other slot holds
`key`, and `p` held no other key. -/
theorem maps_set {p : Nat} {s : Slot K V} {key : K} [DecidableEq K] (hp : p < t.length)
    (hs : ∀ k v, s = .occupied k v → k = key)
    (honly : ∀ i w, slotAt t i = .occupied key w → i = p)
    (hfree : ∀ k w, slotAt t p = .occupied k w → k = key) (k : K) (v : V) :
    Maps (t.set p s) k v ↔ if k = key then s = .occupied key v else Maps t k v := by
  by_cases hk : k = key
  · subst hk
    rw [if_pos rfl]
    constructor
    · rintro ⟨i, hi⟩
      rw [slotAt_set hp] at hi
      split at hi
      · exact hi
      · rename_i hne
        exact absurd (honly i v hi) hne
    · rintro rfl
      exact ⟨p, by simp [slotAt_set hp]⟩
  · rw [if_neg hk]
    constructor
    · rintro ⟨i, hi⟩
      rw [slotAt_set hp] at hi
      split at hi
      · exact absurd (hs k v hi) hk
      · exact ⟨i, hi⟩
    rintro ⟨i, hi⟩
    refine ⟨i, ?_⟩
    rw [slotAt_set hp, if_neg ?_]
    · exact hi
    · rintro rfl
      exact hk (hfree k v hi)

def fresh (n : Nat) : List (Slot K V) := List.replicate n .empty

theorem slotAt_fresh (n i : Nat) : slotAt (fresh n : List (Slot K V)) i = .empty := by
  by_cases h : i < n
  · simp [slotAt, fresh, getD_eq_getElem?_getD, h]
  · exact slotAt_of_length_le (by simpa [fresh] using Nat.le_of_not_lt h)

theorem wellFormed_fresh (hash : K → Nat) (n : Nat) :
    WellFormed hash (fresh n : List (Slot K V)) := by
  constructor <;> intro i <;> simp [slotAt_fresh]

theorem occupancy_fresh (n : Nat) : occupancy (fresh n : List (Slot K V)) = 0 := by
  simp [occupancy, fresh, countP_replicate, isOccupied]

end Probing
