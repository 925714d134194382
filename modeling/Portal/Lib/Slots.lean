import Mathlib.Data.Set.Insert
import Mathlib.Data.List.Nodup
import Mathlib.Logic.Function.Basic

/-!
Slot tables. A `Pool` hands out the numbers below a capacity, released ones first. `Pool.Tracks cap
used` says that exactly the numbers of `used` are out (`alloc_tracks`, `release_tracks`,
`alloc_eq_none_iff`).

A table whose slots hold keys with values, or nothing, is a function from slot numbers
(`contents`). `Represents c m` says that no key is held twice and that the table holds the map `m`;
there is one rule for each way of writing a slot.
-/

namespace Slots

open List Option Function

/-- The released numbers, last one first, and the lowest number never handed out. -/
structure Pool where
  free : List Nat
  high : Nat
deriving DecidableEq

namespace Pool

def alloc (cap : Nat) (p : Pool) : Option (Pool × Nat) :=
  match p.free with
  | i :: rest => some (⟨rest, p.high⟩, i)
  | [] => if p.high < cap then some (⟨[], p.high + 1⟩, p.high) else none

def release (p : Pool) (i : Nat) : Pool := ⟨i :: p.free, p.high⟩

/-- The numbers below the mark are those in use and, once each, those released. -/
structure Tracks (cap : Nat) (p : Pool) (used : Set Nat) : Prop where
  high_le : p.high ≤ cap
  nodup : p.free.Nodup
  free_lt : ∀ i ∈ p.free, i < p.high
  used_iff : ∀ i, i ∈ used ↔ i < p.high ∧ i ∉ p.free

variable {cap : Nat} {p q : Pool} {used : Set Nat} {i : Nat}

theorem tracks_empty (cap : Nat) : Tracks cap ⟨[], 0⟩ ∅ where
  high_le := Nat.zero_le cap
  nodup := nodup_nil
  free_lt := by simp
  used_iff := by simp

theorem Tracks.lt_cap (h : Tracks cap p used) (hi : i ∈ used) : i < cap :=
  ((h.used_iff i).mp hi).1.trans_le h.high_le

/-- What is handed out was not in use. -/
theorem alloc_tracks (h : Tracks cap p used) (halloc : p.alloc cap = some (q, i)) :
    i < cap ∧ i ∉ used ∧ Tracks cap q (insert i used) := by
  obtain ⟨free, high⟩ := p
  unfold alloc at halloc
  cases free with
  | cons j rest =>
    simp only [some.injEq, Prod.mk.injEq] at halloc
    obtain ⟨rfl, rfl⟩ := halloc
    obtain ⟨hnotin, hnodup⟩ := nodup_cons.mp h.nodup
    have hj : j < high := h.free_lt j mem_cons_self
    refine ⟨hj.trans_le h.high_le, fun hused => ?_, h.high_le, hnodup, ?_, ?_⟩
    · exact ((h.used_iff j).mp hused).2 mem_cons_self
    · exact fun k hk => h.free_lt k (mem_cons_of_mem _ hk)
    intro k
    rw [Set.mem_insert_iff, h.used_iff, mem_cons]
    by_cases hk : k = j
    · subst hk
      simp [hj, hnotin]
    · simp [hk]
  | nil =>
    simp only at halloc
    split at halloc
    · rename_i hroom
      simp only [some.injEq, Prod.mk.injEq] at halloc
      obtain ⟨rfl, rfl⟩ := halloc
      refine ⟨hroom, fun hused => ?_, hroom, nodup_nil, by simp, ?_⟩
      · exact absurd ((h.used_iff high).mp hused).1 (lt_irrefl high)
      intro k
      rw [Set.mem_insert_iff, h.used_iff]
      simp only [not_mem_nil, not_false_iff, and_true]
      omega
    · cases halloc

/-- Nothing is handed out exactly when every number is in use. -/
theorem alloc_eq_none_iff (h : Tracks cap p used) : p.alloc cap = none ↔ ∀ i < cap, i ∈ used := by
  obtain ⟨free, high⟩ := p
  unfold alloc
  cases free with
  | cons j rest =>
    have hj : j < high := h.free_lt j mem_cons_self
    simp only [reduceCtorEq, false_iff, not_forall]
    refine ⟨j, hj.trans_le h.high_le, fun hused => ?_⟩
    exact ((h.used_iff j).mp hused).2 mem_cons_self
  | nil =>
    simp only [h.used_iff, not_mem_nil, not_false_iff, and_true, ite_eq_right_iff,
      reduceCtorEq, imp_false, not_lt]
    constructor
    · intro hge i hi
      omega
    · intro hall
      by_contra hlt
      exact absurd (hall high (by omega)) (lt_irrefl high)

/-- A number given back is free again. -/
theorem release_tracks (h : Tracks cap p used) (hi : i ∈ used) :
    Tracks cap (p.release i) (used \ {i}) where
  high_le := h.high_le
  nodup := List.nodup_cons.mpr ⟨((h.used_iff i).mp hi).2, h.nodup⟩
  free_lt := by
    intro k hk
    rcases mem_cons.mp hk with rfl | hk
    · exact ((h.used_iff k).mp hi).1
    · exact h.free_lt k hk
  used_iff := by
    intro k
    simp only [Set.mem_sdiff, h.used_iff, Set.mem_singleton_iff, release, mem_cons, not_or]
    constructor
    · exact fun ⟨⟨hlt, hfree⟩, hne⟩ => ⟨hlt, hne, hfree⟩
    · exact fun ⟨hlt, hne, hfree⟩ => ⟨⟨hlt, hfree⟩, hne⟩

end Pool

section Tables

variable {A B K V : Type*}

/-- What slot `i` of the array holds, as `view` reads a slot. -/
def contents (view : A → Option B) (xs : List A) (i : Nat) : Option B := xs[i]?.bind view

variable (view : A → Option B) (xs : List A)

theorem contents_set {xs : List A} {i : Nat} (hi : i < xs.length) (a : A) :
    contents view (xs.set i a) = update (contents view xs) i (view a) := by
  funext j
  unfold contents
  by_cases hj : j = i
  · subst hj
    rw [update_self, getElem?_set_self hi, bind_some]
  · rw [update_of_ne hj, getElem?_set_ne (Ne.symm hj)]

/-- Switching a slot off empties it. -/
theorem contents_modify_none {f : A → A} (hf : ∀ a, view (f a) = none)
    (xs : List A) (i : Nat) :
    contents view (xs.modify i f) = update (contents view xs) i none := by
  funext j
  unfold contents
  by_cases hj : j = i
  · subst hj
    cases h : xs[j]? <;> simp [h, hf]
  · simp [hj, Ne.symm hj]

theorem contents_map (f : A → A) (xs : List A) (i : Nat) :
    contents view (xs.map f) i = xs[i]?.bind fun a => view (f a) := by
  rw [contents, getElem?_map, Option.bind_map]
  rfl

theorem contents_append (a : A) :
    contents view (xs ++ [a]) = update (contents view xs) xs.length (view a) := by
  funext j
  unfold contents
  rcases lt_trichotomy j xs.length with hlt | rfl | hgt
  · rw [update_of_ne (Nat.ne_of_lt hlt), getElem?_append_left hlt]
  · simp
  · rw [update_of_ne (Nat.ne_of_gt hgt), getElem?_eq_none (by simp; omega),
      getElem?_eq_none (le_of_lt hgt)]

theorem contents_length :
    contents view xs xs.length = none := by
  rw [contents, getElem?_eq_none (le_refl _)]
  rfl

/-- Writing a slot exchanges what it held for what it holds now. -/
theorem filterMap_set_perm {xs : List A} {i : Nat} (hi : i < xs.length)
    (a : A) :
    ((view xs[i]).toList ++ (xs.set i a).filterMap view).Perm
      ((view a).toList ++ xs.filterMap view) := by
  have hold : xs.filterMap view = (xs.take i).filterMap view ++
      ((view xs[i]).toList ++ (xs.drop (i + 1)).filterMap view) := by
    conv_lhs => rw [← take_append_drop i xs, drop_eq_getElem_cons hi]
    rw [filterMap_append, filterMap_cons]
    cases view xs[i] <;> rfl
  have hnew : (xs.set i a).filterMap view = (xs.take i).filterMap view ++
      ((view a).toList ++ (xs.drop (i + 1)).filterMap view) := by
    rw [set_eq_take_append_cons_drop, if_pos hi, filterMap_append, filterMap_cons]
    cases view a <;> rfl
  rw [hold, hnew]
  -- both sides are the two slots and the rest, in different orders
  refine (perm_append_comm_assoc _ _ _).trans ?_
  refine List.Perm.trans ?_ (perm_append_comm_assoc _ _ _)
  exact (perm_append_comm_assoc _ _ _).append_left _

/-- No key is held twice, and the keys held are those of the map, with its values. -/
structure Represents (c : Nat → Option (K × V)) (m : K → Option V) : Prop where
  unique : ∀ {i j k v w}, c i = some (k, v) → c j = some (k, w) → i = j
  mem : ∀ {k v}, m k = some v ↔ ∃ i, c i = some (k, v)

theorem represents_empty : Represents (fun _ => (none : Option (K × V))) fun _ => none where
  unique h := by cases h
  mem := by simp

namespace Represents

variable {c : Nat → Option (K × V)} {m : K → Option V} {i : Nat} {k : K} {v : V}

/-- A key that is not held has no value. -/
theorem eq_none (h : Represents c m) (habsent : ∀ i v, c i ≠ some (k, v)) : m k = none := by
  rw [eq_none_iff_forall_ne_some]
  intro v hv
  obtain ⟨i, hi⟩ := h.mem.mp hv
  exact habsent i v hi

theorem update_slot {x : Option (K × V)} {j : Nat} {kv : K × V} :
    update c i x j = some kv ↔ j = i ∧ x = some kv ∨ j ≠ i ∧ c j = some kv := by
  by_cases hj : j = i
  · subst hj
    simp
  · simp [hj]

/-- What neither the new slot nor the old one holds is held as before. -/
theorem exists_update_slot {x : Option (K × V)} {kv : K × V} (hx : x ≠ some kv)
    (hc : c i ≠ some kv) : (∃ j, update c i x j = some kv) ↔ ∃ j, c j = some kv := by
  refine exists_congr fun j => update_slot.trans ?_
  constructor
  · rintro (⟨-, hj⟩ | ⟨-, hj⟩)
    · exact absurd hj hx
    · exact hj
  · intro hj
    exact .inr ⟨fun hji => hc (hji ▸ hj), hj⟩

theorem insert [DecidableEq K] (h : Represents c m) (hi : c i = none) (hk : m k = none) (v : V) :
    Represents (update c i (some (k, v))) (update m k (some v)) := by
  -- the old slots do not hold `k`
  have hold : ∀ {j w}, c j ≠ some (k, w) := by
    intro j w hj
    rw [h.mem.mpr ⟨j, hj⟩] at hk
    cases hk
  constructor
  · intro a b k' w w' ha hb
    rw [update_slot] at ha hb
    rcases ha with ⟨rfl, ha⟩ | ⟨-, ha⟩ <;> rcases hb with ⟨rfl, hb⟩ | ⟨-, hb⟩
    · rfl
    · obtain ⟨rfl, -⟩ := Prod.mk.inj (some.inj ha)
      exact absurd hb hold
    · obtain ⟨rfl, -⟩ := Prod.mk.inj (some.inj hb)
      exact absurd ha hold
    · exact h.unique ha hb
  intro k' w
  by_cases hk' : k' = k
  · subst hk'
    rw [update_self]
    constructor
    · intro hw
      obtain rfl := some.inj hw
      exact ⟨i, update_self ..⟩
    rintro ⟨j, hj⟩
    rcases update_slot.mp hj with ⟨-, hj⟩ | ⟨-, hj⟩
    · rw [(Prod.mk.inj (some.inj hj)).2]
    · exact absurd hj hold
  · rw [update_of_ne hk', h.mem, exists_update_slot]
    · intro hkey
      exact hk' (Prod.mk.inj (some.inj hkey)).1.symm
    · rw [hi]
      exact (some_ne_none _).symm

theorem erase [DecidableEq K] (h : Represents c m) (hi : c i = some (k, v)) :
    Represents (update c i none) (update m k none) where
  unique := by
    intro a b k' w w' ha hb
    obtain ⟨-, ⟨⟩⟩ | ⟨-, ha⟩ := update_slot.mp ha
    obtain ⟨-, ⟨⟩⟩ | ⟨-, hb⟩ := update_slot.mp hb
    exact h.unique ha hb
  mem := by
    intro k' w
    by_cases hk' : k' = k
    · subst hk'
      simp only [update_self, reduceCtorEq, false_iff, not_exists]
      intro j hj
      obtain ⟨-, ⟨⟩⟩ | ⟨hji, hj⟩ := update_slot.mp hj
      exact hji (h.unique hj hi)
    · rw [update_of_ne hk', h.mem, exists_update_slot (some_ne_none _).symm]
      rw [hi]
      intro hkey
      exact hk' (Prod.mk.inj (some.inj hkey)).1.symm

/-- Giving the key another value, or the slot another key, is to erase and insert. -/
theorem replace [DecidableEq K] (h : Represents c m) (hi : c i = some (k, v)) {k' : K}
    (hk' : k' = k ∨ m k' = none) (w : V) :
    Represents (update c i (some (k', w)))
      (update (update m k none) k' (some w)) := by
  have hkey : update m k none k' = none := by
    rcases hk' with rfl | hnone
    · exact update_self ..
    · by_cases heq : k' = k
      · subst heq
        exact update_self ..
      · rw [update_of_ne heq, hnone]
  have hins := (h.erase hi).insert (i := i) (update_self ..) hkey w
  rwa [update_idem] at hins

/-- Dropping the entries that fail a test. -/
theorem filter (h : Represents c m) (p : K → V → Bool) :
    Represents (fun i => (c i).filter fun e => p e.1 e.2) fun k => (m k).filter (p k) where
  unique ha hb := h.unique (filter_eq_some_iff.mp ha).1 (filter_eq_some_iff.mp hb).1
  mem := by
    intro k v
    simp [h.mem]

end Represents

end Tables

section Counting

variable {A : Type*} {p q : A → Bool} {xs : List A} {i : Nat} {x a : A}

theorem modify_eq_set (hi : xs[i]? = some x) (f : A → A) : xs.modify i f = xs.set i (f x) := by
  rw [modify_eq_set_getElem?, hi]
  rfl

/-- Taking a free slot. -/
theorem countP_set_on (hi : xs[i]? = some x) (hx : p x = false) (ha : p a = true) :
    (xs.set i a).countP p = xs.countP p + 1 := by
  obtain ⟨hlt, rfl⟩ := List.getElem?_eq_some_iff.mp hi
  rw [countP_set hlt, if_pos ha, hx]
  rfl

/-- Writing over a slot in use. -/
theorem countP_set_same (hi : xs[i]? = some x) (hx : p x = true) (ha : p a = true) :
    (xs.set i a).countP p = xs.countP p := by
  obtain ⟨hlt, rfl⟩ := List.getElem?_eq_some_iff.mp hi
  have hpos : 0 < xs.countP p := countP_pos_iff.mpr ⟨_, getElem_mem hlt, hx⟩
  rw [countP_set hlt, if_pos ha, if_pos hx]
  omega

/-- Releasing a slot in use. -/
theorem countP_modify_off {f : A → A} (hf : ∀ a, p (f a) = false) (hi : xs[i]? = some x)
    (hx : p x = true) : (xs.modify i f).countP p + 1 = xs.countP p := by
  obtain ⟨hlt, rfl⟩ := List.getElem?_eq_some_iff.mp hi
  have hpos : 0 < xs.countP p := countP_pos_iff.mpr ⟨_, getElem_mem hlt, hx⟩
  rw [modify_eq_set hi, countP_set hlt, if_pos hx, if_neg (by simp [hf])]
  omega

/-- Releasing every slot that meets `q`. -/
theorem countP_map_off {f : A → A} (hf : ∀ a, p (f a) = false) (hq : ∀ a, q a = true → p a = true)
    (xs : List A) :
    (xs.map fun a => if q a then f a else a).countP p + xs.countP q = xs.countP p := by
  induction xs with
  | nil => rfl
  | cons a xs ih =>
    rw [map_cons, countP_cons, countP_cons, countP_cons, ← ih]
    by_cases ha : q a = true
    · simp [ha, hf, hq a ha]
      omega
    · simp only [ha, if_false, Bool.false_eq_true]
      omega

end Counting

end Slots
