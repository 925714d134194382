import Mathlib.Data.List.Basic
import Mathlib.Tactic.Common

/-!
Assignments one after the other, of which the last one to a key counts.

`assigned k es` is the value that the key `k` has after the assignments `es`.
-/

namespace Assignments

open List

variable {α β : Type*} [DecidableEq α] {k : α} {v : β} {es : List (α × β)}

def assigned (k : α) : List (α × β) → Option β
  | [] => none
  | e :: es => (assigned k es).or (if e.1 = k then some e.2 else none)

theorem assigned_append (k : α) (es fs : List (α × β)) :
    assigned k (es ++ fs) = (assigned k fs).or (assigned k es) := by
  induction es with
  | nil => simp [assigned]
  | cons e es ih => rw [cons_append, assigned, assigned, ih, Option.or_assoc]

@[simp] theorem assigned_singleton (k : α) (e : α × β) :
    assigned k [e] = if e.1 = k then some e.2 else none := rfl

theorem mem_of_assigned (h : assigned k es = some v) : (k, v) ∈ es := by
  induction es with
  | nil => exact nomatch h
  | cons e es ih =>
    rw [assigned, Option.or_eq_some_iff, Option.ite_none_right_eq_some] at h
    rcases h with h | ⟨-, rfl, hv⟩
    · exact mem_cons_of_mem e (ih h)
    · obtain rfl := Option.some.inj hv
      exact mem_cons_self

theorem assigned_eq_none : assigned k es = none ↔ ∀ e ∈ es, e.1 ≠ k := by
  induction es with
  | nil => simp [assigned]
  | cons e es ih => simp [assigned, ih, and_comm]

/-- Of several groups of assignments, only one is about the key. -/
theorem assigned_flatMap_of_unique {ι : Type*} {f : ι → List (α × β)} {l : List ι} {x : ι}
    (hx : x ∈ l) (hothers : ∀ y ∈ l, y ≠ x → assigned k (f y) = none) :
    assigned k (l.flatMap f) = assigned k (f x) := by
  induction l with
  | nil => exact nomatch hx
  | cons y l ih =>
    have htail : assigned k (l.flatMap f) = assigned k (f x) ∨
        x ∉ l ∧ assigned k (l.flatMap f) = none := by
      by_cases hxl : x ∈ l
      · exact .inl (ih hxl fun z hz => hothers z (mem_cons_of_mem y hz))
      · refine .inr ⟨hxl, assigned_eq_none.mpr fun e he => ?_⟩
        obtain ⟨z, hz, hez⟩ := mem_flatMap.mp he
        have hzx : z ≠ x := fun heq => hxl (heq ▸ hz)
        exact assigned_eq_none.mp (hothers z (mem_cons_of_mem y hz) hzx) e hez
    rw [flatMap_cons, assigned_append]
    by_cases hy : y = x
    · rcases htail with h | ⟨-, h⟩ <;> simp [h, hy]
    · rw [hothers y mem_cons_self hy, Option.or_none]
      exact htail.resolve_right fun h => h.1 ((mem_cons.mp hx).resolve_left (Ne.symm hy))

end Assignments
