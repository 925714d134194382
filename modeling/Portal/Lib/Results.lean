import Mathlib.Tactic.Common

/-!
Computations that may stop without a result. `Returns P x` is the postcondition `P` of `x`, with
one rule for each way in which a computation is put together. `Ends P x` says of a computation that
can stop with an error that it does not, and that its result satisfies `P`.
-/

namespace Results

open List

variable {α β : Type*} {P Q : α → Prop}

def Returns (P : α → Prop) (x : Option α) : Prop := ∀ a, x = some a → P a

@[simp] theorem returns_none : Returns P none := fun _ h => nomatch h

@[simp] theorem returns_some {a : α} : Returns P (some a) ↔ P a :=
  ⟨fun h => h a rfl, fun h _ ha => Option.some.inj ha ▸ h⟩

theorem returns_bind {x : Option β} {f : β → Option α}
    (h : ∀ b, x = some b → Returns P (f b)) : Returns P (x.bind f) := by
  cases x with
  | none => exact returns_none
  | some b => exact h b rfl

theorem returns_ite {c : Prop} [Decidable c] {x y : Option α} (hx : c → Returns P x)
    (hy : ¬ c → Returns P y) : Returns P (if c then x else y) := by
  split
  · exact hx ‹c›
  · exact hy ‹¬ c›

/-- A test whose outcome does not matter. -/
theorem returns_either {c : Prop} [Decidable c] {x y : Option α} (hx : Returns P x)
    (hy : Returns P y) : Returns P (if c then x else y) :=
  returns_ite (fun _ => hx) fun _ => hy

/-- A test that ends the computation or lets it go on. -/
theorem returns_branch {c : Prop} [Decidable c] {a : α} {y : Option α} (ha : P a)
    (hy : Returns P y) : Returns P (if c then some a else y) :=
  returns_either (returns_some.mpr ha) hy

theorem returns_dite {c : Prop} [Decidable c] {x : c → Option α} {y : ¬ c → Option α}
    (hx : ∀ h, Returns P (x h)) (hy : ∀ h, Returns P (y h)) :
    Returns P (if h : c then x h else y h) := by
  split
  · exact hx ‹c›
  · exact hy ‹¬ c›

theorem Returns.mono {x : Option α} (h : Returns P x) (hpq : ∀ a, P a → Q a) : Returns Q x :=
  fun a ha => hpq a (h a ha)

/-! ### Computations that reach a result -/

section Errors

universe u

variable {ε : Type*} {α β : Type u} {P Q : α → Prop} {x : Except ε α}

/-- There is a result, and it satisfies the postcondition. -/
def Ends (P : α → Prop) (x : Except ε α) : Prop := ∃ a, x = .ok a ∧ P a

theorem ends_ok {a : α} (h : P a) : Ends P (.ok a : Except ε α) := ⟨a, rfl, h⟩

theorem Ends.mono (h : Ends P x) (hpq : ∀ a, P a → Q a) : Ends Q x := by
  obtain ⟨a, ha, hp⟩ := h
  exact ⟨a, ha, hpq a hp⟩

theorem Ends.bind {f : α → Except ε β} {R : β → Prop} (h : Ends P x)
    (hf : ∀ a, P a → Ends R (f a)) : Ends R (x >>= f) := by
  obtain ⟨a, rfl, hp⟩ := h
  exact hf a hp

/-- The rule for a loop over a list. -/
theorem ends_foldlM {f : α → β → Except ε α} {l : List β}
    (hstep : ∀ a, ∀ b ∈ l, P a → Ends P (f a b)) {a : α} (ha : P a) :
    Ends P (l.foldlM f a) := by
  induction l generalizing a with
  | nil => exact ends_ok ha
  | cons b l ih =>
    rw [foldlM_cons]
    exact (hstep a b mem_cons_self ha).bind fun a' ha' =>
      ih (fun a b hb => hstep a b (mem_cons_of_mem _ hb)) ha'

/-- A loop with one more round. -/
theorem foldlM_concat {f : α → β → Except ε α} {a b : α} {l : List β}
    (h : l.foldlM f a = .ok b) (x : β) : (l ++ [x]).foldlM f a = f b x := by
  rw [foldlM_append, h]
  exact bind_pure (f b x)

/-- The rule for a loop over the numbers below a bound, with an invariant that counts. -/
theorem ends_foldlM_range {f : α → Nat → Except ε α} {I : Nat → α → Prop}
    (hstep : ∀ i a, I i a → Ends (I (i + 1)) (f a i)) {a : α} (ha : I 0 a) (n : Nat) :
    Ends (I n) ((List.range n).foldlM f a) := by
  induction n with
  | zero => exact ends_ok ha
  | succ n ih =>
    rw [range_succ, foldlM_append]
    refine ih.bind fun a' ha' => ?_
    rw [foldlM_cons]
    exact (hstep n a' ha').bind fun b hb => ends_ok hb

end Errors

end Results
