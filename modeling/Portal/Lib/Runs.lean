import Mathlib.Data.List.Basic
import Mathlib.Data.List.Induction
import Mathlib.Tactic.Common

/-!
Runs of a deterministic machine. `Along step C s es` says that every event of `es` meets `C` in the
state in which it happens; `Along.invariant` is the rule for what such runs preserve,
`along_iff_forall` the rule for what holds in no others.
-/

namespace Runs

open List

variable {S E : Type*} {step : S → E → S} {C D : S → E → Prop}

def run (step : S → E → S) (s : S) (es : List E) : S := es.foldl step s

/-- Every event meets the condition in the state in which it happens. -/
def Along (step : S → E → S) (C : S → E → Prop) : S → List E → Prop
  | _, [] => True
  | s, e :: es => C s e ∧ Along step C (step s e) es

instance Along.decidable [∀ s e, Decidable (C s e)] :
    (s : S) → (es : List E) → Decidable (Along step C s es)
  | _, [] => .isTrue trivial
  | s, e :: es => @instDecidableAnd _ _ _ (Along.decidable (step s e) es)

@[simp] theorem run_nil (s : S) : run step s [] = s := rfl

@[simp] theorem run_cons (s : S) (e : E) (es : List E) :
    run step s (e :: es) = run step (step s e) es := rfl

theorem run_append (s : S) (es fs : List E) :
    run step s (es ++ fs) = run step (run step s es) fs := foldl_append

@[simp] theorem along_nil (s : S) : Along step C s [] := trivial

@[simp] theorem along_cons (s : S) (e : E) (es : List E) :
    Along step C s (e :: es) ↔ C s e ∧ Along step C (step s e) es := Iff.rfl

theorem along_append (s : S) (es fs : List E) :
    Along step C s (es ++ fs) ↔ Along step C s es ∧ Along step C (run step s es) fs := by
  induction es generalizing s with
  | nil => simp
  | cons e es ih => simp [ih, and_assoc]

variable {es : List E} {Inv : S → Prop}

/-- Events that meet the condition in every state. -/
theorem along_of_forall (h : ∀ e ∈ es, ∀ s, C s e) (s : S) : Along step C s es := by
  induction es generalizing s with
  | nil => exact trivial
  | cons e es ih =>
    exact ⟨h e mem_cons_self s, ih (fun e' he' => h e' (mem_cons_of_mem e he')) _⟩

theorem Along.and {s : S} (h : Along step C s es) (h' : Along step D s es) :
    Along step (fun s e => C s e ∧ D s e) s es := by
  induction es generalizing s with
  | nil => exact trivial
  | cons e es ih => exact ⟨⟨h.1, h'.1⟩, ih h.2 h'.2⟩

/-- What every step preserves holds after every run. -/
theorem run_invariant (hstep : ∀ s e, Inv s → Inv (step s e)) {s : S}
    (hinit : Inv s) (es : List E) : Inv (run step s es) := by
  induction es generalizing s with
  | nil => exact hinit
  | cons e es ih => exact ih (hstep s e hinit)

/-- Two conditions that are the same wherever the invariant holds. -/
theorem along_congr (hstep : ∀ s e, Inv s → Inv (step s e))
    (hiff : ∀ s e, Inv s → (C s e ↔ D s e)) {s : S} (hinit : Inv s) (es : List E) :
    Along step C s es ↔ Along step D s es := by
  induction es generalizing s with
  | nil => exact Iff.rfl
  | cons e es ih => exact and_congr (hiff s e hinit) (ih (hstep s e hinit))

/-- What every permitted step preserves holds after every permitted run. -/
theorem Along.invariant (hstep : ∀ s e, Inv s → C s e → Inv (step s e))
    {s : S} (hinit : Inv s) (h : Along step C s es) : Inv (run step s es) := by
  induction es generalizing s with
  | nil => exact hinit
  | cons e es ih => exact ih (hstep s e hinit h.1) h.2

/-- A property holds in every state of a run exactly when every step meets the condition, if
such steps keep an invariant that has the property, and any other step loses it. -/
theorem along_iff_forall {Inv P : S → Prop} (hP : ∀ s, Inv s → P s)
    (hstep : ∀ s e, Inv s → D s e → C s e → Inv (step s e))
    (hloses : ∀ s e, Inv s → D s e → P (step s e) → C s e) {s : S} (hinit : Inv s)
    (hrun : Along step D s es) :
    (∀ es', es' <+: es → P (run step s es')) ↔ Along step C s es := by
  have hinv : ∀ {es}, Along step D s es → Along step C s es → Inv (run step s es) :=
    fun hD hC => (hD.and hC).invariant (fun s e hs hc => hstep s e hs hc.1 hc.2) hinit
  constructor
  · -- by induction on the run: up to the first step that does not meet it, the invariant holds
    intro hall
    induction es using reverseRecOn with
    | nil => exact along_nil s
    | append_singleton es e ih =>
      obtain ⟨hbefore, hlast, -⟩ := (along_append s es [e]).mp hrun
      have hC := ih hbefore fun es' hpre => hall es' (hpre.trans (prefix_append es [e]))
      have hend := hall (es ++ [e]) prefix_rfl
      rw [run_append] at hend
      exact (along_append s es [e]).mpr ⟨hC, hloses _ e (hinv hbefore hC) hlast hend, trivial⟩
  · rintro hC es' ⟨rest, rfl⟩
    exact hP _ (hinv ((along_append s es' rest).mp hrun).1 ((along_append s es' rest).mp hC).1)

/-- Where an event of a list stands after one more event: it is the last, or it stands
where it did. -/
theorem append_singleton_eq_split {es before after : List E} {e x : E} :
    es ++ [e] = before ++ x :: after ↔ before = es ∧ x = e ∧ after = [] ∨
      ∃ after', after = after' ++ [e] ∧ es = before ++ x :: after' := by
  constructor
  · intro h
    rcases eq_nil_or_concat' after with rfl | ⟨after', last, rfl⟩
    · obtain ⟨rfl, hlast⟩ := append_inj' h rfl
      exact .inl ⟨rfl, (List.cons.inj hlast).1.symm, rfl⟩
    · rw [← cons_append, ← append_assoc] at h
      obtain ⟨rfl, hlast⟩ := append_inj' h rfl
      obtain rfl := (List.cons.inj hlast).1
      exact .inr ⟨after', rfl, rfl⟩
  · rintro (⟨rfl, rfl, rfl⟩ | ⟨after', rfl, rfl⟩)
    · rfl
    · simp

end Runs
