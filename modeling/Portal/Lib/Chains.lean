import Mathlib.Data.List.Basic
import Mathlib.Data.List.Nodup
import Mathlib.Tactic.Common

/-!
Singly linked lists in a heap, which gives the node at an address, if there is one. `Linked next h
p l` says that from the pointer `p` one comes through the addresses of `l` to the null pointer.

Walks fail when they run out of steps or come to an address without a node; on a linked list they
do neither (`lastFrom_eq`, `findLink_eq`). `Linked.congr` is the frame rule; `Linked.append` and
`Linked.unlink` are what a store to one link does.
-/

namespace Chains

open List Option

variable {A N : Type*} {next : N → Option A} {h h' : A → Option N}

/-- From `p` through the addresses of the list to the null pointer. -/
inductive Linked (next : N → Option A) (h : A → Option N) : Option A → List A → Prop where
  | nil : Linked next h none []
  | cons {a : A} {n : N} {l : List A} :
      h a = some n → Linked next h (next n) l → Linked next h (some a) (a :: l)

variable {p : Option A} {l₁ l₂ : List A} {l : List A}

theorem Linked.head (hl : Linked next h p l) : p = l.head? := by
  cases hl <;> rfl

/-- There is only one list behind a pointer. -/
theorem Linked.unique {l l' : List A} (hl : Linked next h p l)
    (hl' : Linked next h p l') : l = l' := by
  induction hl generalizing l' with
  | nil =>
    cases hl'
    rfl
  | cons ha _ ih =>
    cases hl' with
    | cons ha' hl' =>
      rw [ha] at ha'
      cases ha'
      rw [ih hl']

theorem Linked.node (hl : Linked next h p l) {a : A} (ha : a ∈ l) :
    ∃ n, h a = some n := by
  induction hl with
  | nil => cases ha
  | cons hn _ ih =>
    rcases mem_cons.mp ha with rfl | ha
    · exact ⟨_, hn⟩
    · exact ih ha

/-- What comes behind a node. -/
theorem Linked.behind {a : A}
    (hl : Linked next h p (l₁ ++ a :: l₂)) : Linked next h (some a) (a :: l₂) := by
  induction l₁ generalizing p with
  | nil =>
    have hp := hl.head
    rw [nil_append, head?_cons] at hp
    exact hp ▸ hl
  | cons b l₁ ih =>
    cases hl with
    | cons _ hl => exact ih hl

/-- No node is passed twice. -/
theorem Linked.nodup (hl : Linked next h p l) : l.Nodup := by
  induction hl with
  | nil => exact nodup_nil
  | cons ha hl ih =>
    refine nodup_cons.mpr ⟨fun hmem => ?_, ih⟩
    obtain ⟨l₁, l₂, rfl⟩ := append_of_mem hmem
    have heq := (List.cons.inj ((Linked.cons ha hl).unique hl.behind)).2
    have hlen := congrArg List.length heq
    simp only [length_append, length_cons] at hlen
    omega

/-- Only the links of the nodes on the list count. -/
theorem Linked.congr (hl : Linked next h p l)
    (hsame : ∀ a ∈ l, (h' a).map next = (h a).map next) : Linked next h' p l := by
  induction hl with
  | nil => exact .nil
  | cons ha _ ih =>
    obtain ⟨hhead, hrest⟩ := forall_mem_cons.mp hsame
    rw [ha] at hhead
    obtain ⟨n', hn', hnext⟩ := map_eq_some_iff.mp hhead
    exact .cons hn' (hnext ▸ ih hrest)

/-- The link of the last node, or the pointer itself, is set to a new last node. -/
theorem Linked.append {r : A} (hl : Linked next h p l)
    (hlast : ∀ a, l.getLast? = some a → (h' a).map next = some (some r))
    (hrest : ∀ a ∈ l, l.getLast? ≠ some a → (h' a).map next = (h a).map next)
    (hr : (h' r).map next = some none) : Linked next h' (p.or (some r)) (l ++ [r]) := by
  obtain ⟨m, hm, hnone⟩ := map_eq_some_iff.mp hr
  have hend : Linked next h' (some r) [r] := .cons hm (hnone ▸ .nil)
  induction hl with
  | nil => exact hend
  | @cons a n l ha hl ih =>
    cases l with
    | nil =>
      obtain ⟨n', hn', hnext⟩ := map_eq_some_iff.mp (hlast a rfl)
      exact .cons hn' (hnext ▸ hend)
    | cons b l =>
      have hnd := (Linked.cons ha hl).nodup
      have hne : (b :: l).getLast? ≠ some a := fun heq =>
        (nodup_cons.mp hnd).1 (mem_of_getLast? heq)
      have hkeep := hrest a mem_cons_self hne
      rw [ha] at hkeep
      obtain ⟨n', hn', hnext⟩ := map_eq_some_iff.mp hkeep
      have hb : next n = some b := hl.head
      have hrec := ih hlast fun c hc hcl => hrest c (mem_cons_of_mem a hc) hcl
      rw [hb, Option.some_or] at hrec
      exact .cons hn' (hnext ▸ hb ▸ hrec)

/-- The link in front of a node, or the pointer itself, is set to what comes behind it. -/
theorem Linked.unlink {r : A} {n : N}
    (hl : Linked next h p (l₁ ++ r :: l₂)) (hr : h r = some n)
    (howner : ∀ a, l₁.getLast? = some a → (h' a).map next = some (next n))
    (hrest : ∀ a ∈ l₁ ++ l₂, l₁.getLast? ≠ some a → (h' a).map next = (h a).map next) :
    Linked next h' (if l₁ = [] then next n else p) (l₁ ++ l₂) := by
  induction l₁ generalizing p with
  | nil =>
    rw [if_pos rfl]
    cases hl with
    | cons ha hl =>
      rw [hr] at ha
      cases ha
      exact hl.congr fun a ha => hrest a ha (by simp)
  | cons a l₁ ih =>
    rw [if_neg (cons_ne_nil a l₁)]
    have hnd := hl.nodup
    cases hl with
    | @cons _ m _ ha hl =>
      cases l₁ with
      | nil =>
        obtain ⟨m', hm', hnext⟩ := map_eq_some_iff.mp (howner a rfl)
        have hrec := ih hl (by simp) fun b hb _ =>
          hrest b (mem_cons_of_mem a hb) fun heq => by
            cases heq
            exact (nodup_cons.mp hnd).1 (mem_append_right _ (mem_cons_of_mem r hb))
        rw [if_pos rfl] at hrec
        exact .cons hm' (hnext ▸ hrec)
      | cons b l₁ =>
        have hne : (b :: l₁).getLast? ≠ some a := fun heq =>
          (nodup_cons.mp hnd).1 (mem_append_left _ (mem_of_getLast? heq))
        have hkeep := hrest a mem_cons_self hne
        rw [ha] at hkeep
        obtain ⟨m', hm', hnext⟩ := map_eq_some_iff.mp hkeep
        have hrec := ih hl howner fun c hc hcl => hrest c (mem_cons_of_mem a hc) hcl
        rw [if_neg (cons_ne_nil b l₁)] at hrec
        exact .cons hm' (hnext ▸ hrec)

/-! ### Walks -/

/-- `while (p && p->next) p = p->next;` -/
def lastFrom (next : N → Option A) (h : A → Option N) : Nat → Option A → Option (Option A)
  | 0, _ => none
  | _ + 1, none => some none
  | fuel + 1, some a => (h a).bind fun n =>
    if (next n).isNone then some (some a) else lastFrom next h fuel (next n)

/-- `while (*link && *link != r) link = &(*link)->next;` The result is the node whose link it is,
or `none` for the pointer one starts from; there is none if `r` is not found. -/
def findLink [DecidableEq A] (next : N → Option A) (h : A → Option N) (r : A) :
    Nat → Option A → Option A → Option (Option (Option A))
  | 0, _, _ => none
  | _ + 1, _, none => some none
  | fuel + 1, owner, some a =>
    if a = r then some (some owner)
    else (h a).bind fun n => findLink next h r fuel (some a) (next n)

theorem lastFrom_eq (hl : Linked next h p l) {fuel : Nat}
    (hfuel : l.length < fuel) : lastFrom next h fuel p = some l.getLast? := by
  induction hl generalizing fuel with
  | nil =>
    obtain ⟨fuel, rfl⟩ := Nat.exists_eq_succ_of_ne_zero (Nat.ne_zero_of_lt hfuel)
    rfl
  | @cons a n l ha hl ih =>
    obtain ⟨fuel, rfl⟩ := Nat.exists_eq_succ_of_ne_zero (Nat.ne_zero_of_lt hfuel)
    rw [lastFrom, ha, bind_some]
    have hnext := hl.head
    cases l with
    | nil =>
      rw [hnext]
      rfl
    | cons b l =>
      rw [ih (Nat.lt_of_succ_lt_succ hfuel), hnext]
      rfl

theorem findLink_eq [DecidableEq A] {p : Option A} {l₁ l₂ : List A} {r : A}
    (hl : Linked next h p (l₁ ++ r :: l₂)) {fuel : Nat}
    (hfuel : (l₁ ++ r :: l₂).length < fuel) (owner : Option A) :
    findLink next h r fuel owner p = some (some (l₁.getLast?.or owner)) := by
  obtain ⟨fuel, rfl⟩ := Nat.exists_eq_succ_of_ne_zero (Nat.ne_zero_of_lt hfuel)
  induction l₁ generalizing p owner fuel with
  | nil =>
    cases hl
    simp [findLink]
  | cons a l₁ ih =>
    have hnd := hl.nodup
    cases hl with
    | cons ha hl =>
      have hne : a ≠ r := by
        rintro rfl
        exact (nodup_cons.mp hnd).1 (mem_append_right _ mem_cons_self)
      have hfuel' := Nat.lt_of_succ_lt_succ hfuel
      obtain ⟨fuel, rfl⟩ := Nat.exists_eq_succ_of_ne_zero (Nat.ne_zero_of_lt hfuel')
      rw [findLink, if_neg hne, ha, bind_some, ih hl (some a) fuel hfuel']
      cases l₁ with
      | nil => rfl
      | cons b l₁ => simp [getLast?_cons]

end Chains
