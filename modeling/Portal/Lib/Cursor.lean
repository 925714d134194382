import Mathlib.Data.List.Induction
import Mathlib.Data.List.TakeDrop
import Mathlib.Data.Nat.Bitwise
import Mathlib.Tactic.Ring

/-!
Big-endian words, and reading a byte buffer through a moving pointer. A reader fills in an output
as it goes, and what it had written stays when it stops early. Stopping at a bounds check
(`reject`) is told apart from reading past the end (`overread`).

`Reads r bs a out out'` specifies a reader on the bytes it should consume: whatever follows `bs`,
`r` returns `a`, leaves the pointer behind `bs` and turns `out` into `out'`. There is one rule for
each way of composing readers and one for each primitive.

`Meets r s Q E` is the converse, a weakest precondition over any buffer. Its rules name the bytes a
read consumed, so that a proof about a decoder collects the shape of what it accepted.
-/

namespace Cursor

open List

variable {n : Nat} {bs : List UInt8}

/-! ### Big-endian words -/

/-- The low `k` bytes of `n`, the most significant one first. -/
def beEncode (k n : Nat) : List UInt8 :=
  (List.range k).reverse.map fun i => UInt8.ofNat (n >>> (8 * i))

def beDecode (bs : List UInt8) : Nat := bs.foldl (fun v b => (v <<< 8) ||| b.toNat) 0

@[simp] theorem length_beEncode (k n : Nat) : (beEncode k n).length = k := by
  simp [beEncode]

theorem beEncode_succ (k n : Nat) :
    beEncode (k + 1) n = UInt8.ofNat (n >>> (8 * k)) :: beEncode k n := by
  simp [beEncode, range_succ]

/-- One step of the decoding loop, as arithmetic. -/
theorem shift_or_byte (v : Nat) (b : UInt8) : (v <<< 8) ||| b.toNat = v * 256 + b.toNat := by
  rw [← Nat.shiftLeft_add_eq_or_of_lt (by exact b.toNat_lt), Nat.shiftLeft_eq]

/-- Decoding the encoded bytes behind an accumulator `v` appends the low `k` bytes of
`n` to it. -/
theorem foldl_beEncode (k n v : Nat) :
    (beEncode k n).foldl (fun v b => (v <<< 8) ||| b.toNat) v = v * 256 ^ k + n % 256 ^ k := by
  induction k generalizing v with
  | zero => simp [beEncode, Nat.mod_one]
  | succ k ih =>
    have hbyte : (UInt8.ofNat (n >>> (8 * k))).toNat = n / 256 ^ k % 256 := by
      rw [UInt8.toNat_ofNat', Nat.shiftRight_eq_div_pow, pow_mul]
      norm_num
    rw [beEncode_succ, foldl_cons, ih, shift_or_byte, hbyte, pow_succ, Nat.mod_mul]
    ring

theorem beDecode_beEncode (k n : Nat) : beDecode (beEncode k n) = n % 256 ^ k := by
  rw [beDecode, foldl_beEncode, zero_mul, zero_add]

theorem beDecode_beEncode_of_lt {k : Nat} (h : n < 256 ^ k) : beDecode (beEncode k n) = n := by
  rw [beDecode_beEncode, Nat.mod_eq_of_lt h]

theorem beDecode_append_singleton (bs : List UInt8) (b : UInt8) :
    beDecode (bs ++ [b]) = beDecode bs * 256 + b.toNat := by
  rw [beDecode, foldl_append, foldl_cons, foldl_nil, shift_or_byte, beDecode]

theorem beDecode_lt (bs : List UInt8) : beDecode bs < 256 ^ bs.length := by
  induction bs using reverseRecOn with
  | nil => exact Nat.one_pos
  | append_singleton bs b ih =>
    have hb : b.toNat < 256 := b.toNat_lt
    rw [beDecode_append_singleton, length_append, length_singleton, pow_succ]
    omega

/-- Appending a byte to a word appends it to the encoding. -/
theorem beEncode_mul_add (k n : Nat) (b : UInt8) :
    beEncode (k + 1) (n * 256 + b.toNat) = beEncode k n ++ [b] := by
  have hb : b.toNat < 256 := b.toNat_lt
  have hhigh : (n * 256 + b.toNat) / 256 = n := by omega
  induction k with
  | zero =>
    rw [beEncode_succ]
    simp only [beEncode, range_zero, reverse_nil, map_nil, nil_append,
      mul_zero, Nat.shiftRight_zero, List.cons.injEq, and_true]
    refine UInt8.toNat_inj.mp ?_
    rw [UInt8.toNat_ofNat']
    omega
  | succ k ih =>
    have hshift : (n * 256 + b.toNat) >>> (8 * (k + 1)) = n >>> (8 * k) := by
      have hbits : 8 * (k + 1) = 8 + 8 * k := by ring
      rw [hbits, Nat.shiftRight_add, Nat.shiftRight_eq_div_pow _ 8]
      exact congrArg (· >>> (8 * k)) hhigh
    rw [beEncode_succ (k + 1), ih, beEncode_succ k, hshift, cons_append]

/-- Any bytes are the encoding of the word they decode to. -/
theorem beEncode_beDecode {k : Nat} (h : bs.length = k) : beEncode k (beDecode bs) = bs := by
  subst h
  induction bs using reverseRecOn with
  | nil => rfl
  | append_singleton bs b ih =>
    rw [beDecode_append_singleton, length_append, length_singleton, beEncode_mul_add, ih]

/-! ### Readers -/

inductive Halt where
  | reject    -- an explicit error return
  | overread  -- a read past the end of the buffer
deriving DecidableEq

structure State (σ : Type) where
  rest : List UInt8  -- from the pointer to the end of the buffer
  out : σ

def Reader (σ α : Type) := State σ → Except Halt α × State σ

instance {σ : Type} : Monad (Reader σ) where
  pure a := fun s => (.ok a, s)
  bind r f := fun s =>
    match r s with
    | (.ok a, s') => f a s'
    | (.error e, s') => (.error e, s')

section Primitives

variable {σ α : Type}

def reject : Reader σ α := fun s => (.error .reject, s)

/-- `if (p + n > end) return -1;` -/
def check (n : Nat) : Reader σ Unit := fun s =>
  if s.rest.length < n then (.error .reject, s) else (.ok (), s)

def peek (n : Nat) : Reader σ (List UInt8) := fun s =>
  if s.rest.length < n then (.error .overread, s) else (.ok (s.rest.take n), s)

def take (n : Nat) : Reader σ (List UInt8) := fun s =>
  if s.rest.length < n then (.error .overread, s)
  else (.ok (s.rest.take n), { s with rest := s.rest.drop n })

def word (k : Nat) : Reader σ Nat := do
  let bs ← take k
  pure (beDecode bs)

def modify (f : σ → σ) : Reader σ Unit := fun s => (.ok (), { s with out := f s.out })

/-- `for (i = 0; i < n; i++) body(i)` -/
def forRange : Nat → (Nat → Reader σ Unit) → Reader σ Unit
  | 0, _ => pure ()
  | n + 1, body => do
      forRange n body
      body n

end Primitives

/-! ### What a reader does on the bytes meant for it -/

variable {σ α β : Type}

/-- On `bs`, whatever follows, `r` returns `a`, consumes exactly `bs` and turns the
output `out` into `out'`. -/
def Reads (r : Reader σ α) (bs : List UInt8) (a : α) (out out' : σ) : Prop :=
  ∀ rest, r ⟨bs ++ rest, out⟩ = (.ok a, ⟨rest, out'⟩)

variable {r : Reader σ α} {n : Nat} {bs : List UInt8} {a : α} {out out' : σ}

/-- After a step that reads `bs`, the run goes on behind them. -/
theorem Reads.bind_apply (h : Reads r bs a out out') (f : α → Reader σ β) (rest : List UInt8) :
    (r >>= f) ⟨bs ++ rest, out⟩ = f a ⟨rest, out'⟩ := by
  have hr := h rest
  simp only [Bind.bind, hr]

/-- After a check that passes, the run goes on where it was. -/
theorem check_bind_apply {s : State σ} (hn : n ≤ s.rest.length)
    (f : Unit → Reader σ β) : (check n >>= f) s = f () s := by
  simp only [Bind.bind, check, if_neg (not_lt.mpr hn)]

theorem modify_bind_apply {g : σ → σ} {s : State σ} (f : Unit → Reader σ β) :
    (modify g >>= f) s = f () ⟨s.rest, g s.out⟩ := rfl

/-- The run on a buffer that holds `bs` and nothing else. -/
theorem Reads.run_eq (h : Reads r bs a out out') : r ⟨bs, out⟩ = (.ok a, ⟨[], out'⟩) := by
  simpa using h []

theorem Reads.pure (a : α) (out : σ) : Reads (pure a : Reader σ α) [] a out out :=
  fun _ => rfl

theorem Reads.bind {f : α → Reader σ β} {cs : List UInt8} {a : α} {b : β} {out₁ out₂ out₃ : σ}
    (hr : Reads r bs a out₁ out₂) (hf : Reads (f a) cs b out₂ out₃) :
    Reads (r >>= f) (bs ++ cs) b out₁ out₃ := by
  intro rest
  have h₁ := hr (cs ++ rest)
  have h₂ := hf rest
  simp [Bind.bind, h₁, h₂]

/-- A step that consumes nothing before one that consumes `bs`. -/
theorem Reads.bind_nil {f : α → Reader σ β} {a : α} {b : β} {out₁ out₂ out₃ : σ}
    (hr : Reads r [] a out₁ out₂) (hf : Reads (f a) bs b out₂ out₃) :
    Reads (r >>= f) bs b out₁ out₃ := by
  simpa using hr.bind hf

theorem Reads.check (hn : n ≤ bs.length) (hr : Reads r bs a out out') :
    Reads (Cursor.check n >>= fun _ => r) bs a out out' := by
  intro rest
  have hpass : ¬ (bs ++ rest).length < n := by simp; omega
  simp only [Bind.bind, Cursor.check, if_neg hpass, hr rest]

theorem Reads.peek {f : List UInt8 → Reader σ α} {a : α} {out out' : σ} (hn : n ≤ bs.length)
    (hf : Reads (f (bs.take n)) bs a out out') : Reads (Cursor.peek n >>= f) bs a out out' := by
  intro rest
  have hpass : ¬ (bs ++ rest).length < n := by simp; omega
  simp only [Bind.bind, Cursor.peek, if_neg hpass, take_append_of_le_length hn, hf rest]

theorem Reads.take (hn : bs.length = n) (out : σ) :
    Reads (Cursor.take n) bs bs out out := by
  subst hn
  intro rest
  simp [Cursor.take]

theorem Reads.word {k : Nat} (hn : n < 256 ^ k) (out : σ) :
    Reads (Cursor.word k) (beEncode k n) n out out := by
  have h : Reads (Cursor.word k) (beEncode k n ++ []) (beDecode (beEncode k n)) out out :=
    Reads.bind (.take (length_beEncode k n) out) (.pure _ out)
  rwa [append_nil, beDecode_beEncode_of_lt hn] at h

theorem Reads.modify (f : σ → σ) (out : σ) : Reads (Cursor.modify f) [] () out (f out) :=
  fun _ => rfl

/-- The loop rule, for a loop that reads the encodings of a list's items in order:
`inv i` is the output when iteration `i` starts. -/
theorem Reads.forRange {ι : Type} {items : List ι} {body : Nat → Reader σ Unit}
    {enc : ι → List UInt8} (inv : Nat → σ)
    (hbody : ∀ i (h : i < items.length), Reads (body i) (enc items[i]) () (inv i) (inv (i + 1))) :
    Reads (Cursor.forRange items.length body) (items.flatMap enc) () (inv 0)
      (inv items.length) := by
  induction items using reverseRecOn with
  | nil => exact .pure () _
  | append_singleton items x ih =>
    have hfront := ih fun i hi => by
      have := hbody i (by simp; omega)
      rwa [getElem_append_left hi] at this
    have hlast := hbody items.length (by simp)
    rw [getElem_append_right (le_refl _)] at hlast
    simp only [Nat.sub_self, getElem_cons_zero] at hlast
    rw [flatMap_append, flatMap_singleton, length_append, length_singleton]
    exact hfront.bind hlast

/-! ### What a reader does on any bytes -/

/-- Started in `s`, `r` never reads past the end; if it returns, its result and the state
meet `Q`, and if it rejects, the output meets `E`. -/
def Meets (r : Reader σ α) (s : State σ) (Q : α → State σ → Prop) (E : σ → Prop) : Prop :=
  match r s with
  | (.ok a, s') => Q a s'
  | (.error .reject, s') => E s'.out
  | (.error .overread, _) => False

section Rules

variable {r : Reader σ α} {f : α → Reader σ β} {s : State σ} {E : σ → Prop} {Q : α → State σ → Prop}

/-- The two outcomes that are left. -/
theorem Meets.cases (h : Meets r s Q E) :
    (∃ a s', r s = (.ok a, s') ∧ Q a s') ∨ ∃ s', r s = (.error .reject, s') ∧ E s'.out := by
  unfold Meets at h
  split at h
  · rename_i a s' heq
    exact .inl ⟨a, s', heq, h⟩
  · rename_i s' heq
    exact .inr ⟨s', heq, h⟩
  · exact h.elim

theorem Meets.mono {Q Q' : α → State σ → Prop} (h : Meets r s Q E)
    (hQ : ∀ a s', Q a s' → Q' a s') : Meets r s Q' E := by
  unfold Meets at h ⊢
  split at h
  · exact hQ _ _ h
  · exact h
  · exact h

theorem Meets.pure {a : α} (h : Q a s) : Meets (pure a : Reader σ α) s Q E := h

theorem Meets.bind {Q : β → State σ → Prop}
    (h : Meets r s (fun a s' => Meets (f a) s' Q E) E) : Meets (r >>= f) s Q E := by
  unfold Meets at h
  simp only [Meets, Bind.bind]
  cases hr : r s with
  | mk res s' =>
    rw [hr] at h
    cases res with
    | ok a => exact h
    | error e =>
      cases e with
      | reject | overread => exact h

theorem Meets.reject (h : E s.out) : Meets (Cursor.reject : Reader σ α) s Q E := h

theorem Meets.check {Q : Unit → State σ → Prop} (hE : E s.out) (hQ : n ≤ s.rest.length → Q () s) :
    Meets (Cursor.check n) s Q E := by
  unfold Meets Cursor.check
  by_cases hn : s.rest.length < n
  · rw [if_pos hn]
    exact hE
  · rw [if_neg hn]
    exact hQ (Nat.le_of_not_lt hn)

theorem Meets.peek {Q : List UInt8 → State σ → Prop} (hn : n ≤ s.rest.length)
    (hQ : Q (s.rest.take n) s) : Meets (Cursor.peek n) s Q E := by
  unfold Meets Cursor.peek
  rw [if_neg (not_lt.mpr hn)]
  exact hQ

theorem Meets.take {Q : List UInt8 → State σ → Prop} (hn : n ≤ s.rest.length)
    (hQ : ∀ bs rest, bs.length = n → s.rest = bs ++ rest → Q bs ⟨rest, s.out⟩) :
    Meets (Cursor.take n) s Q E := by
  unfold Meets Cursor.take
  rw [if_neg (not_lt.mpr hn)]
  exact hQ _ _ (length_take_of_le hn) (take_append_drop n s.rest).symm

theorem Meets.word {k : Nat} {Q : Nat → State σ → Prop} (hk : k ≤ s.rest.length)
    (hQ : ∀ n rest, n < 256 ^ k → s.rest = beEncode k n ++ rest → Q n ⟨rest, s.out⟩) :
    Meets (Cursor.word k) s Q E := by
  refine .bind (.take hk ?_)
  intro bs rest hlen hrest
  refine .pure (hQ _ rest ?_ ?_)
  · exact hlen ▸ beDecode_lt bs
  · rw [beEncode_beDecode hlen]
    exact hrest

theorem Meets.modify {g : σ → σ} {Q : Unit → State σ → Prop} (hQ : Q () ⟨s.rest, g s.out⟩) :
    Meets (Cursor.modify g) s Q E := hQ

/-- The loop rule: `I i` holds when iteration `i` starts. -/
theorem Meets.forRange {body : Nat → Reader σ Unit} (I : Nat → State σ → Prop) (h0 : I 0 s)
    (hbody : ∀ i < n, ∀ s', I i s' → Meets (body i) s' (fun _ => I (i + 1)) E) :
    Meets (Cursor.forRange n body) s (fun _ => I n) E := by
  induction n with
  | zero => exact h0
  | succ n ih =>
    refine .bind ?_
    refine .mono (ih fun i hi => hbody i (by omega)) ?_
    intro _ s' hI
    exact hbody n (by omega) s' hI

end Rules

end Cursor
