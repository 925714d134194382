import Mathlib.Algebra.Group.Nat.Defs
import Mathlib.Algebra.Ring.Int.Defs
import Mathlib.Data.List.TakeWhile

/-!
Bytes and C strings. A block of memory is a list of bytes; `strlen`, `strcmp` and `strdup` see the
part before its first NUL, `cText`. A `CStr` is such a part, so two of them are equal exactly when
`strcmp` returns 0.
-/

namespace Portal

open List

abbrev Bytes := List UInt8

/-- The C string stored at the start of a block: everything before the first NUL. -/
def cText (b : Bytes) : Bytes := b.takeWhile (· != 0)

/-- A C string: no byte of it is NUL. -/
structure CStr where
  bytes : Bytes
  nulFree : (0 : UInt8) ∉ bytes
deriving DecidableEq

theorem nul_notMem_cText (b : Bytes) : (0 : UInt8) ∉ cText b := by
  intro h
  simpa using mem_takeWhile_imp h

def CStr.ofBytes (b : Bytes) : CStr := ⟨cText b, nul_notMem_cText b⟩

def CStr.lit (s : String) : CStr := .ofBytes (s.toList.map fun c => UInt8.ofNat c.toNat)

theorem lit_ofList (l : List Char) :
    CStr.lit (String.ofList l) = .ofBytes (l.map fun c => UInt8.ofNat c.toNat) := by
  rw [CStr.lit, String.toList_ofList]

theorem lit_ne_lit {l l' : List Char} (h : cText (l.map fun c => UInt8.ofNat c.toNat) ≠
    cText (l'.map fun c => UInt8.ofNat c.toNat)) :
    CStr.lit (String.ofList l) ≠ CStr.lit (String.ofList l') := by
  rw [lit_ofList, lit_ofList]
  exact fun heq => h (congrArg CStr.bytes heq)

def strlen (b : Bytes) : Nat := (cText b).length

/-- `snprintf(dst, n + 1, "%s", s)`: at most `n` bytes are kept. -/
def CStr.truncate (n : Nat) (s : CStr) : CStr :=
  ⟨s.bytes.take n, fun h => s.nulFree (List.mem_of_mem_take h)⟩

def CStr.drop (n : Nat) (s : CStr) : CStr :=
  ⟨s.bytes.drop n, fun h => s.nulFree (List.mem_of_mem_drop h)⟩

theorem nul_notMem_append (s t : CStr) : (0 : UInt8) ∉ s.bytes ++ t.bytes := by
  rw [mem_append]
  rintro (h | h)
  · exact s.nulFree h
  · exact t.nulFree h

def CStr.append (s t : CStr) : CStr := ⟨s.bytes ++ t.bytes, nul_notMem_append s t⟩

def CStr.concat (ss : List CStr) : CStr := ss.foldr CStr.append (.lit "")

theorem cText_eq_self {b : Bytes} (h : (0 : UInt8) ∉ b) : cText b = b := by
  rw [cText, takeWhile_eq_self_iff]
  intro x hx
  simp only [bne_iff_ne, ne_eq]
  rintro rfl
  exact h hx

theorem cText_append_of_mem {a : Bytes} (h : (0 : UInt8) ∈ a) (z : Bytes) :
    cText (a ++ z) = cText a := by
  rw [cText, cText, takeWhile_append, if_neg]
  intro hlen
  have hall := takeWhile_eq_self_iff.mp (( takeWhile_prefix _).eq_of_length hlen) 0 h
  exact absurd hall (by decide)

theorem cText_append_of_notMem {a : Bytes} (h : (0 : UInt8) ∉ a) (z : Bytes) :
    cText (a ++ z) = a ++ cText z := by
  rw [cText, takeWhile_append_of_pos]
  · rfl
  intro b hb
  simp only [bne_iff_ne, ne_eq]
  rintro rfl
  exact h hb

theorem CStr.ext_bytes {s t : CStr} (h : s.bytes = t.bytes) : s = t := by
  cases s
  cases t
  simpa using h

theorem CStr.ofBytes_bytes (s : CStr) : CStr.ofBytes s.bytes = s := by
  cases s with
  | mk bytes nulFree => simp [CStr.ofBytes, cText_eq_self nulFree]

theorem strlen_eq_length {b : Bytes} (h : (0 : UInt8) ∉ b) : strlen b = b.length := by
  rw [strlen, cText_eq_self h]

theorem idxOf?_append_cons {α : Type*} [DecidableEq α] {mark : α} {l : List α} (h : mark ∉ l)
    (rest : List α) : (l ++ mark :: rest).idxOf? mark = some l.length := by
  have hnone : l.findIdx? (· == mark) = none :=
    findIdx?_eq_none_iff.mpr fun b hb => beq_false_of_ne fun heq => h (heq ▸ hb)
  rw [List.idxOf?, List.findIdx?_append, hnone, List.findIdx?_cons, beq_self_eq_true]
  simp

theorem CStr.truncate_eq_self {n : Nat} {s : CStr} (h : s.bytes.length ≤ n) :
    s.truncate n = s := by
  cases s
  simp [CStr.truncate, take_of_length_le h]

/-! ### `%d` -/

def decimalDigits (n : Nat) : Bytes := (Nat.toDigits 10 n).map fun c => UInt8.ofNat c.toNat

theorem toNat_of_mem_toDigits {n : Nat} {c : Char} (h : c ∈ Nat.toDigits 10 n) :
    48 ≤ c.toNat ∧ c.toNat ≤ 57 := by
  have hdigit := Nat.isDigit_of_mem_toDigits (by decide) (by decide) h
  exact Char.isDigit_iff_toNat.mp hdigit

theorem mem_decimalDigits {n : Nat} {b : UInt8} (h : b ∈ decimalDigits n) :
    48 ≤ b.toNat ∧ b.toNat ≤ 57 := by
  obtain ⟨c, hc, rfl⟩ := mem_map.mp h
  have hdigit := toNat_of_mem_toDigits hc
  rw [UInt8.toNat_ofNat', Nat.mod_eq_of_lt (by omega)]
  exact hdigit

theorem decimalDigits_injective : Function.Injective decimalDigits := by
  intro m n h
  have hchars : ∀ k, (decimalDigits k).map (fun b => Char.ofNat b.toNat) = Nat.toDigits 10 k := by
    intro k
    have hback : ∀ c ∈ Nat.toDigits 10 k, Char.ofNat (UInt8.ofNat c.toNat).toNat = c := by
      intro c hc
      have hdigit := toNat_of_mem_toDigits hc
      rw [UInt8.toNat_ofNat', Nat.mod_eq_of_lt (by omega)]
      exact Char.ofNat_toNat c
    rw [decimalDigits, map_map]
    exact (map_congr_left hback).trans (map_id _)
  have hm := Nat.ofDigitChars_toDigits (b := 10) (n := m) (by decide) (by decide)
  rw [← hchars, h, hchars, Nat.ofDigitChars_toDigits (by decide) (by decide)] at hm
  exact hm.symm

def decimalBytes (i : Int) : Bytes :=
  if i < 0 then 45 :: decimalDigits i.natAbs else decimalDigits i.natAbs

theorem nul_notMem_decimalBytes (i : Int) : (0 : UInt8) ∉ decimalBytes i := by
  have hdigits : ∀ n, (0 : UInt8) ∉ decimalDigits n := by
    intro n h
    have := mem_decimalDigits h
    simp at this
  unfold decimalBytes
  split
  · simp [hdigits]
  · exact hdigits _

def CStr.ofInt (i : Int) : CStr := ⟨decimalBytes i, nul_notMem_decimalBytes i⟩

theorem decimalBytes_injective : Function.Injective decimalBytes := by
  -- a minus sign is not a digit
  have hsign : ∀ m n, 45 :: decimalDigits m ≠ decimalDigits n := by
    intro m n h
    have := mem_decimalDigits (n := n) (b := 45) (by simp [← h])
    simp at this
  intro i j h
  unfold decimalBytes at h
  split at h <;> split at h
  · have := decimalDigits_injective (List.cons.inj h).2
    omega
  · exact absurd h (hsign _ _)
  · exact absurd h.symm (hsign _ _)
  · have := decimalDigits_injective h
    omega

theorem length_decimalBytes_le {i : Int} (h : i.natAbs < 10 ^ 10) :
    (decimalBytes i).length ≤ 11 := by
  have hlen : (decimalDigits i.natAbs).length ≤ 10 := by
    rw [decimalDigits, length_map]
    exact (Nat.length_toDigits_le_iff (by decide) (by decide)).mpr h
  unfold decimalBytes
  split
  · rw [length_cons]
    omega
  · omega

/-- `strstr`, as an offset. -/
def strstr (pat : Bytes) : Bytes → Option Nat
  | [] => if pat = [] then some 0 else none
  | c :: s => if pat <+: c :: s then some 0 else (strstr pat s).map (· + 1)

def padTo (n : Nat) (s : Bytes) : Bytes := s ++ List.replicate (n - s.length) 32

def isSpace (c : UInt8) : Bool := c = 32 || (9 ≤ c && c ≤ 13)
def isDigit (c : UInt8) : Bool := 48 ≤ c && c ≤ 57

/-- `strtol(s, NULL, 10)`: saturates at the bounds of a 64-bit `long`. -/
def strtol (s : Bytes) : Int :=
  let s := s.dropWhile isSpace
  let digits := fun (t : Bytes) =>
    (t.takeWhile isDigit).foldl (fun (n : Nat) d => n * 10 + (d.toNat - 48)) 0
  match s with
  | 45 :: t => max (-(2 ^ 63)) (-(digits t : Int))
  | 43 :: t => min (2 ^ 63 - 1) (digits t : Int)
  | t => min (2 ^ 63 - 1) (digits t : Int)

/-- `atoi`: the low 32 bits of it, as an `int`. -/
def atoi (s : Bytes) : Int := (strtol (cText s)).bmod (2 ^ 32)

/-- `%ns`: the word, and what follows it. -/
def scanWord (n : Nat) (s : Bytes) : Option (CStr × Bytes) :=
  let s := s.dropWhile isSpace
  let word := (s.takeWhile fun c => !isSpace c).take n
  if word = [] then none else some (.ofBytes word, s.drop word.length)

end Portal
