import Mathlib.Data.List.DropRight
import Mathlib.Data.List.Infix
import Mathlib.Tactic.Common

/-!
Texts that are read line by line into a buffer. `pieces n sep` cuts a text as a loop of `fgets`
does: a piece ends behind a separator, or when it has `n` items (`pieces_line`, `pieces_full`).
`strip p` takes away what satisfies `p` at both ends.
-/

namespace Lines

open List

variable {α : Type*} {s : List α}

section Pieces

variable [DecidableEq α]

/-- The pieces of a text, when the current one holds `acc` and has room for `room` more. -/
def piecesFrom (n : Nat) (sep : α) (room : Nat) (acc : List α) : List α → List (List α)
  | [] => if acc = [] then [] else [acc]
  | a :: s =>
    if a = sep ∨ room ≤ 1 then (acc ++ [a]) :: piecesFrom n sep n [] s
    else piecesFrom n sep (room - 1) (acc ++ [a]) s

def pieces (n : Nat) (sep : α) (s : List α) : List (List α) := piecesFrom n sep n [] s

variable {n : Nat} {sep : α} {line : List α}

/-- Up to the end of the line the current piece grows. -/
theorem piecesFrom_line (hsep : sep ∉ line) {room : Nat}
    (hroom : line.length < room) (acc rest : List α) :
    piecesFrom n sep room acc (line ++ sep :: rest) =
      (acc ++ line ++ [sep]) :: pieces n sep rest := by
  induction line generalizing room acc with
  | nil => simp [piecesFrom, pieces]
  | cons a line ih =>
    obtain ⟨hne, hsep⟩ := not_or.mp (mt mem_cons.mpr hsep)
    rw [length_cons] at hroom
    rw [cons_append, piecesFrom, if_neg (by
      rintro (rfl | hle)
      · exact hne rfl
      · omega), ih hsep (by omega)]
    simp

/-- A line that fits is read as it is. -/
theorem pieces_line (hsep : sep ∉ line) (hfits : line.length < n) (rest : List α) :
    pieces n sep (line ++ sep :: rest) = (line ++ [sep]) :: pieces n sep rest :=
  piecesFrom_line hsep hfits [] rest

theorem piecesFrom_full (hsep : sep ∉ line) {room : Nat}
    (hroom : line.length = room) (hpos : 0 < room) (acc rest : List α) :
    piecesFrom n sep room acc (line ++ rest) = (acc ++ line) :: pieces n sep rest := by
  induction line generalizing room acc with
  | nil =>
    rw [length_nil] at hroom
    omega
  | cons a line ih =>
    obtain ⟨hne, hsep⟩ := not_or.mp (mt mem_cons.mpr hsep)
    rw [length_cons] at hroom
    rw [cons_append, piecesFrom]
    by_cases hlast : room ≤ 1
    · have hnil : line = [] := eq_nil_of_length_eq_zero (by omega)
      rw [if_pos (.inr hlast), hnil]
      rfl
    · rw [if_neg (by
        rintro (rfl | hle)
        · exact hne rfl
        · exact hlast hle), ih hsep (by omega) (by omega)]
      simp

/-- A line that fills the buffer is read without its end, which is then a piece. -/
theorem pieces_full (hsep : sep ∉ line) (hfull : line.length = n) (hpos : 0 < n) (rest : List α) :
    pieces n sep (line ++ sep :: rest) = line :: [sep] :: pieces n sep rest := by
  have hend : pieces n sep ([] ++ sep :: rest) = ([] ++ [sep]) :: pieces n sep rest :=
    pieces_line not_mem_nil hpos rest
  rw [nil_append, nil_append] at hend
  rw [← hend]
  exact piecesFrom_full hsep hfull hpos [] (sep :: rest)

theorem piecesFrom_append (room : Nat) (acc s rest : List α) :
    piecesFrom n sep room acc (s ++ sep :: rest) =
      piecesFrom n sep room acc (s ++ [sep]) ++ pieces n sep rest := by
  induction s generalizing room acc with
  | nil => simp [piecesFrom, pieces]
  | cons a s ih =>
    rw [cons_append, cons_append, piecesFrom, piecesFrom]
    split
    · rw [ih, cons_append]
    · exact ih _ _

/-- A separator is always the end of a piece. -/
theorem pieces_append (s rest : List α) :
    pieces n sep (s ++ sep :: rest) = pieces n sep (s ++ [sep]) ++ pieces n sep rest :=
  piecesFrom_append n [] s rest

theorem mem_piecesFrom {room : Nat} {acc p : List α} (hacc : sep ∉ acc)
    (h : p ∈ piecesFrom n sep room acc s) :
    (∃ line, sep ∉ line ∧ (p = line ∨ p = line ++ [sep])) ∧ p.length ≤ acc.length + s.length := by
  induction s generalizing room acc with
  | nil =>
    rw [piecesFrom] at h
    split at h
    · cases h
    · cases mem_singleton.mp h
      exact ⟨⟨p, hacc, .inl rfl⟩, Nat.le_add_right ..⟩
  | cons a s ih =>
    rw [piecesFrom] at h
    split at h
    · rcases mem_cons.mp h with rfl | h
      · refine ⟨?_, by simp⟩
        by_cases ha : a = sep
        · exact ⟨acc, hacc, .inr (by rw [ha])⟩
        · refine ⟨acc ++ [a], ?_, .inl rfl⟩
          simp [hacc, Ne.symm ha]
      · obtain ⟨hline, hlen⟩ := ih not_mem_nil h
        refine ⟨hline, hlen.trans ?_⟩
        simp only [length_nil, length_cons]
        omega
    · rename_i ha
      obtain ⟨hline, hlen⟩ := ih (by simp [hacc, Ne.symm (not_or.mp ha).1]) h
      refine ⟨hline, hlen.trans ?_⟩
      simp only [length_append, length_cons, length_nil]
      omega

/-- A piece has a separator at its end, if at all. -/
theorem mem_pieces {p : List α} (h : p ∈ pieces n sep s) :
    (∃ line, sep ∉ line ∧ (p = line ∨ p = line ++ [sep])) ∧ p.length ≤ s.length := by
  have hpiece := mem_piecesFrom not_mem_nil h
  rwa [length_nil, Nat.zero_add] at hpiece

end Pieces

section Strip

variable {p : α → Bool}

/-- A list without what satisfies `p` at its ends. -/
def strip (p : α → Bool) (s : List α) : List α := (s.dropWhile p).rdropWhile p

/-- Nothing at the ends satisfies `p`. -/
structure Stripped (p : α → Bool) (s : List α) : Prop where
  head : ∀ a ∈ s.head?, p a = false
  last : ∀ a ∈ s.getLast?, p a = false

instance (p : α → Bool) (s : List α) : Decidable (Stripped p s) :=
  decidable_of_iff ((∀ a ∈ s.head?, p a = false) ∧ ∀ a ∈ s.getLast?, p a = false)
    ⟨fun h => ⟨h.1, h.2⟩, fun h => ⟨h.head, h.last⟩⟩

theorem dropWhile_of_head (h : ∀ a ∈ s.head?, p a = false) : s.dropWhile p = s := by
  cases s with
  | nil => rfl
  | cons a s => exact dropWhile_cons_of_neg (by simp [h a rfl])

theorem rdropWhile_of_last (h : ∀ a ∈ s.getLast?, p a = false) : s.rdropWhile p = s := by
  rw [rdropWhile, dropWhile_of_head, reverse_reverse]
  rwa [head?_reverse]

/-- What stands around a stripped list and satisfies `p` is taken away. -/
theorem strip_around (pre post : List α) (hpre : ∀ a ∈ pre, p a = true) (hs : Stripped p s)
    (hpost : ∀ a ∈ post, p a = true) : strip p (pre ++ s ++ post) = s := by
  rw [strip, append_assoc, dropWhile_append_of_pos hpre]
  cases s with
  | nil =>
    have hall : (post ++ []).dropWhile p = [].dropWhile p := dropWhile_append_of_pos hpost
    rw [append_nil, dropWhile_nil] at hall
    rw [nil_append, hall]
    rfl
  | cons a s =>
    have ha : p a = false := hs.head a rfl
    rw [cons_append, dropWhile_cons_of_neg (by simp [ha]), ← cons_append,
      rdropWhile, reverse_append,
      dropWhile_append_of_pos fun b hb => hpost b (mem_reverse.mp hb)]
    exact rdropWhile_of_last hs.last

theorem rdropWhile_append_cons (s : List α) {a : α} (ha : p a = false) (t : List α) :
    (s ++ a :: t).rdropWhile p = s ++ a :: t.rdropWhile p := by
  rw [rdropWhile, reverse_append, reverse_cons, append_assoc, singleton_append, dropWhile_append,
    dropWhile_cons_of_neg (by simp [ha])]
  split
  · rename_i h
    rw [rdropWhile, List.isEmpty_iff.mp h]
    simp
  · simp [rdropWhile]

theorem rdropWhile_append_of_all (s : List α) {t : List α} (ht : ∀ a ∈ t, p a = true) :
    (s ++ t).rdropWhile p = s.rdropWhile p := by
  rw [rdropWhile, reverse_append, dropWhile_append_of_pos fun a ha => ht a (mem_reverse.mp ha)]
  rfl

theorem strip_append_of_all (s : List α) {t : List α} (ht : ∀ a ∈ t, p a = true) :
    strip p (s ++ t) = strip p s := by
  rw [strip, strip, dropWhile_append]
  split
  · rename_i h
    rw [List.isEmpty_iff.mp h, dropWhile_eq_nil_iff.mpr ht]
  · exact rdropWhile_append_of_all _ ht

theorem strip_rdropWhile (s : List α) : strip p (s.rdropWhile p) = strip p s := by
  have hsplit : s = s.rdropWhile p ++ (s.reverse.takeWhile p).reverse := by
    rw [rdropWhile, ← reverse_append, takeWhile_append_dropWhile, reverse_reverse]
  conv_rhs => rw [hsplit]
  exact (strip_append_of_all _ fun a ha => mem_takeWhile_imp (mem_reverse.mp ha)).symm

theorem strip_sublist (s : List α) : strip p s <+ s :=
  ( rdropWhile_prefix p _).sublist.trans (dropWhile_suffix p).sublist

/-- What stripping leaves as it is was stripped. -/
theorem stripped_of_strip_eq (h : strip p s = s) : Stripped p s := by
  have hdrop : s.dropWhile p = s := by
    refine (dropWhile_suffix p).sublist.eq_of_length_le ?_
    conv_lhs => rw [← h]
    exact ( rdropWhile_prefix p _).sublist.length_le
  rw [strip, hdrop] at h
  constructor
  · intro a ha
    obtain ⟨t, rfl⟩ := head?_eq_some_iff.mp ha
    by_contra hp
    have hlen := (dropWhile_suffix (l := t) p).sublist.length_le
    rw [dropWhile_cons_of_pos (by simpa using hp)] at hdrop
    rw [hdrop, length_cons] at hlen
    omega
  · intro a ha
    obtain ⟨t, rfl⟩ := getLast?_eq_some_iff.mp ha
    simpa using rdropWhile_eq_self_iff.mp h (by simp)

end Strip

section Parts

theorem mem_splitOn [BEq α] [LawfulBEq α] {a : α} {t : List α} (h : t ∈ s.splitOn a) :
    a ∉ t ∧ t <+ s := by
  induction s generalizing t with
  | nil =>
    rw [splitOn_nil, mem_singleton] at h
    simp [h]
  | cons x s ih =>
    rw [splitOn_cons_eq_if_modifyHead] at h
    split at h
    · rcases mem_cons.mp h with rfl | h
      · simp
      · exact ⟨(ih h).1, (ih h).2.cons x⟩
    · rename_i hx
      obtain ⟨part, parts, hparts⟩ := exists_cons_of_ne_nil (splitOn_ne_nil a s)
      rw [hparts] at h ih
      rcases mem_cons.mp h with rfl | h
      · obtain ⟨ha, hsub⟩ := ih mem_cons_self
        refine ⟨fun hmem => ?_, hsub.cons_cons x⟩
        rcases mem_cons.mp hmem with rfl | hmem
        · exact hx (beq_self_eq_true a)
        · exact ha hmem
      · obtain ⟨ha, hsub⟩ := ih (mem_cons_of_mem part h)
        exact ⟨ha, hsub.cons x⟩

/-- With a separator behind every part there is one more than between them. -/
theorem flatMap_concat (a : α) {parts : List (List α)} (h : parts ≠ []) :
    parts.flatMap (· ++ [a]) = [a].intercalate parts ++ [a] := by
  induction parts with
  | nil => exact absurd rfl h
  | cons part parts ih =>
    cases parts with
    | nil => simp [intercalate]
    | cons next parts =>
      rw [flatMap_cons, ih (cons_ne_nil _ _), intercalate_cons_cons]
      simp

end Parts

end Lines
