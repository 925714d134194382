import Portal.Core.CString
import Portal.Lib.Buffers

/-!
The line editor of `modules/mod_cli/mod_cli.c`: the `editor_*` functions without their
output, and the keys of `editor_feed` outside shell and `top`.

Each `char` of a buffer is kept with the number of the connection that typed it, so that
one can say whose text a buffer holds.
-/

namespace Portal.Cli

open List Buffers

def cliMaxLine : Nat := 1024
def cliMaxHistory : Nat := 64

/-- A `char`, and the connection that typed it; none for a NUL and for what a completion inserts.
No operation reads the number. -/
structure Cell where
  byte : UInt8
  typedBy : Option Nat
deriving DecidableEq

def Cell.nul : Cell := ⟨0, none⟩

def cellText (b : List Cell) : List Cell := b.takeWhile fun c => c.byte != 0

def cellBytes (b : List Cell) : Bytes := b.map Cell.byte

/-- `cli_line_editor_t`. An entry of `history` is the text before its NUL. -/
structure LineEditor where
  line : List Cell
  pos : Nat
  len : Nat
  history : List (List Cell)
  histCount : Nat
  histPos : Int
  escState : Nat
  tabCount : Nat
  size : line.length = cliMaxLine
  pos_le : pos ≤ len
  len_lt : len < cliMaxLine
deriving DecidableEq

theorem cliMaxLine_pos : 0 < cliMaxLine := by decide

def LineEditor.zero : LineEditor where
  line := List.replicate cliMaxLine .nul
  pos := 0
  len := 0
  history := List.replicate cliMaxHistory []
  histCount := 0
  histPos := 0
  escState := 0
  tabCount := 0
  size := List.length_replicate
  pos_le := Nat.le_refl 0
  len_lt := cliMaxLine_pos

theorem size_writeAt {buf new : List Cell} {i : Nat} (hbuf : buf.length = cliMaxLine)
    (h : i + new.length ≤ cliMaxLine) : (writeAt buf i new).length = cliMaxLine := by
  rw [length_writeAt (hbuf ▸ h), hbuf]

namespace LineEditor

variable (ed : LineEditor)

/-- The line with a NUL at position `n ≤ len`, which becomes its end. -/
def cutAt (n : Nat) (h : n ≤ ed.len) : LineEditor :=
  { ed with
    line := writeAt ed.line n [.nul]
    pos := n
    len := n
    size := size_writeAt ed.size (Nat.succ_le_of_lt (h.trans_lt ed.len_lt))
    pos_le := Nat.le_refl n
    len_lt := h.trans_lt ed.len_lt }

def clear : LineEditor := ed.cutAt 0 (Nat.zero_le _)

def terminate : LineEditor :=
  { ed with
    line := writeAt ed.line ed.len [.nul]
    size := size_writeAt ed.size (Nat.succ_le_of_lt ed.len_lt) }

def moveTo (n : Nat) (h : n ≤ ed.len) : LineEditor := { ed with pos := n, pos_le := h }

/-! ### History -/

/-- Empty lines, logins and repetitions are not stored. -/
def historyAdd : LineEditor :=
  let text := cellText ed.line
  if text = [] then ed
  else if (CStr.lit "login ").bytes <+: cellBytes text then ed
  else if 0 < ed.histCount ∧
      cellBytes (ed.history.getD ((ed.histCount - 1) % cliMaxHistory) []) = cellBytes text then ed
  else
    { ed with
      history := ed.history.set (ed.histCount % cliMaxHistory) (text.take (cliMaxLine - 1))
      histCount := ed.histCount + 1 }

/-- Entry `p % 64` is copied to the line. -/
def showHistory (p : Int) : LineEditor :=
  let text := (ed.history.getD (p % cliMaxHistory).toNat []).take (cliMaxLine - 1)
  have htext : text.length ≤ cliMaxLine - 1 := List.length_take_le _ _
  { ed with
    histPos := p
    line := writeAt ed.line 0 (text ++ [.nul])
    pos := text.length
    len := text.length
    size := size_writeAt ed.size (by
      rw [List.length_append, List.length_singleton, Nat.zero_add]
      exact Nat.add_le_of_le_sub cliMaxLine_pos htext)
    pos_le := Nat.le_refl _
    len_lt := Nat.lt_of_le_pred cliMaxLine_pos htext }

def historyUp : LineEditor :=
  if ed.histCount = 0 then ed
  else if ed.histPos < 0 then ed.showHistory (ed.histCount - 1)
  else if 0 < ed.histPos then ed.showHistory (ed.histPos - 1)
  else ed  -- at the oldest line

def historyDown : LineEditor :=
  if ed.histPos < 0 then ed
  else if ed.histCount ≤ ed.histPos + 1 then { ed.clear with histPos := -1 }
  else ed.showHistory (ed.histPos + 1)

/-! ### Editing -/

def insertChar (c : Cell) : LineEditor :=
  if h : ed.len < cliMaxLine - 1 then
    have hpos : ed.pos + 1 ≤ ed.len + 1 := Nat.succ_le_succ ed.pos_le
    have hroom : ed.len + 1 < cliMaxLine := Nat.add_lt_of_lt_sub h
    have hslice : (slice ed.line ed.pos ed.len).length = ed.len - ed.pos :=
      length_slice (ed.size ▸ ed.len_lt.le)
    have hle := ed.pos_le
    { ed with
      line := writeAt (writeAt (writeAt ed.line (ed.pos + 1) (slice ed.line ed.pos ed.len))
        ed.pos [c]) (ed.len + 1) [.nul]
      pos := ed.pos + 1
      len := ed.len + 1
      size := size_writeAt (size_writeAt (size_writeAt ed.size (by omega))
        (hpos.trans hroom.le)) hroom
      pos_le := hpos
      len_lt := hroom }
  else ed

def backspace : LineEditor :=
  if h : 0 < ed.pos then
    have hslice : (slice ed.line ed.pos ed.len).length = ed.len - ed.pos :=
      length_slice (ed.size ▸ ed.len_lt.le)
    have hle := ed.pos_le
    have hlt := ed.len_lt
    { ed with
      line :=
        writeAt (writeAt ed.line (ed.pos - 1) (slice ed.line ed.pos ed.len)) (ed.len - 1) [.nul]
      pos := ed.pos - 1
      len := ed.len - 1
      size := size_writeAt (size_writeAt ed.size (by omega)) (by
        rw [List.length_singleton]
        omega)
      pos_le := Nat.sub_le_sub_right hle 1
      len_lt := by omega }
  else ed

/-- The end of the run of bytes that satisfy `p` before position `n`, going back. -/
def skipBack (line : List Cell) (p : UInt8 → Bool) : Nat → Nat
  | 0 => 0
  | n + 1 => if p (line.getD n .nul).byte then skipBack line p n else n + 1

theorem skipBack_le (line : List Cell) (p : UInt8 → Bool) (n : Nat) : skipBack line p n ≤ n := by
  induction n with
  | zero => exact le_refl 0
  | succ n ih =>
    unfold skipBack
    split
    · exact ih.trans (Nat.le_succ n)
    · exact le_refl _

/-- Back over spaces, then to the previous space or slash. -/
def wordStart : Nat :=
  skipBack ed.line (fun b => b ≠ 32 ∧ b ≠ 47) (skipBack ed.line (fun b => b = 32) ed.pos)

theorem wordStart_le : ed.wordStart ≤ ed.pos :=
  (skipBack_le _ _ _).trans (skipBack_le _ _ _)

/-- The rest of the line, with its NUL, moves to the start of the word. -/
def deleteWord : LineEditor :=
  have hword := ed.wordStart_le
  have hpos := ed.pos_le
  have hlt := ed.len_lt
  have hslice : (slice ed.line ed.pos (ed.len + 1)).length = ed.len + 1 - ed.pos :=
    length_slice (ed.size ▸ hlt)
  { ed with
    line := writeAt ed.line ed.wordStart (slice ed.line ed.pos (ed.len + 1))
    pos := ed.wordStart
    len := ed.len - (ed.pos - ed.wordStart)
    size := size_writeAt ed.size (by omega)
    pos_le := by omega
    len_lt := by omega }

/-! ### Keys -/

inductive KeyAction where
  | none
  | complete   -- `editor_tab_complete`
  | submit     -- `handle_command`, and `submitted` after it

def feedArrow (ch : UInt8) : LineEditor :=
  let ed := { ed with escState := 0 }
  if ch = 65 then ed.historyUp
  else if ch = 66 then ed.historyDown
  else if ch = 67 then if h : ed.pos < ed.len then ed.moveTo (ed.pos + 1) h else ed
  else if ch = 68 then ed.moveTo (ed.pos - 1) ((Nat.sub_le _ _).trans ed.pos_le)
  else if ch = 72 then ed.moveTo 0 (Nat.zero_le _)
  else if ch = 70 then ed.moveTo ed.len (Nat.le_refl _)
  else ed

/-- A byte typed on connection `conn`, outside shell and `top`. -/
def feedKey (conn : Nat) (ch : UInt8) : LineEditor × KeyAction :=
  if ed.escState = 1 then ({ ed with escState := if ch = 91 then 2 else 0 }, .none)
  else if ed.escState = 2 then (ed.feedArrow ch, .none)
  else if ch = 27 then ({ ed with escState := 1 }, .none)
  else if ch = 9 then ({ ed with tabCount := ed.tabCount + 1 }, .complete)
  else if ch = 13 ∨ ch = 10 then (ed.terminate.historyAdd, .submit)
  else if ch = 127 ∨ ch = 8 then (ed.backspace, .none)
  else if ch = 1 then (ed.moveTo 0 (Nat.zero_le _), .none)
  else if ch = 5 then (ed.moveTo ed.len (Nat.le_refl _), .none)
  else if ch = 21 then (ed.clear, .none)
  else if ch = 23 then (if 0 < ed.pos then ed.deleteWord else ed, .none)
  else if ch = 11 then (ed.cutAt ed.pos ed.pos_le, .none)
  else if ch = 12 then (ed, .none)
  else
    let ed := { ed with tabCount := 0 }
    (if 32 ≤ ch ∧ ch < 127 then ed.insertChar ⟨ch, some conn⟩ else ed, .none)

def submitted : LineEditor := { ed.clear with histPos := -1 }

/-! ### What the editor holds -/

/-- The cell stands in the input line or in an entry of the history. -/
def Holds (c : Cell) : Prop :=
  (∃ j < ed.len, ed.line[j]? = some c) ∨ ∃ entry ∈ ed.history, c ∈ entry

/-- A string that ends at position `n` at the latest stands before it. -/
theorem mem_cellText {buf : List Cell} {c : Cell} {n : Nat} (hnul : buf[n]? = some .nul)
    (h : c ∈ cellText buf) : ∃ j < n, buf[j]? = some c := by
  have hcell : ∀ i (h : i < (cellText buf).length), buf[i]? = some (cellText buf)[i] :=
    prefix_iff_getElem?.mp ( takeWhile_prefix _)
  obtain ⟨j, hj, rfl⟩ := getElem_of_mem h
  refine ⟨j, ?_, hcell j hj⟩
  -- the text ends in front of the NUL
  by_contra hle
  have hn : n < (cellText buf).length := by omega
  have htext := mem_takeWhile_imp (getElem_mem hn)
  injection (hcell n hn).symm.trans hnul with heq
  rw [heq] at htext
  cases htext

section Holds

variable {ed} {c : Cell}

theorem holds_cutAt {n : Nat} (hn : n ≤ ed.len) (h : (ed.cutAt n hn).Holds c) : ed.Holds c := by
  have hsize := ed.size
  have hlt := ed.len_lt
  rcases h with ⟨j, hj, hcell⟩ | h
  · simp only [cutAt] at hj hcell
    rw [getElem?_writeAt (by omega), if_pos hj] at hcell
    exact .inl ⟨j, by omega, hcell⟩
  · exact .inr h

theorem holds_clear (h : ed.clear.Holds c) : ed.Holds c := holds_cutAt (Nat.zero_le _) h

theorem holds_terminate (h : ed.terminate.Holds c) : ed.Holds c := by
  have hsize := ed.size
  have hlt := ed.len_lt
  rcases h with ⟨j, hj, hcell⟩ | h
  · simp only [terminate] at hj hcell
    rw [getElem?_writeAt (by omega), if_pos hj] at hcell
    exact .inl ⟨j, hj, hcell⟩
  · exact .inr h

theorem holds_historyAdd (hnul : ed.line[ed.len]? = some .nul) (h : ed.historyAdd.Holds c) :
    ed.Holds c := by
  unfold historyAdd at h
  simp only at h
  split at h
  · exact h
  split at h
  · exact h
  split at h
  · exact h
  rcases h with h | ⟨entry, hentry, hc⟩
  · exact .inl h
  · rcases mem_or_eq_of_mem_set hentry with hentry | rfl
    · exact .inr ⟨entry, hentry, hc⟩
    · exact .inl (mem_cellText hnul (mem_of_mem_take hc))

theorem holds_showHistory {p : Int} (h : (ed.showHistory p).Holds c) : ed.Holds c := by
  rcases h with ⟨j, hj, hcell⟩ | h
  · simp only [showHistory] at hj hcell
    rw [getElem?_writeAt (Nat.zero_le _), if_neg (Nat.not_lt_zero j),
      if_pos (by simp only [length_append, length_singleton]; omega), Nat.sub_zero,
      getElem?_append_left hj] at hcell
    have hc := mem_of_mem_take (mem_of_getElem? hcell)
    right
    -- an index outside the array would show an empty line
    rw [getD_eq_getElem?_getD] at hc
    cases hentry : ed.history[(p % cliMaxHistory).toNat]? with
    | none => simp [hentry] at hc
    | some entry =>
      rw [hentry, Option.getD_some] at hc
      exact ⟨entry, mem_of_getElem? hentry, hc⟩
  · exact .inr h

theorem holds_historyUp (h : ed.historyUp.Holds c) : ed.Holds c := by
  unfold historyUp at h
  split at h
  · exact h
  split at h
  · exact holds_showHistory h
  · split at h
    · exact holds_showHistory h
    · exact h

theorem holds_historyDown (h : ed.historyDown.Holds c) : ed.Holds c := by
  unfold historyDown at h
  split at h
  · exact h
  · split at h
    · exact holds_clear h
    · exact holds_showHistory h

theorem holds_insertChar {d : Cell} (h : (ed.insertChar d).Holds c) : ed.Holds c ∨ c = d := by
  have hsize := ed.size
  have hle := ed.pos_le
  unfold insertChar at h
  split at h
  · rename_i hroom
    have hslice : (slice ed.line ed.pos ed.len).length = ed.len - ed.pos := length_slice (by omega)
    have hfirst :
        (writeAt ed.line (ed.pos + 1) (slice ed.line ed.pos ed.len)).length = cliMaxLine :=
      size_writeAt hsize (by omega)
    have hsecond : (writeAt (writeAt ed.line (ed.pos + 1) (slice ed.line ed.pos ed.len)) ed.pos
        [d]).length = cliMaxLine :=
      size_writeAt hfirst (by simp only [length_singleton]; omega)
    rcases h with ⟨j, hj, hcell⟩ | h
    · simp only at hj hcell
      rw [getElem?_writeAt (by omega), if_pos hj, getElem?_writeAt (by omega)] at hcell
      split at hcell
      · -- before the cursor
        rw [getElem?_writeAt (by omega), if_pos (by omega)] at hcell
        exact .inl (.inl ⟨j, by omega, hcell⟩)
      split at hcell
      · right
        rename_i hge hlt
        have hj0 : j - ed.pos = 0 := by
          simp only [length_singleton] at hlt
          omega
        rw [hj0] at hcell
        exact (Option.some.inj hcell).symm
      -- behind the cursor everything has moved by one
      rename_i hge hlt
      simp only [length_singleton] at hlt
      rw [getElem?_writeAt (by omega), if_neg (by omega), if_pos (by omega), getElem?_slice,
        if_pos (by omega)] at hcell
      exact .inl (.inl ⟨ed.pos + (j - (ed.pos + 1)), by omega, hcell⟩)
    · exact .inl (.inr h)
  · exact .inl h

theorem holds_backspace (h : ed.backspace.Holds c) : ed.Holds c := by
  have hsize := ed.size
  have hle := ed.pos_le
  have hlt := ed.len_lt
  unfold backspace at h
  split at h
  · rename_i hpos
    have hslice : (slice ed.line ed.pos ed.len).length = ed.len - ed.pos := length_slice (by omega)
    have hfirst :
        (writeAt ed.line (ed.pos - 1) (slice ed.line ed.pos ed.len)).length = cliMaxLine :=
      size_writeAt hsize (by omega)
    rcases h with ⟨j, hj, hcell⟩ | h
    · simp only at hj hcell
      rw [getElem?_writeAt (by omega), if_pos hj, getElem?_writeAt (by omega)] at hcell
      split at hcell
      · exact .inl ⟨j, by omega, hcell⟩
      · rw [if_pos (by omega), getElem?_slice, if_pos (by omega)] at hcell
        exact .inl ⟨ed.pos + (j - (ed.pos - 1)), by omega, hcell⟩
    · exact .inr h
  · exact h

theorem holds_deleteWord (h : ed.deleteWord.Holds c) : ed.Holds c := by
  have hsize := ed.size
  have hle := ed.pos_le
  have hlt := ed.len_lt
  have hword := ed.wordStart_le
  have hslice : (slice ed.line ed.pos (ed.len + 1)).length = ed.len + 1 - ed.pos :=
    length_slice (by omega)
  rcases h with ⟨j, hj, hcell⟩ | h
  · simp only [deleteWord] at hj hcell
    rw [getElem?_writeAt (by omega)] at hcell
    split at hcell
    · exact .inl ⟨j, by omega, hcell⟩
    · rw [if_pos (by omega), getElem?_slice, if_pos (by omega)] at hcell
      exact .inl ⟨ed.pos + (j - ed.wordStart), by omega, hcell⟩
  · exact .inr h

theorem holds_feedArrow {ch : UInt8} (h : (ed.feedArrow ch).Holds c) : ed.Holds c := by
  unfold feedArrow at h
  simp only at h
  split at h
  · exact @holds_historyUp { ed with escState := 0 } c h
  split at h
  · exact @holds_historyDown { ed with escState := 0 } c h
  -- the other keys move the cursor
  split at h
  · split at h <;> exact h
  split at h
  · exact h
  · split at h
    · exact h
    · split at h <;> exact h

/-- What line and history hold after a key they held before, but for the key itself. -/
theorem holds_feedKey {conn : Nat} {ch : UInt8} (h : (ed.feedKey conn ch).1.Holds c) :
    ed.Holds c ∨ c = ⟨ch, some conn⟩ := by
  have hsize := ed.size
  have hlt := ed.len_lt
  let P : LineEditor × KeyAction → Prop := fun x =>
    x.1.Holds c → ed.Holds c ∨ c = ⟨ch, some conn⟩
  suffices hP : P (ed.feedKey conn ch) from hP h
  refine iteInduction (fun _ h => .inl h) fun _ => ?_
  refine iteInduction (fun _ h => .inl (holds_feedArrow h)) fun _ => ?_
  refine iteInduction (fun _ h => .inl h) fun _ => ?_
  refine iteInduction (fun _ h => .inl h) fun _ => ?_
  refine iteInduction (fun _ h => .inl ?_) fun _ => ?_
  · -- the line is stored up to the NUL that has just been written
    apply holds_terminate
    apply holds_historyAdd _ h
    simp only [terminate]
    rw [getElem?_writeAt (by omega), if_neg (by omega),
      if_pos (by simp only [length_singleton]; omega), Nat.sub_self]
    rfl
  refine iteInduction (fun _ h => .inl (holds_backspace h)) fun _ => ?_
  refine iteInduction (fun _ h => .inl h) fun _ => ?_
  refine iteInduction (fun _ h => .inl h) fun _ => ?_
  refine iteInduction (fun _ h => .inl (holds_clear h)) fun _ => ?_
  refine iteInduction (fun _ h => .inl ?_) fun _ => ?_
  · simp only at h
    split at h
    · exact holds_deleteWord h
    · exact h
  refine iteInduction (fun _ h => .inl (holds_cutAt ed.pos_le h)) fun _ => ?_
  refine iteInduction (fun _ h => .inl h) fun _ => ?_
  intro h
  simp only at h
  split at h
  · exact @holds_insertChar { ed with tabCount := 0 } c _ h
  · exact .inl h

theorem holds_submitted (h : ed.submitted.Holds c) : ed.Holds c := holds_clear h

end Holds

end LineEditor

end Portal.Cli
