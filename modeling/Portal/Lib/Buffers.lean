import Mathlib.Data.List.Basic
import Mathlib.Tactic.Common

/-!
Arrays that are written in place. `writeAt buf i new` is the array with `new` copied to position
`i` on, and `slice buf i j` what stands from `i` to `j`: `memmove` is a `writeAt` of a `slice`.
Both are determined position by position (`getElem?_writeAt`, `getElem?_slice`).
-/

namespace Buffers

open List

variable {α : Type*} {buf new : List α} {i j k : Nat}

def writeAt (buf : List α) (i : Nat) (new : List α) : List α :=
  buf.take i ++ new ++ buf.drop (i + new.length)

def slice (buf : List α) (i j : Nat) : List α := (buf.drop i).take (j - i)

theorem length_writeAt (h : i + new.length ≤ buf.length) :
    (writeAt buf i new).length = buf.length := by
  simp only [writeAt, length_append, length_take, length_drop]
  omega

theorem take_writeAt (h : i ≤ buf.length) :
    (writeAt buf i new).take (i + new.length) = buf.take i ++ new := by
  rw [writeAt, take_left']
  rw [length_append, length_take, Nat.min_eq_left h]

/-- A write up to the end. -/
theorem writeAt_of_length_eq (h : i + new.length = buf.length) :
    writeAt buf i new = buf.take i ++ new := by
  rw [writeAt, h, drop_length, append_nil]

theorem length_slice (h : j ≤ buf.length) : (slice buf i j).length = j - i := by
  simp only [slice, length_take, length_drop]
  omega

theorem getElem?_writeAt (h : i ≤ buf.length) :
    (writeAt buf i new)[k]? =
      if k < i then buf[k]? else if k < i + new.length then new[k - i]? else buf[k]? := by
  have hlen : (buf.take i).length = i := by
    rw [length_take]
    omega
  rw [writeAt, append_assoc, getElem?_append, hlen, getElem?_append]
  split
  · rename_i hk
    exact getElem?_take_of_lt hk
  split
  · rename_i hnew
    rw [if_pos (by omega)]
  rw [if_neg (by omega), getElem?_drop]
  congr 1
  omega

theorem getElem?_slice : (slice buf i j)[k]? = if k < j - i then buf[i + k]? else none := by
  rw [slice, getElem?_take, getElem?_drop]

/-- Two slices that meet are one. -/
theorem slice_append_slice (hij : i ≤ j) (hjk : j ≤ k) :
    slice buf i j ++ slice buf j k = slice buf i k := by
  have hdrop : buf.drop j = (buf.drop i).drop (j - i) := by
    rw [drop_drop]
    congr 1
    omega
  rw [slice, slice, slice, hdrop, show k - i = (j - i) + (k - j) by omega, take_add]

/-- What stands before the end of an array stays when the array grows. -/
theorem slice_append_left {more : List α} (h : j ≤ buf.length) :
    slice (buf ++ more) i j = slice buf i j := by
  apply ext_getElem?
  intro k
  rw [getElem?_slice, getElem?_slice]
  split
  · rw [getElem?_append_left (by omega)]
  · rfl

/-- A write behind a slice leaves it. -/
theorem slice_writeAt_of_le (hjk : j ≤ k) (hk : k ≤ buf.length) :
    slice (writeAt buf k new) i j = slice buf i j := by
  apply ext_getElem?
  intro m
  rw [getElem?_slice, getElem?_slice]
  split
  · rw [getElem?_writeAt hk, if_pos (by omega)]
  · rfl

/-- What was written stands where it was written. -/
theorem slice_writeAt_self (hi : i ≤ buf.length) :
    slice (writeAt buf i new) i (i + new.length) = new := by
  apply ext_getElem?
  intro m
  rw [getElem?_slice, getElem?_writeAt hi]
  split
  · rw [if_neg (by omega), if_pos (by omega), Nat.add_sub_cancel_left]
  · exact (getElem?_eq_none (by omega)).symm

end Buffers
