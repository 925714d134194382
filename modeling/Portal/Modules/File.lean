import Portal.Core.CString
import Mathlib.Data.List.Infix

/-!
The paths that `mod_file` makes of the names in its requests, and where they lead.

`resolve` follows the text of a path alone: an empty segment and `.` stay where they are, and
`..` takes the segment before it back.
-/

namespace Portal.File

open List

structure BaseDir where
  dir : CStr
  length_le : dir.bytes.length ≤ 511

/-- The configured `base_dir`. -/
def loadBaseDir (v : CStr) : BaseDir := ⟨v.truncate 511, length_take_le 511 _⟩

def safePath (base : BaseDir) (name : CStr) (outlen : Nat) : Option CStr :=
  if name.bytes = [] then none
  else if (strstr (CStr.lit "..").bytes name.bytes).isSome then none
  else if name.bytes.head? = some 47 then none
  else some ((CStr.concat [base.dir, .lit "/", name]).truncate (outlen - 1))

/-! ### Where a path leads -/

def resolveSegment (absolute : Bool) (place : List Bytes) (segment : Bytes) : List Bytes :=
  if segment = [] ∨ segment = [46] then place
  else if segment = [46, 46] then
    if place = [] ∨ place.getLast? = some [46, 46] then
      -- nothing is above the root
      if absolute then place else place ++ [segment]
    else place.dropLast
  else place ++ [segment]

def resolve (path : CStr) : Bool × List Bytes :=
  let absolute := path.bytes.head? == some 47
  (absolute, (path.bytes.splitOn 47).foldl (resolveSegment absolute) [])

def AtOrBelow (dir path : CStr) : Prop :=
  (resolve path).1 = (resolve dir).1 ∧ (resolve dir).2 <+: (resolve path).2

theorem place_prefix_foldl {absolute : Bool} {segments : List Bytes} (h : [46, 46] ∉ segments)
    (place : List Bytes) : place <+: segments.foldl (resolveSegment absolute) place := by
  induction segments generalizing place with
  | nil => exact prefix_rfl
  | cons segment segments ih =>
    obtain ⟨hne, hrest⟩ := not_or.mp (mem_cons.not.mp h)
    refine .trans ?_ (ih hrest _)
    rw [resolveSegment, if_neg (Ne.symm hne)]
    split
    · exact prefix_rfl
    · exact prefix_append place [segment]

theorem infix_of_mem_splitOn {mark : UInt8} {text segment : Bytes}
    (h : segment ∈ text.splitOn mark) : segment <:+: text := by
  obtain ⟨i, hi, rfl⟩ := mem_iff_getElem.mp h
  have hmem := getElem_mem (l := (text.splitOn mark).intersperse [mark]) (n := 2 * i) (by
    rw [length_intersperse]
    omega)
  rw [getElem_intersperse_two_mul] at hmem
  have hinfix := infix_of_mem_flatten hmem
  rwa [← intercalate, intercalate_splitOn] at hinfix

theorem not_infix_of_strstr {pat text : Bytes} (h : strstr pat text = none) : ¬ pat <:+: text := by
  induction text with
  | nil =>
    rw [infix_nil]
    rintro rfl
    cases h
  | cons c text ih =>
    rw [strstr] at h
    split at h
    · cases h
    rw [infix_cons_iff, not_or]
    exact ⟨‹_›, ih (Option.map_eq_none_iff.mp h)⟩

/-! ### The sandbox -/

/-- What is asked of the names of at most `n` bytes. -/
structure Sandboxed (base : BaseDir) (n : Nat) : Prop where
  confined : ∀ name path, name.bytes.length ≤ n → safePath base name 1024 = some path →
    AtOrBelow base.dir path
  distinct : ∀ name name' path, name.bytes.length ≤ n → name'.bytes.length ≤ n →
    safePath base name 1024 = some path → safePath base name' 1024 = some path →
    resolve name = resolve name'

section

variable {base : BaseDir} {name path : CStr}

theorem safePath_eq_some (h : safePath base name 1024 = some path) :
    ¬ [46, 46] <:+: name.bytes ∧
      path.bytes = base.dir.bytes ++ 47 :: name.bytes.take (1022 - base.dir.bytes.length) := by
  have hbase := base.length_le
  obtain ⟨-, h⟩ := Option.ite_none_left_eq_some.mp h
  obtain ⟨hdots, h⟩ := Option.ite_none_left_eq_some.mp h
  obtain ⟨-, h⟩ := Option.ite_none_left_eq_some.mp h
  obtain rfl := Option.some.inj h
  refine ⟨not_infix_of_strstr (Option.not_isSome_iff_eq_none.mp hdots), ?_⟩
  change (base.dir.bytes ++ 47 :: (name.bytes ++ [])).take 1023 = _
  rw [append_nil, take_append, take_of_length_le (by omega),
    show 1023 - base.dir.bytes.length = 1022 - base.dir.bytes.length + 1 by omega, take_succ_cons]

theorem atOrBelow_of_safePath (hne : base.dir.bytes ≠ [])
    (h : safePath base name 1024 = some path) : AtOrBelow base.dir path := by
  obtain ⟨hdots, hpath⟩ := safePath_eq_some h
  have hsame : (resolve path).1 = (resolve base.dir).1 := by
    rw [resolve, resolve, hpath, head?_append_of_ne_nil _ hne]
  refine ⟨hsame, ?_⟩
  simp only [resolve] at hsame ⊢
  rw [hsame, hpath, splitOn_append_cons_self, foldl_append]
  refine place_prefix_foldl (fun hmem => hdots ?_) _
  exact (infix_of_mem_splitOn hmem).trans ( take_prefix _ _).isInfix

def plainName (k : Nat) : CStr := ⟨replicate (k + 1) 97, by simp⟩

theorem resolve_plainName (k : Nat) : resolve (plainName k) = (false, [replicate (k + 1) 97]) := by
  have hone : (plainName k).bytes.splitOn 47 = [replicate (k + 1) 97] :=
    splitOn_eq_singleton (by simp [plainName])
  rw [resolve, hone]
  simp [plainName, resolveSegment, replicate_succ]

theorem safePath_plainName (base : BaseDir) (k : Nat) :
    ∃ path, safePath base (plainName k) 1024 = some path ∧ path.bytes =
      base.dir.bytes ++ 47 :: replicate (min (1022 - base.dir.bytes.length) (k + 1)) 97 := by
  have hdots (k : Nat) : strstr (CStr.lit "..").bytes (replicate k 97) = none := by
    change strstr [46, 46] _ = none
    induction k with
    | zero => rfl
    | succ k ih => simp [replicate_succ, strstr, ih]
  have hpath : ∃ path, safePath base (plainName k) 1024 = some path := by
    simp [safePath, plainName, hdots, head?_replicate]
  obtain ⟨path, hpath⟩ := hpath
  refine ⟨path, hpath, ?_⟩
  rw [(safePath_eq_some hpath).2, plainName, take_replicate]

variable {n : Nat}

theorem Sandboxed.dir_ne_nil (h : Sandboxed base (n + 1)) : base.dir.bytes ≠ [] := by
  intro hnil
  obtain ⟨path, hpath, hbytes⟩ := safePath_plainName base 0
  have hroot := (h.confined (plainName 0) path (Nat.le_add_left 1 n) hpath).1
  simp [resolve, hbytes, hnil] at hroot

theorem Sandboxed.length_le (h : Sandboxed base n) : base.dir.bytes.length + 1 + n ≤ 1023 := by
  by_contra hlong
  have hbase := base.length_le
  obtain ⟨path, hpath, hbytes⟩ := safePath_plainName base (1021 - base.dir.bytes.length)
  obtain ⟨path', hpath', hbytes'⟩ := safePath_plainName base (1022 - base.dir.bytes.length)
  obtain rfl : path = path' := by
    apply CStr.ext_bytes
    rw [hbytes, hbytes', min_eq_left (by omega), min_eq_left (by omega)]
  have hsame := h.distinct _ _ path (by simp [plainName]; omega) (by simp [plainName]; omega)
    hpath hpath'
  rw [resolve_plainName, resolve_plainName] at hsame
  simp at hsame
  omega

end

/-- For every base directory and every length of names. -/
theorem sandboxed_iff (base : BaseDir) (n : Nat) : Sandboxed base (n + 1) ↔
    base.dir.bytes ≠ [] ∧ base.dir.bytes.length + 1 + (n + 1) ≤ 1023 := by
  refine ⟨fun h => ⟨h.dir_ne_nil, h.length_le⟩, ?_⟩
  rintro ⟨hne, hfits⟩
  refine ⟨fun name path _ h => atOrBelow_of_safePath hne h, ?_⟩
  intro name name' path hlen hlen' h h'
  have hsame := (safePath_eq_some h).2.symm.trans (safePath_eq_some h').2
  rw [append_cancel_left_eq, List.cons_inj_right, take_of_length_le (by omega),
    take_of_length_le (by omega)] at hsame
  rw [CStr.ext_bytes hsame]

/-- A name of 1018 letters has the path of the name that is one letter shorter. -/
theorem sandboxed_false : ¬ Sandboxed (loadBaseDir (.lit "files")) 1018 := by
  intro h
  exact absurd h.length_le (by decide)

end Portal.File
