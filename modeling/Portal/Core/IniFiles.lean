import Portal.Core.HashTable
import Portal.Lib.Assignments
import Portal.Lib.Lines

/-!
The text files of `src/core/core_store.c`: `key = value` lines, read with `fgets` into 512
bytes. `trim` and the loop over the lines are also those of `src/core/core_auth.c` and
`src/core/core_config.c`.
-/

namespace Portal

open List Lines Probing Assignments
open CStr (lit)

def newline : UInt8 := 10
def equalsSign : UInt8 := 61
def hashMark : UInt8 := 35
def semicolon : UInt8 := 59

def trim (s : Bytes) : Bytes := strip isSpace s

/-- The lines of a file, read into a buffer of `size` bytes, as C strings without the white
space around them. -/
def fileLines (size : Nat) (file : Bytes) : List Bytes :=
  (pieces (size - 1) newline file).map fun piece => trim (cText piece)

def cutAt (sep : UInt8) (s : Bytes) : Option (Bytes × Bytes) :=
  match s.dropWhile (· ≠ sep) with
  | [] => none
  | _ :: rest => some (s.takeWhile (· ≠ sep), rest)

def skippedLine (s : Bytes) : Bool := s = [] || s.head? = some hashMark || s.head? = some semicolon

/-- `key = value` -/
def keyValue (s : Bytes) : Option (CStr × CStr) :=
  (cutAt equalsSign s).map fun p => (.ofBytes (trim p.1), .ofBytes (trim p.2))

def iniEntry (s : Bytes) : Option (CStr × CStr) := if skippedLine s then none else keyValue s

def portalStoreReadIni (kv : PortalHt CStr) (file : Bytes) : PortalHt CStr :=
  ((fileLines 512 file).filterMap iniEntry).foldl (fun kv e => (portalHtSet kv e.1 e.2).1) kv

/-- `write_kv_cb` -/
def iniLine (e : CStr × CStr) : Bytes :=
  e.1.bytes ++ (lit " = ").bytes ++ e.2.bytes ++ [newline]

def iniHeader : Bytes := (lit "# Portal auto-generated config").bytes

def portalStoreWriteIni (kv : PortalHt CStr) : Bytes :=
  iniHeader ++ newline :: (portalHtIter kv).flatMap iniLine

/-! ### Reading back -/

structure PlainValue (v : CStr) : Prop where
  oneLine : newline ∉ v.bytes
  stripped : Stripped isSpace v.bytes

structure PlainKey (k : CStr) : Prop extends PlainValue k where
  noEquals : equalsSign ∉ k.bytes
  noComment : skippedLine k.bytes = false

instance (v : CStr) : Decidable (PlainValue v) :=
  decidable_of_iff (newline ∉ v.bytes ∧ Stripped isSpace v.bytes)
    ⟨fun h => ⟨h.1, h.2⟩, fun h => ⟨h.oneLine, h.stripped⟩⟩

structure PlainEntry (e : CStr × CStr) : Prop where
  key : PlainKey e.1
  value : PlainValue e.2
  fits : e.1.bytes.length + 3 + e.2.bytes.length ≤ 511

theorem cutAt_append {sep : UInt8} {k : Bytes} (hk : sep ∉ k) (v : Bytes) :
    cutAt sep (k ++ sep :: v) = some (k, v) := by
  have hall : ∀ b ∈ k, decide (b ≠ sep) = true := by
    intro b hb
    exact decide_eq_true fun heq => hk (heq ▸ hb)
  rw [cutAt, dropWhile_append_of_pos hall, takeWhile_append_of_pos hall,
    dropWhile_cons_of_neg (by simp), takeWhile_cons_of_neg (by simp), append_nil]

theorem cutAt_eq_some {sep : UInt8} {s : Bytes} {p : Bytes × Bytes} (h : cutAt sep s = some p) :
    s = p.1 ++ sep :: p.2 := by
  unfold cutAt at h
  split at h
  · exact nomatch h
  rename_i b rest hdrop
  cases h
  have hsep : b = sep := by
    have hhead := head?_dropWhile_not (fun x => decide (x ≠ sep)) s
    rw [hdrop] at hhead
    simpa using hhead
  have hsplit := takeWhile_append_dropWhile (p := fun x => decide (x ≠ sep)) (l := s)
  rw [hdrop, hsep] at hsplit
  exact hsplit.symm

theorem skippedLine_append {k : Bytes} (h : skippedLine k = false) (s : Bytes) :
    skippedLine (k ++ s) = false := by
  cases k with
  | nil => exact absurd h (by decide)
  | cons b k => exact h

/-- A line with a plain key is read as the key and what is left of the value. -/
theorem iniEntry_line {k : CStr} (hk : PlainKey k) (v : Bytes) :
    iniEntry (trim (k.bytes ++ (lit " =").bytes ++ v)) = some (k, .ofBytes (trim v)) := by
  have hsep : (lit " =").bytes = [32] ++ [equalsSign] := by decide
  have hblank : ∀ b ∈ ([32] : Bytes), isSpace b = true := forall_mem_singleton.mpr rfl
  have hne : k.bytes ≠ [] := fun heq => by
    have hskip := hk.noComment
    rw [heq] at hskip
    exact absurd hskip (by decide)
  have hkey : trim (k.bytes ++ [32]) = k.bytes := strip_around [] [32] (by simp) hk.stripped hblank
  have hline : trim (k.bytes ++ (lit " =").bytes ++ v) =
      k.bytes ++ [32] ++ equalsSign :: v.rdropWhile isSpace := by
    have hhead : ∀ b ∈ (k.bytes ++ [32] ++ equalsSign :: v).head?, isSpace b = false := by
      rw [append_assoc, head?_append_of_ne_nil _ hne]
      exact hk.stripped.head
    rw [hsep, ← append_assoc, append_assoc, singleton_append, trim, strip, dropWhile_of_head hhead,
      rdropWhile_append_cons _ (by decide)]
  have hskip : skippedLine (k.bytes ++ [32] ++ equalsSign :: v.rdropWhile isSpace) = false := by
    rw [append_assoc]
    exact skippedLine_append hk.noComment _
  have hcut : equalsSign ∉ k.bytes ++ [32] := by
    rw [mem_append, not_or]
    exact ⟨hk.noEquals, by decide⟩
  rw [hline, iniEntry, hskip, keyValue, cutAt_append hcut]
  simp only [Bool.false_eq_true, if_false, Option.map_some, hkey, CStr.ofBytes_bytes]
  rw [trim, strip_rdropWhile]
  rfl

/-! ### The entries of a file -/

def iniEntries (file : Bytes) : List (CStr × CStr) := (fileLines 512 file).filterMap iniEntry

theorem iniEntries_append (s rest : Bytes) :
    iniEntries (s ++ newline :: rest) = iniEntries (s ++ [newline]) ++ iniEntries rest := by
  rw [iniEntries, fileLines, pieces_append, map_append, filterMap_append]
  rfl

theorem iniEntries_flatMap (es : List (CStr × CStr)) :
    iniEntries (es.flatMap iniLine) = es.flatMap fun e => iniEntries (iniLine e) := by
  induction es with
  | nil => rfl
  | cons e es ih =>
    rw [flatMap_cons, flatMap_cons, ← ih, iniLine, append_assoc, singleton_append,
      iniEntries_append]

theorem iniEntries_writeIni (kv : PortalHt CStr) :
    iniEntries (portalStoreWriteIni kv) =
      (portalHtIter kv).flatMap fun e => iniEntries (iniLine e) := by
  have hheader : iniEntries (iniHeader ++ [newline]) = [] := by decide
  rw [portalStoreWriteIni, iniEntries_append, hheader, nil_append, iniEntries_flatMap]

/-- The last line about a key counts. -/
theorem get_readIni (cap : Nat) (file : Bytes) (k : CStr) :
    portalHtGet (portalStoreReadIni (portalHtInit cap) file) k = assigned k (iniEntries file) := by
  have hupdate (es : List (CStr × CStr)) : ∀ m : CStr → Option CStr,
      es.foldl (fun (m : CStr → Option CStr) e => Function.update m e.1 (some e.2)) m k =
        (assigned k es).or (m k) := by
    induction es with
    | nil => exact fun m => rfl
    | cons e es ih =>
      intro m
      rw [foldl_cons, ih, assigned, Option.or_assoc]
      by_cases hk : e.1 = k
      · simp [hk]
      · simp [hk, Function.update_of_ne (Ne.symm hk)]
  have hread := (filledTable_init (V := CStr) cap).setAll (iniEntries file)
  rw [portalStoreReadIni, ← iniEntries, hread.inv.asMap.get, hupdate, Option.or_none]

/-- A value that is read has no end of line, and is shorter than the piece it is read from. -/
theorem value_of_mem_iniEntries {file : Bytes} {e : CStr × CStr} (h : e ∈ iniEntries file) :
    newline ∉ e.2.bytes ∧ e.2.bytes.length < file.length := by
  obtain ⟨s, hs, he⟩ := mem_filterMap.mp h
  obtain ⟨piece, hpiece, rfl⟩ := mem_map.mp hs
  obtain ⟨⟨line, hline, hends⟩, hlen⟩ := mem_pieces hpiece
  have hsub : trim (cText piece) <+ line := by
    have hcut : trim (cText line) <+ line := (strip_sublist _).trans (takeWhile_sublist _)
    rcases hends with rfl | rfl
    · exact hcut
    · by_cases hnul : (0 : UInt8) ∈ line
      · rwa [cText_append_of_mem hnul]
      · have hall : (0 : UInt8) ∉ line ++ [newline] := by
          rw [mem_append, not_or]
          exact ⟨hnul, by decide⟩
        rw [cText_eq_self hall, trim, strip_append_of_all _ (forall_mem_singleton.mpr rfl)]
        exact strip_sublist _
  have hpieceLen : line.length ≤ piece.length := by
    rcases hends with rfl | rfl <;> simp
  rw [iniEntry, Option.ite_none_left_eq_some, keyValue] at he
  obtain ⟨⟨before, after⟩, hcut, rfl⟩ := Option.map_eq_some_iff.mp he.2
  have htext := cutAt_eq_some hcut
  have hvalue : cText (trim after) <+ after := (takeWhile_sublist _).trans (strip_sublist _)
  constructor
  · intro hmem
    refine hline (hsub.subset ?_)
    rw [htext]
    exact mem_append_right _ (mem_cons_of_mem _ (hvalue.subset hmem))
  · have hlt := hsub.length_le
    have hle := hvalue.length_le
    rw [htext, length_append, length_cons] at hlt
    dsimp only at hlt
    change (cText (trim after)).length < file.length
    omega

theorem iniEntry_piece {k : CStr} (hk : PlainKey k) {v : Bytes} (hv : (0 : UInt8) ∉ v)
    (post : Bytes) (hpost : ∀ b ∈ post, isSpace b = true) (hnul : (0 : UInt8) ∉ post) :
    iniEntry (trim (cText (k.bytes ++ (lit " = ").bytes ++ v ++ post))) =
      some (k, .ofBytes (trim v)) := by
  have hsep : (lit " = ").bytes = (lit " =").bytes ++ [32] := by decide
  have hvalue : trim (32 :: v) = trim v := by
    rw [trim, strip, dropWhile_cons_of_pos rfl]
    rfl
  have hall : (0 : UInt8) ∉ k.bytes ++ (lit " = ").bytes ++ v ++ post := by
    simp only [mem_append, not_or]
    exact ⟨⟨⟨k.nulFree, (lit " = ").nulFree⟩, hv⟩, hnul⟩
  rw [cText_eq_self hall, trim, strip_append_of_all _ hpost, hsep, ← append_assoc,
    append_assoc, singleton_append, ← trim, iniEntry_line hk, hvalue]

theorem newline_notMem_line {k : CStr} (hk : PlainKey k) {v : Bytes} (hv : newline ∉ v) :
    newline ∉ k.bytes ++ (lit " = ").bytes ++ v := by
  simp only [mem_append, not_or]
  exact ⟨⟨hk.oneLine, by decide⟩, hv⟩

theorem length_line (k : CStr) (v : Bytes) :
    (k.bytes ++ (lit " = ").bytes ++ v).length = k.bytes.length + 3 + v.length := by
  rw [length_append, length_append, show (lit " = ").bytes.length = 3 by decide]

section Lines

variable {k v : CStr}

/-- The line of a plain key and a value of one line. One that fills the buffer leaves an empty
line. -/
theorem iniEntries_iniLine (hk : PlainKey k) (hv : newline ∉ v.bytes)
    (hfits : k.bytes.length + 3 + v.bytes.length ≤ 511) :
    iniEntries (iniLine (k, v)) = [(k, .ofBytes (trim v.bytes))] := by
  have hone := newline_notMem_line hk hv
  have hlen := length_line k v.bytes
  rw [iniEntries, fileLines, iniLine]
  rcases hfits.lt_or_eq with hlt | hfull
  · have hend := iniEntry_piece hk v.nulFree [newline]
      (forall_mem_singleton.mpr rfl) (by decide)
    rw [pieces_line hone (hlen ▸ hlt), map_cons, filterMap_cons_some hend]
    rfl
  · have hend := iniEntry_piece hk v.nulFree [] (by simp) (by simp)
    rw [append_nil] at hend
    rw [pieces_full hone (hlen.trans hfull) (by decide), map_cons, map_cons,
      filterMap_cons_some hend, filterMap_cons_none (by decide)]
    rfl

/-- A longer line is read in pieces: what does not fit the buffer is a line of its own. -/
theorem iniEntries_longLine (hk : PlainKey k) (hv : newline ∉ v.bytes) {n : Nat}
    (hfull : k.bytes.length + 3 + n = 511) (hlong : n ≤ v.bytes.length) :
    iniEntries (iniLine (k, v)) =
      (k, .ofBytes (trim (v.bytes.take n))) :: iniEntries (v.bytes.drop n ++ [newline]) := by
  have hone := newline_notMem_line hk fun h => hv (mem_of_mem_take (i := n) h)
  have hlen := length_line k (v.bytes.take n)
  rw [length_take, Nat.min_eq_left hlong] at hlen
  have hsplit : iniLine (k, v) = k.bytes ++ (lit " = ").bytes ++ v.bytes.take n ++
      (v.bytes.drop n ++ [newline]) := by
    rw [append_assoc, ← append_assoc (v.bytes.take n), take_append_drop, ← append_assoc]
    rfl
  have hend := iniEntry_piece hk (v := v.bytes.take n) (fun h => v.nulFree (mem_of_mem_take h))
    [] (by simp) (by simp)
  rw [append_nil] at hend
  rw [iniEntries, fileLines, hsplit, pieces,
    piecesFrom_full hone (hlen.trans hfull) (by decide), map_cons]
  exact filterMap_cons_some hend

end Lines

theorem PlainEntry.iniEntries {e : CStr × CStr} (he : PlainEntry e) :
    Portal.iniEntries (iniLine e) = [e] := by
  have htrim : trim e.2.bytes = e.2.bytes := by
    have hstrip := strip_around [] [] (by simp) he.value.stripped (by simp)
    rwa [nil_append, append_nil] at hstrip
  rw [iniEntries_iniLine he.key he.value.oneLine he.fits, htrim, CStr.ofBytes_bytes]

theorem readIni_writeIni {kv : PortalHt CStr} {m : CStr → Option CStr} (hkv : AsMap kv m)
    (h : ∀ e ∈ portalHtIter kv, PlainEntry e) (cap : Nat) :
    FilledTable (portalStoreReadIni (portalHtInit cap) (portalStoreWriteIni kv)) m := by
  have hread := (filledTable_init (V := CStr) cap).setAll (portalHtIter kv)
  rw [foldl_update_eq _ hkv.iter_once hkv.iter_mem] at hread
  have hentries : iniEntries (portalStoreWriteIni kv) = portalHtIter kv := by
    rw [iniEntries_writeIni, flatMap_congr fun e he => (h e he).iniEntries, flatMap_singleton']
  rwa [portalStoreReadIni, ← iniEntries, hentries]

/-- Every finite map of plain keys and values comes back from its file. -/
theorem ini_roundTrip (kv : PortalHt CStr) (m : CStr → Option CStr) (hkv : AsMap kv m)
    (h : ∀ k v, m k = some v → PlainEntry (k, v)) (cap : Nat) :
    AsMap (portalStoreReadIni (portalHtInit cap) (portalStoreWriteIni kv)) m := by
  apply FilledTable.inv _ |>.asMap
  apply readIni_writeIni hkv
  intro e he
  exact h e.1 e.2 ((hkv.iter_mem e.1 e.2).mp he)

/-- A table with two entries, one of which has an empty value. -/
theorem ini_roundTrip_name :
    AsMap (portalStoreReadIni (portalHtInit 16) (portalStoreWriteIni
        (portalHtSet (portalHtSet (portalHtInit 16) (.lit "name") (.lit "portal = 1")).1
          (.lit "port") (.lit "")).1))
      (Function.update (Function.update (fun _ => none) (.lit "name") (some (.lit "portal = 1")))
        (.lit "port") (some (.lit ""))) := by
  apply ini_roundTrip
  · exact (((filledTable_init 16).set (.lit "name") (lit "portal = 1")).set (.lit "port")
      (lit "")).inv.asMap
  intro k v hk
  rw [Function.update_apply, Function.update_apply] at hk
  split_ifs at hk with hport hname
  · obtain rfl := Option.some.inj hk
    subst hport
    exact ⟨⟨by decide, by decide, by decide⟩, by decide, by decide⟩
  · obtain rfl := Option.some.inj hk
    subst hname
    exact ⟨⟨by decide, by decide, by decide⟩, by decide, by decide⟩

end Portal
