import Mathlib.Algebra.GroupWithZero.Nat
import Mathlib.Data.List.DropRight
import Mathlib.Data.List.GetD
import Mathlib.Data.List.Infix
import Mathlib.Data.List.SplitLengths
import Portal.Core.CString

/-!
The frames that `mod_websocket` reads. One read is taken for one frame. The length that it declares
is not compared with what was received: the text is unmasked out of the memory behind the read if
need be, and what follows the frame is dropped. That memory is an argument.

The frames of RFC 6455 are stated beside the code: a frame carries the proof that its mask has four
bytes, and its payload a size that the lengths of one and of two bytes can tell.
-/

namespace Portal.Websocket

open List Option
open UInt8 (xor_zero ofNat toNat_ofNat_of_lt' size)

/-! ### The module -/

def wsBufSize : Nat := 65536

inductive WsAction where
  | idle
  | close
  | pong
  | get (path : Bytes)
deriving DecidableEq

/-- The buffer behind a read: what was received, and then what was there before. -/
def wsBuffer (received : Bytes) (behind : Nat → UInt8) (i : Nat) : UInt8 :=
  received.getD i (behind i)

def isEnd (b : UInt8) : Bool := b = 10 || b = 13 || b = 32

/-- The text up to its terminator, without the blanks before it and the blanks and line ends
behind it. -/
def wsPath (text : Bytes) : Bytes :=
  ((text.dropWhile (· = 32)).takeWhile (· ≠ 0)).rdropWhile isEnd

section Data

variable (n : Nat) (buf : Nat → UInt8)

def wsLength : Nat × Nat :=
  let len := (buf 1).toNat % 128
  if len = 126 ∧ 4 ≤ n then ((buf 2).toNat * 256 + (buf 3).toNat, 4) else (len, 2)

def wsMask (offset : Nat) : (Nat → UInt8) × Nat :=
  if 128 ≤ (buf 1).toNat ∧ offset + 4 ≤ n then (fun i => buf (offset + i % 4), offset + 4)
  else (fun _ => 0, offset)

def wsText : Bytes :=
  let (len, offset) := wsLength n buf
  let (mask, offset) := wsMask n buf offset
  (List.range (min len (wsBufSize - 1))).map fun i => buf (offset + i) ^^^ mask i

/-- `on_ws_data`, with the number of bytes that the read returned. -/
def onWsData : WsAction :=
  if n = 0 then .close
  else if n < 2 then .idle
  else
    match (buf 0).toNat % 16 with
    | 8 => .close
    | 9 => .pong
    | 1 => if 0 < (wsLength n buf).1 then .get (wsPath (wsText n buf)) else .idle
    | _ => .idle

end Data

/-- The paths that are asked for while reads come in; the memory is another at every read. -/
def wsServe (behind : Nat → Nat → UInt8) : Nat → List Bytes → List Bytes
  | _, [] => []
  | k, r :: reads =>
    match onWsData r.length (wsBuffer r (behind k)) with
    | .idle | .pong => wsServe behind (k + 1) reads
    | .close => []
    | .get path => path :: wsServe behind (k + 1) reads

structure WsFrame where
  mask : Bytes
  payload : Bytes
  mask_length : mask.length = 4
  size : 1 ≤ payload.length ∧ payload.length ≤ 65000

def lenBytes (n : Nat) : Bytes :=
  if n < 126 then [UInt8.ofNat (128 + n)]
  else [254, UInt8.ofNat (n / 256), UInt8.ofNat (n % 256)]

def WsFrame.masked (f : WsFrame) : Bytes :=
  f.payload.mapIdx fun i b => b ^^^ f.mask.getD (i % 4) 0

def WsFrame.encode (f : WsFrame) : Bytes :=
  0x81 :: (lenBytes f.payload.length ++ f.mask ++ f.masked)

def wsTrim (payload : Bytes) : Bytes := (payload.dropWhile isEnd).rdropWhile isEnd

/-- A text that the code trims as it should be. -/
def Clean (payload : Bytes) : Prop :=
  0 ∉ payload ∧ ((∀ b ∈ payload, isEnd b = true) ∨
    ∀ b, (payload.dropWhile (· = 32)).head? = some b → b ≠ 10 ∧ b ≠ 13)

/-- One request for each frame, whatever is in the memory behind the reads. -/
def Serves (frames : List WsFrame) (reads : List Bytes) : Prop :=
  ∀ behind, wsServe behind 0 reads = frames.map fun f => wsTrim f.payload

/-! ### Trimming -/

theorem mem_dropWhile_of_neg {p : UInt8 → Bool} {l : Bytes} {b : UInt8} (hb : b ∈ l)
    (hp : ¬ p b = true) : b ∈ l.dropWhile p := by
  rw [← takeWhile_append_dropWhile (p := p) (l := l)] at hb
  rcases mem_append.mp hb with h | h
  · exact absurd (mem_takeWhile_imp h) hp
  · exact h

theorem mem_rdropWhile_of_neg {p : UInt8 → Bool} {l : Bytes} {b : UInt8} (hb : b ∈ l)
    (hp : ¬ p b = true) : b ∈ l.rdropWhile p :=
  mem_reverse.mpr (mem_dropWhile_of_neg (mem_reverse.mpr hb) hp)

/-- What begins with neither a blank nor a line end keeps its first byte. -/
theorem head?_rdropWhile {l : Bytes} {b : UInt8} (hb : l.head? = some b)
    (hrest : ∃ x ∈ l, ¬ isEnd x = true) : (l.rdropWhile isEnd).head? = some b := by
  obtain ⟨x, hx, hxend⟩ := hrest
  have hmem := mem_rdropWhile_of_neg hx hxend
  have hprefix : l.rdropWhile isEnd <+: l := rdropWhile_prefix _ _
  cases hl : l.rdropWhile isEnd with
  | nil =>
    rw [hl] at hmem
    cases hmem
  | cons y rest =>
    rw [hl] at hprefix
    obtain ⟨more, hmore⟩ := hprefix
    rw [← hmore] at hb
    exact hb

theorem dropWhile_blanks (l : Bytes) :
    (l.dropWhile (· = 32)).dropWhile isEnd = l.dropWhile isEnd := by
  induction l with
  | nil => rfl
  | cons b l ih =>
    by_cases hb : b = 32
    · subst hb
      rw [dropWhile_cons_of_pos (by decide), dropWhile_cons_of_pos (by decide), ih]
    · rw [dropWhile_cons_of_neg (by simpa using hb)]

theorem wsPath_of_noNul {text : Bytes} (h : 0 ∉ text) :
    wsPath text = (text.dropWhile (· = 32)).rdropWhile isEnd := by
  rw [wsPath, takeWhile_eq_self_iff.mpr]
  intro b hb
  rw [decide_eq_true_eq]
  rintro rfl
  exact h ((dropWhile_suffix _).subset hb)

/-- The code trims a text as it should exactly when the text is clean. -/
theorem wsPath_eq_iff (payload : Bytes) : wsPath payload = wsTrim payload ↔ Clean payload := by
  have hblank : ¬ isEnd 0 = true := by decide
  constructor
  · intro heq
    have hzero : 0 ∉ payload := by
      intro hmem
      have htrim : 0 ∈ wsTrim payload :=
        mem_rdropWhile_of_neg (mem_dropWhile_of_neg hmem hblank) hblank
      rw [← heq] at htrim
      have htake := ( List.rdropWhile_prefix isEnd _).subset htrim
      simpa using mem_takeWhile_imp htake
    refine ⟨hzero, ?_⟩
    by_cases hall : ∀ b ∈ payload, isEnd b = true
    · exact .inl hall
    · right
      intro b hb
      rw [not_forall] at hall
      obtain ⟨x, hx⟩ := hall
      rw [Classical.not_imp] at hx
      obtain ⟨hmem, hxend⟩ := hx
      have hx32 : ¬ (decide (x = 32)) = true := by
        intro h
        rw [decide_eq_true_eq] at h
        subst h
        exact hxend (by decide)
      have hcode : (wsPath payload).head? = some b := by
        rw [wsPath_of_noNul hzero]
        exact head?_rdropWhile hb ⟨x, mem_dropWhile_of_neg hmem hx32, hxend⟩
      -- what is left begins with something else than a line end
      have hleft : x ∈ payload.dropWhile isEnd := mem_dropWhile_of_neg hmem hxend
      cases hdrop : payload.dropWhile isEnd with
      | nil =>
        rw [hdrop] at hleft
        cases hleft
      | cons y rest =>
        have hy : ¬ isEnd y = true := by
          have hhead := head?_dropWhile_not isEnd payload
          rw [hdrop] at hhead
          simpa using hhead
        rw [hdrop] at hleft
        have htrim : (wsTrim payload).head? = some y := by
          rw [wsTrim, hdrop]
          exact head?_rdropWhile rfl ⟨x, hleft, hxend⟩
        rw [heq, htrim] at hcode
        obtain rfl := some.inj hcode
        constructor
        · rintro rfl
          exact hy (by decide)
        · rintro rfl
          exact hy (by decide)
  · rintro ⟨hzero, hlead⟩
    rw [wsPath_of_noNul hzero, wsTrim]
    rcases hlead with hall | hlead
    · have hcode : (payload.dropWhile (· = 32)).rdropWhile isEnd = [] :=
        rdropWhile_eq_nil_iff.mpr fun x hx =>
          hall x ((dropWhile_suffix _).subset hx)
      have hnone : payload.dropWhile isEnd = [] := by
        rw [dropWhile_eq_nil_iff]
        exact hall
      rw [hcode, hnone]
      rfl
    · rw [← dropWhile_blanks payload]
      congr 1
      cases hdrop : payload.dropWhile (· = 32) with
      | nil => rfl
      | cons b rest =>
        have hb32 : b ≠ 32 := by
          have hhead := head?_dropWhile_not (fun b : UInt8 => decide (b = 32)) payload
          rw [hdrop] at hhead
          simpa using hhead
        have hends := hlead b (by rw [hdrop]; rfl)
        rw [dropWhile_cons_of_neg]
        simp [isEnd, hb32, hends]

section Whole

variable (behind : Nat → UInt8)

theorem length_masked (f : WsFrame) : f.masked.length = f.payload.length :=
  length_mapIdx

theorem unmasked (f : WsFrame) (hdr more : Bytes) :
    ((List.range f.payload.length).map fun i =>
      wsBuffer (hdr ++ f.mask ++ f.masked ++ more) behind (hdr.length + 4 + i) ^^^
        wsBuffer (hdr ++ f.mask ++ f.masked ++ more) behind (hdr.length + i % 4)) =
      f.payload := by
  have hmask := f.mask_length
  apply ext_getElem
  · rw [length_map, length_range]
  intro i hi hi'
  have hbyte : wsBuffer (hdr ++ f.mask ++ f.masked ++ more) behind (hdr.length + 4 + i) =
      f.payload[i] ^^^ f.mask.getD (i % 4) 0 := by
    rw [wsBuffer, getD_append _ _ _ _ (by simp [length_masked, hmask]; omega),
      getD_append_right _ _ _ _ (by simp [hmask]), getD_eq_getElem?_getD,
      WsFrame.masked, getElem?_mapIdx]
    have hindex : hdr.length + 4 + i - (hdr ++ f.mask).length = i := by
      simp [hmask]
    rw [hindex, getElem?_eq_getElem hi']
    rfl
  have hkey : wsBuffer (hdr ++ f.mask ++ f.masked ++ more) behind (hdr.length + i % 4) =
      f.mask.getD (i % 4) 0 := by
    rw [wsBuffer, append_assoc, getD_append _ _ _ _ (by simp [hmask]; omega),
      getD_append_right _ _ _ _ (by omega), Nat.add_sub_cancel_left,
      getD_eq_getElem _ _ (by omega), getD_eq_getElem _ _ (by omega)]
  rw [getElem_map, getElem_range, hbyte, hkey, UInt8.xor_assoc, UInt8.xor_self, xor_zero]

theorem wsLength_header {len : Nat} (hlen : len ≤ 65000) (rest : Bytes) {n : Nat}
    (hn : (0x81 :: lenBytes len).length ≤ n) :
    wsLength n (wsBuffer (0x81 :: lenBytes len ++ rest) behind) =
        (len, (0x81 :: lenBytes len).length) ∧
      128 ≤ (wsBuffer (0x81 :: lenBytes len ++ rest) behind 1).toNat := by
  unfold lenBytes at hn ⊢
  by_cases hshort : len < 126
  · have hbyte : (ofNat (128 + len)).toNat = 128 + len :=
      toNat_ofNat_of_lt' (by rw [size]; omega)
    rw [if_pos hshort] at hn ⊢
    simp only [wsLength, wsBuffer, cons_append, getD_cons_succ, getD_cons_zero, hbyte]
    rw [if_neg (by omega)]
    refine ⟨?_, by omega⟩
    rw [Nat.add_mod_left, Nat.mod_eq_of_lt (by omega)]
    rfl
  · have hhigh : (ofNat (len / 256)).toNat = len / 256 :=
      toNat_ofNat_of_lt' (by rw [size]; omega)
    have hlow : (ofNat (len % 256)).toNat = len % 256 :=
      toNat_ofNat_of_lt' (by rw [size]; omega)
    rw [if_neg hshort] at hn ⊢
    simp only [wsLength, wsBuffer, cons_append, getD_cons_succ, getD_cons_zero, hhigh, hlow]
    rw [if_pos ⟨by decide, hn⟩]
    refine ⟨?_, by decide⟩
    rw [Nat.div_add_mod']
    rfl

theorem onWsData_encode (f : WsFrame) (more : Bytes) :
    onWsData (f.encode ++ more).length (wsBuffer (f.encode ++ more) behind) =
      .get (wsPath f.payload) := by
  have hsize := f.size
  have hmask := f.mask_length
  have hencode : f.encode ++ more =
      0x81 :: lenBytes f.payload.length ++ f.mask ++ f.masked ++ more := by
    simp [WsFrame.encode]
  have hlength : (f.encode ++ more).length = (0x81 :: lenBytes f.payload.length).length + 4 +
      f.payload.length + more.length := by
    simp only [hencode, length_append, hmask, length_masked]
  obtain ⟨hlen, hbit⟩ := wsLength_header behind hsize.2 (f.mask ++ f.masked ++ more)
    (n := (f.encode ++ more).length) (by omega)
  rw [← append_assoc, ← append_assoc, ← hencode] at hlen hbit
  have htext : wsText (f.encode ++ more).length (wsBuffer (f.encode ++ more) behind) =
      f.payload := by
    have hcut : min f.payload.length (wsBufSize - 1) = f.payload.length := by
      rw [wsBufSize]
      omega
    unfold wsText
    rw [hlen]
    dsimp only
    rw [wsMask, if_pos ⟨hbit, by omega⟩, hcut]
    rw [hencode]
    exact unmasked behind f _ more
  have hopcode : (wsBuffer (f.encode ++ more) behind 0).toNat % 16 = 1 := by
    simp only [hencode, wsBuffer, cons_append, getD_cons_zero]
    rfl
  rw [length_cons] at hlength
  unfold onWsData
  rw [if_neg (by omega), if_neg (by omega), hopcode]
  simp only [hlen, htext]
  rw [if_pos (by omega)]

theorem wsServe_frames (behind : Nat → Nat → UInt8) (k : Nat) (frames : List WsFrame) :
    wsServe behind k (frames.map WsFrame.encode) = frames.map fun f => wsPath f.payload := by
  induction frames generalizing k with
  | nil => rfl
  | cons f frames ih =>
    have hread := onWsData_encode (behind k) f []
    rw [append_nil] at hread
    rw [map_cons, wsServe, hread, map_cons]
    rw [ih]

/-- Frames that are read one by one are served exactly when their texts are clean. -/
theorem serves_frames_iff (frames : List WsFrame) :
    Serves frames (frames.map WsFrame.encode) ↔ ∀ f ∈ frames, Clean f.payload := by
  unfold Serves
  simp [wsServe_frames, wsPath_eq_iff]

end Whole

/-! ### Reads that are not the frames -/

theorem onWsData_get {n : Nat} {buf : Nat → UInt8} {path : Bytes}
    (h : onWsData n buf = .get path) :
    2 ≤ n ∧ (buf 0).toNat % 16 = 1 ∧ path.length ≤ (wsLength n buf).1 := by
  unfold onWsData at h
  split at h
  · cases h
  split at h
  · cases h
  split at h
  · cases h
  · cases h
  · rename_i hshort _ hopcode
    split at h
    · cases h
      refine ⟨not_lt.mp hshort, hopcode, ?_⟩
      have hle := (( List.rdropWhile_prefix isEnd _).sublist.trans ((takeWhile_sublist
        (l := (wsText n buf).dropWhile (· = 32)) (· ≠ 0)).trans
          (dropWhile_sublist _))).length_le
      refine hle.trans ?_
      unfold wsText
      rw [length_map, length_range]
      exact min_le_left _ _
    · cases h
  · cases h

/-- A frame of the same size, with a mask of zeroes and a text whose last letter is free. -/
def WsFrame.ending (x : UInt8) (f : WsFrame) : WsFrame where
  mask := [0, 0, 0, 0]
  payload := List.replicate (f.payload.length - 1) 98 ++ [x]
  mask_length := rfl
  size := by
    have hsize := f.size
    rw [List.length_append, List.length_replicate, List.length_singleton]
    omega

def WsFrame.front (f : WsFrame) : Bytes :=
  0x81 :: (lenBytes f.payload.length ++ [0, 0, 0, 0] ++ List.replicate (f.payload.length - 1) 98)

theorem length_ending (x : UInt8) (f : WsFrame) :
    (f.ending x).payload.length = f.payload.length := by
  have hsize := f.size
  rw [WsFrame.ending, length_append, length_replicate, length_singleton]
  omega

theorem encode_ending (x : UInt8) (f : WsFrame) : (f.ending x).encode =
    0x81 :: lenBytes f.payload.length ++ [0, 0, 0, 0] ++ (f.ending x).payload := by
  have hkey : ∀ i : Nat, ([0, 0, 0, 0] : Bytes).getD i 0 = 0 := by
    intro i
    change (List.replicate 4 (0 : UInt8)).getD i 0 = 0
    rw [getD_eq_getElem?_getD, getElem?_replicate]
    split <;> rfl
  have hmasked : (f.ending x).masked = (f.ending x).payload := by
    apply ext_getElem
    · rw [length_masked]
    intro i hi hi'
    simp only [WsFrame.masked, WsFrame.ending, getElem_mapIdx, hkey, xor_zero]
  rw [WsFrame.encode, hmasked, length_ending]
  rfl

theorem encode_front (x : UInt8) (f : WsFrame) : (f.ending x).encode = f.front ++ [x] := by
  rw [encode_ending]
  simp [WsFrame.ending, WsFrame.front]

theorem length_encode (f : WsFrame) :
    f.encode.length = (lenBytes f.payload.length).length + f.payload.length + 5 := by
  simp only [WsFrame.encode, length_cons, length_append, length_masked, f.mask_length]
  omega

theorem encode_lengths {fs frames : List WsFrame}
    (h : fs.map (·.payload.length) = frames.map (·.payload.length)) :
    fs.map (·.encode.length) = frames.map (·.encode.length) := by
  have hlength : ∀ l : List WsFrame, l.map (·.encode.length) =
      (l.map (·.payload.length)).map fun n => (lenBytes n).length + n + 5 := by
    intro l
    rw [List.map_map]
    exact map_congr_left fun g _ => length_encode g
  rw [hlength, hlength, h]

section Misread

variable (f : WsFrame) {x : UInt8} (hx : x = 98 ∨ x = 99)
include hx

theorem ending_letters : ∀ b ∈ (f.ending x).payload, b = 98 ∨ b = 99 := by
  intro b hb
  rcases mem_append.mp hb with hb | hb
  · exact .inl (eq_of_mem_replicate hb)
  · rw [mem_singleton.mp hb]
    exact hx

theorem ending_isEnd : ∀ b ∈ (f.ending x).payload, ¬ isEnd b = true := by
  intro b hb
  rcases ending_letters f hx b hb with rfl | rfl
  · decide
  · decide

theorem clean_ending : Clean (f.ending x).payload := by
  refine ⟨fun h => ?_, .inr fun b hb => ?_⟩
  · rcases ending_letters f hx 0 h with h | h
    · cases h
    · cases h
  have hend := ending_isEnd f hx b ((dropWhile_suffix _).subset (mem_of_head? hb))
  constructor
  · rintro rfl
    exact hend (by decide)
  · rintro rfl
    exact hend (by decide)

theorem wsTrim_ending : wsTrim (f.ending x).payload = (f.ending x).payload := by
  have hend := ending_isEnd f hx
  rw [wsTrim, dropWhile_eq_self_iff.mpr, rdropWhile_eq_self_iff]
  · intro hne
    exact hend _ (getLast_mem hne)
  · intro hpos
    exact hend _ (getElem_mem hpos)

/-- The text of a frame is not asked for by a read that begins within the frame. -/
theorem ne_of_inside {o : Nat} (ho : 0 < o) (hlt : o < (f.ending x).encode.length)
    {r rest : Bytes} (hr : r <+: ((f.ending x).encode ++ rest).drop o) (behind : Nat → UInt8) :
    onWsData r.length (wsBuffer r behind) ≠ .get (f.ending x).payload := by
  intro hget
  obtain ⟨hn, hopcode, hle⟩ := onWsData_get hget
  have hsize := f.size
  rw [length_ending] at hle
  have hbyte : ∀ i, i < r.length → wsBuffer r behind i =
      ((f.ending x).encode ++ rest).getD (o + i) 0 := by
    intro i hi
    rw [wsBuffer, getD_eq_getElem _ _ hi, hr.getElem hi, getElem_drop, getD_eq_getElem]
  rw [hbyte 0 (by omega), add_zero] at hopcode
  rw [wsLength, hbyte 1 (by omega)] at hle
  have hbody : (lenBytes f.payload.length).length < o → False := by
    intro ho
    -- behind the length there are zeroes and letters
    have hmem : ((f.ending x).encode ++ rest).getD o 0 ∈ [0, 0, 0, 0] ++ (f.ending x).payload := by
      rw [getD_append _ _ _ _ hlt, getD_eq_getElem _ _ hlt]
      simp only [encode_ending, append_assoc]
      rw [getElem_append_right (by rw [length_cons]; omega)]
      exact getElem_mem _
    rcases mem_append.mp hmem with hzero | hletter
    · have hzero : ((f.ending x).encode ++ rest).getD o 0 = 0 := by simpa using hzero
      rw [hzero] at hopcode
      cases hopcode
    · rcases ending_letters f hx _ hletter with h | h
      · rw [h] at hopcode
        cases hopcode
      · rw [h] at hopcode
        cases hopcode
  have hend := not_lt.mp hbody
  rw [encode_ending] at hopcode hle hbyte
  unfold lenBytes at hend hopcode hle hbyte
  by_cases hshort : f.payload.length < 126
  · rw [if_pos hshort] at hend hopcode hle
    obtain rfl : o = 1 := by
      simp only [length_singleton] at hend
      omega
    have hnone : f.payload.length ≤ 0 := by simpa using hle
    omega
  · rw [if_neg hshort] at hend hopcode hle hbyte
    simp only [length_cons, length_nil] at hend
    rcases (by omega : o = 1 ∨ o = 2 ∨ o = 3) with rfl | rfl | rfl
    · simp only [cons_append, getD_cons_succ, getD_cons_zero] at hopcode
      exact absurd hopcode (by decide)
    · have hhigh : (ofNat (f.payload.length / 256)).toNat = f.payload.length / 256 :=
        toNat_ofNat_of_lt' (by rw [size]; omega)
      simp only [cons_append, getD_cons_succ, getD_cons_zero, hhigh] at hopcode hle
      split at hle
      · rename_i hext
        rw [hbyte 2 (by omega), hbyte 3 (by omega)] at hle
        have hnone : f.payload.length ≤ 0 := by simpa using hle
        omega
      · simp only at hle
        omega
    · have hnone : f.payload.length ≤ 0 := by simpa using hle
      omega

end Misread

section Cut

variable (behind : Nat → Nat → UInt8) (k n : Nat) (lens : List Nat)

theorem wsServe_cut (l : Bytes) : wsServe behind k ((n :: lens).splitLengths l) =
    match onWsData (l.take n).length (wsBuffer (l.take n) (behind k)) with
    | .idle | .pong => wsServe behind (k + 1) (lens.splitLengths (l.drop n))
    | .close => []
    | .get path => path :: wsServe behind (k + 1) (lens.splitLengths (l.drop n)) := by
  rw [splitLengths, splitAt_eq]
  rfl

theorem wsServe_whole (f : WsFrame) {x : UInt8} (hx : x = 98 ∨ x = 99) (rest : Bytes)
    (hn : f.front.length < n) :
    wsServe behind k ((n :: lens).splitLengths ((f.ending x).encode ++ rest)) =
      (f.ending x).payload :: wsServe behind (k + 1)
        (lens.splitLengths (rest.drop (n - (f.ending x).encode.length))) := by
  have hlength : (f.ending x).encode.length = f.front.length + 1 := by
    rw [encode_front, length_append, length_singleton]
  rw [wsServe_cut, take_append, take_of_length_le (by omega), onWsData_encode,
    (wsPath_eq_iff _).mpr (clean_ending f hx), wsTrim_ending f hx, drop_append,
    drop_eq_nil_of_le (by omega)]
  rfl

variable {n lens}

/-- Reads that do not begin with the frame, or do not have its last letter, do not ask for its
text, whatever this letter is. -/
theorem text_missed (f : WsFrame) (rest : Bytes) (hpos : ∀ n ∈ lens, 0 < n) {o : Nat}
    (ho : 0 < o ∨ ∀ n ∈ lens.head?, n ≤ f.front.length) :
    ¬ ∀ x : UInt8, x = 98 ∨ x = 99 →
      (wsServe behind k (lens.splitLengths (((f.ending x).encode ++ rest).drop o))).head? =
        some (f.ending x).payload := by
  have hdiffer : (f.ending 98).payload ≠ (f.ending 99).payload := by
    intro h
    exact absurd (append_cancel_left h) (by decide)
  induction lens generalizing o k with
  | nil =>
    intro hfirst
    cases hfirst 98 (.inl rfl)
  | cons n lens ih =>
    intro hfirst
    obtain ⟨hn, hpos⟩ := forall_mem_cons.mp hpos
    by_cases hpast : f.front.length < o
    · -- nothing is left of the frame
      have hrest : ∀ x, ((f.ending x).encode ++ rest).drop o =
          rest.drop (o - (f.front.length + 1)) := by
        intro x
        rw [encode_front, drop_append, drop_eq_nil_of_le (by simpa using Nat.succ_le_of_lt hpast)]
        simp
      have h98 := hfirst 98 (.inl rfl)
      have h99 := hfirst 99 (.inr rfl)
      rw [hrest] at h98 h99
      exact hdiffer (some.inj (h98.symm.trans h99))
    refine ih (k + 1) hpos (.inl (by omega : 0 < o + n)) fun x hx => ?_
    rw [← drop_drop]
    have hx' := hfirst x hx
    rw [wsServe_cut] at hx'
    split at hx'
    · exact hx'
    · exact hx'
    · cases hx'
    rename_i path hget
    rw [some.inj hx'] at hget
    exfalso
    rcases Nat.eq_zero_or_pos o with rfl | ho
    · -- the read is the same for both letters
      have hn := ho.resolve_left (lt_irrefl 0) n rfl
      have hread : ∀ y, (((f.ending y).encode ++ rest).drop 0).take n = f.front.take n := by
        intro y
        rw [drop_zero, encode_front, append_assoc, take_append_of_le_length hn]
      have hboth : ∀ y, y = 98 ∨ y = 99 → (f.ending x).payload = (f.ending y).payload := by
        intro y hy
        have hy' := hfirst y hy
        rw [wsServe_cut, hread, ← hread x, hget] at hy'
        exact some.inj hy'
      exact hdiffer ((hboth 98 (.inl rfl)).symm.trans (hboth 99 (.inr rfl)))
    · have hlt : o < (f.ending x).encode.length := by
        rw [encode_front, length_append, length_singleton]
        omega
      exact ne_of_inside f hx ho hlt ( List.take_prefix _ _) _ hget

/-- Reads of these lengths serve all frames of these sizes: then they are the frames. -/
theorem lens_eq_of_served {frames : List WsFrame} (hpos : ∀ n ∈ lens, 0 < n)
    (hsum : lens.sum = (frames.map (·.encode.length)).sum)
    (hall : ∀ fs : List WsFrame, fs.map (·.payload.length) = frames.map (·.payload.length) →
      (∀ f ∈ fs, Clean f.payload) →
      wsServe behind k (lens.splitLengths (fs.map WsFrame.encode).flatten) =
        fs.map fun f => wsTrim f.payload) :
    lens = frames.map (·.encode.length) := by
  induction frames generalizing lens k with
  | nil =>
    cases lens with
    | nil => rfl
    | cons n lens =>
      have hn := hpos n mem_cons_self
      simp only [map_nil, sum_nil, sum_cons] at hsum
      omega
  | cons f frames ih =>
    have hlength : ∀ (x : UInt8) (g : WsFrame), (g.ending x).encode.length = g.encode.length := by
      intro x g
      rw [length_encode, length_encode, length_ending]
    have hfront : f.encode.length = f.front.length + 1 := by
      rw [← hlength 98, encode_front, length_append, length_singleton]
    cases lens with
    | nil =>
      rw [map_cons, sum_cons, sum_nil] at hsum
      omega
    | cons n lens =>
      have hpos' := (forall_mem_cons.mp hpos).2
      rw [map_cons, sum_cons, sum_cons] at hsum
      rcases lt_trichotomy n f.encode.length with hlt | rfl | hgt
      · refine absurd (fun x hx => ?_) (text_missed behind k f
          ((frames.map (WsFrame.ending 98)).map WsFrame.encode).flatten hpos (o := 0) (.inr ?_))
        · have hserve := hall (f.ending x :: frames.map (WsFrame.ending 98)) (by
            simp [length_ending]) (by
            simp [clean_ending, hx])
          rw [drop_zero]
          rw [map_cons, flatten_cons] at hserve
          rw [hserve, map_cons, head?_cons, wsTrim_ending f hx]
        · rintro m ⟨⟩
          omega
      · rw [map_cons, List.cons.injEq]
        refine ⟨rfl, ih (k + 1) hpos' (Nat.add_left_cancel hsum) fun fs hsizes hclean => ?_⟩
        have hserve := hall (f.ending 98 :: fs) (by
          rw [map_cons, hsizes, map_cons, length_ending]) (by
          exact forall_mem_cons.mpr ⟨clean_ending f (.inl rfl), hclean⟩)
        rw [map_cons, flatten_cons, wsServe_whole _ _ _ _ _ (.inl rfl) _ (by omega),
          hlength, Nat.sub_self, drop_zero] at hserve
        exact (List.cons.inj hserve).2
      · cases frames with
        | nil =>
          rw [map_nil, sum_nil] at hsum
          omega
        | cons g frames =>
          refine absurd (fun x hx => ?_) (text_missed behind (k + 1) g
            ((frames.map (WsFrame.ending 98)).map WsFrame.encode).flatten hpos'
            (.inl (Nat.sub_pos_of_lt hgt)))
          have hserve := hall (f.ending 98 :: g.ending x :: frames.map (WsFrame.ending 98)) (by
            simp [length_ending]) (by
            simp [clean_ending, hx])
          rw [map_cons, flatten_cons, wsServe_whole _ _ _ _ _ (.inl rfl) _ (by omega),
            hlength, map_cons, map_cons, flatten_cons] at hserve
          rw [(List.cons.inj hserve).2, map_cons, head?_cons, wsTrim_ending g hx]

end Cut

/-! ### One request for each frame -/

/-- Reads that are the frames serve them exactly when their texts are clean. And reads of given
lengths serve all frames of given sizes with clean texts exactly when the lengths are those of the
frames. -/
theorem one_request_iff (frames : List WsFrame) (reads : List Bytes)
    (hreads : reads.flatten = (frames.map WsFrame.encode).flatten) (hne : ∀ r ∈ reads, r ≠ []) :
    (reads = frames.map WsFrame.encode →
      (Serves frames reads ↔ ∀ f ∈ frames, Clean f.payload)) ∧
    ((∀ (fs : List WsFrame) (rs : List Bytes),
        fs.map (·.payload.length) = frames.map (·.payload.length) →
        rs.map List.length = reads.map List.length →
        rs.flatten = (fs.map WsFrame.encode).flatten →
        (∀ f ∈ fs, Clean f.payload) → Serves fs rs) ↔
      reads = frames.map WsFrame.encode) := by
  constructor
  · rintro rfl
    exact serves_frames_iff frames
  constructor
  · intro hall
    have hsum : (reads.map List.length).sum = (frames.map (·.encode.length)).sum := by
      rw [← length_flatten, hreads, length_flatten, List.map_map]
      rfl
    have hpos : ∀ n ∈ reads.map List.length, 0 < n := by
      intro n hn
      obtain ⟨r, hr, rfl⟩ := mem_map.mp hn
      exact length_pos_iff.mpr (hne r hr)
    have hlens := lens_eq_of_served (fun _ _ => 0) 0 hpos hsum
      fun fs hsizes hclean => by
        have htotal : (fs.map WsFrame.encode).flatten.length = (reads.map List.length).sum := by
          rw [length_flatten, List.map_map, hsum]
          exact congrArg sum (encode_lengths hsizes)
        exact hall fs _ hsizes (map_splitLengths_length _ _ htotal.ge)
          (flatten_splitLengths _ _ htotal.le) hclean _
    refine eq_iff_flatten_eq.mpr ⟨hreads, ?_⟩
    rw [List.map_map]
    exact hlens
  rintro rfl fs rs hsizes hlens hflat hclean
  have hrs : rs = fs.map WsFrame.encode := by
    refine eq_iff_flatten_eq.mpr ⟨hflat, ?_⟩
    rw [hlens, List.map_map, List.map_map]
    exact (encode_lengths hsizes).symm
  rw [hrs]
  exact (serves_frames_iff fs).mpr hclean

def sampleFrame : WsFrame := ⟨[1, 2, 3, 4], [32, 47, 97, 10], rfl, by decide⟩

def otherFrame : WsFrame := ⟨[5, 6, 7, 8], [47, 98], rfl, by decide⟩

theorem one_request_sample :
    Serves [sampleFrame, otherFrame] [sampleFrame.encode, otherFrame.encode] :=
  ((one_request_iff _ [sampleFrame.encode, otherFrame.encode] rfl (by decide)).1 rfl).mpr (by
    intro f hf
    simp only [mem_cons, not_mem_nil, or_false] at hf
    rcases hf with rfl | rfl
    · refine ⟨by decide, .inr fun b hb => ?_⟩
      obtain rfl : 47 = b := some.inj hb
      decide
    · refine ⟨by decide, .inr fun b hb => ?_⟩
      obtain rfl : 47 = b := some.inj hb
      decide)

/-- Two frames in one read give one request; and that for a frame whose last two bytes are in the
next read is made up from memory. -/
theorem one_request_shared_read :
    ¬ Serves [sampleFrame, sampleFrame] [sampleFrame.encode ++ sampleFrame.encode] ∧
    ¬ Serves [sampleFrame] [sampleFrame.encode.take 8, sampleFrame.encode.drop 8] := by
  constructor
  · intro h
    exact absurd (h fun _ _ => 0) (by decide +kernel)
  · intro h
    exact absurd (h fun _ _ => 98) (by decide +kernel)

end Portal.Websocket
