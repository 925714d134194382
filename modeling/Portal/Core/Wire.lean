import Portal.Core.Message
import Portal.Lib.Cursor
import Portal.Lib.Framing
import Mathlib.Data.Set.List

/-!
The wire format of `src/core/core_wire.c`: length-prefixed binary messages and responses in network
byte order.

An encoder adds up the size of the buffer and then fills it; `Encoded` keeps the two results apart.
A NULL that the source would pass to `strlen` makes it return `none`. A decoder is a reader over
the received bytes; what it wrote before it gave up stays in the message. Allocation is taken to
succeed.

A frame (`MsgFrame`, `RespFrame`) is what a well-formed buffer stands for.
-/

namespace Portal

open List Cursor Option

variable {s body : Bytes} {c : PortalCtx}

def writeU8 (v : UInt8) : Bytes := beEncode 1 v.toNat
def writeU16 (v : UInt16) : Bytes := beEncode 2 v.toNat
def writeU32 (v : UInt32) : Bytes := beEncode 4 v.toNat
def writeU64 (v : UInt64) : Bytes := beEncode 8 v.toNat

def writeStr (s : Bytes) (len : UInt16) : Bytes := writeU16 len ++ s.take len.toNat
def writeBlob (d : Bytes) (len : UInt32) : Bytes := writeU32 len ++ d.take len.toNat

/-- `(uint16_t)strlen(s)` -/
def strlen16 (s : Bytes) : UInt16 := UInt16.ofNat (strlen s)

/-- `*out_len`, the size of the allocated buffer, and the bytes the write pass stores from its
start on. -/
structure Encoded where
  outLen : Nat
  written : Bytes
deriving DecidableEq

/-- The strings of one header; `none` when the source would dereference a NULL. -/
def derefHeader (h : PortalHeader) : Option (Bytes × Bytes) := do
  let k ← h.key
  let v ← h.value
  some (k, v)

/-- Headers `0 .. header_count - 1`; `none` when one of them is not allocated or holds
a NULL. -/
def derefHeaders (b : PortalHeaders) : Option (List (Bytes × Bytes)) :=
  if b.headers.length < b.headerCount.toNat then none
  else (b.headers.take b.headerCount.toNat).mapM derefHeader

def headersSize (hs : List (Bytes × Bytes)) : Nat :=
  (hs.map fun h => (2 + strlen h.1) + (2 + strlen h.2)).sum

def writeHeader (h : Bytes × Bytes) : Bytes :=
  writeStr h.1 (strlen16 h.1) ++ writeStr h.2 (strlen16 h.2)

/-! ### Encoders -/

def CharPtr.orEmpty (s : CharPtr) : Bytes := s.getD []

def ctxSize (c : PortalCtx) : Nat :=
  2 + (strlen16 c.auth.user.orEmpty).toNat + 2 + (strlen16 c.auth.token.orEmpty).toNat
    + 8 + 8 + 8 + 2 + 2 + (c.auth.labels.labels.map fun l => 2 + strlen l.bytes).sum

def writeCtx (c : PortalCtx) : Bytes :=
  writeStr c.auth.user.orEmpty (strlen16 c.auth.user.orEmpty) ++
  (writeStr c.auth.token.orEmpty (strlen16 c.auth.token.orEmpty) ++
  (writeU64 c.trace.traceId ++ (writeU64 c.trace.parentId ++ (writeU64 c.trace.timestampUs ++
  (writeU16 c.trace.hops ++
  (writeU16 (UInt16.ofNat c.auth.labels.count) ++
  c.auth.labels.labels.flatMap fun l => writeStr l.bytes (strlen16 l.bytes)))))))

def hasCtxSize : Option PortalCtx → Nat
  | some c => 1 + ctxSize c
  | none => 1

def writeHasCtx : Option PortalCtx → Bytes
  | some c => writeU8 1 ++ writeCtx c
  | none => writeU8 0

def portalWireEncodeMsg (msg : PortalMsg) : Option Encoded := do
  let hs ← derefHeaders msg.toPortalHeaders
  let pathLen := strlen16 msg.path.orEmpty
  let size := 4 + (8 + 1) + (2 + pathLen.toNat) + 2 + headersSize hs + (4 + msg.body.length)
    + hasCtxSize msg.ctx
  some
    { outLen := size
      written :=
        writeU32 (UInt32.ofNat (size - 4)) ++ (writeU64 msg.id ++ (writeU8 msg.method ++
        (writeStr msg.path.orEmpty pathLen ++
        (writeU16 msg.headerCount ++ (hs.flatMap writeHeader ++
        (writeBlob msg.body (UInt32.ofNat msg.body.length) ++ writeHasCtx msg.ctx)))))) }

def portalWireEncodeResp (resp : PortalResp) : Option Encoded := do
  let hs ← derefHeaders resp.toPortalHeaders
  let size := 4 + 2 + 2 + headersSize hs + (4 + resp.body.length)
  some
    { outLen := size
      written :=
        writeU32 (UInt32.ofNat (size - 4)) ++ (writeU16 resp.status ++
        (writeU16 resp.headerCount ++ (hs.flatMap writeHeader ++
        writeBlob resp.body (UInt32.ofNat resp.body.length)))) }

section Readers

variable {σ : Type}

def readU8 : Reader σ UInt8 := do
  let v ← word 1
  pure (UInt8.ofNat v)

def readU16 : Reader σ UInt16 := do
  let v ← word 2
  pure (UInt16.ofNat v)

def readU32 : Reader σ UInt32 := do
  let v ← word 4
  pure (UInt32.ofNat v)

def readU64 : Reader σ UInt64 := do
  let v ← word 8
  pure (UInt64.ofNat v)

def readStr : Reader σ CharPtr := do
  let len ← readU16
  if len = 0 then pure none
  else do
    let s ← take len.toNat
    pure (some s)

/-- `read_str` behind its two bounds checks: the length field, then the whole string. -/
def checkedStr : Reader σ CharPtr := do
  check 2
  let len ← peek 2
  check (2 + beDecode len)
  readStr

/-- From the store of `header_count` to the end of the header loop. `upd` applies a
change to the header table of the output. -/
def readHeaders (upd : (PortalHeaders → PortalHeaders) → σ → σ) (count : UInt16) :
    Reader σ Unit := do
  modify (upd fun b => { b with headerCount := count })
  if portalMaxHeaders < count.toNat then reject
  else if count.toNat = 0 then pure ()
  else do
    modify (upd fun b => { b with headers := List.replicate count.toNat .zero })
    forRange count.toNat fun i => do
      let key ← checkedStr
      modify (upd fun b => { b with headers := b.headers.modify i fun h => { h with key } })
      let value ← checkedStr
      modify (upd fun b => { b with headers := b.headers.modify i fun h => { h with value } })

/-- The body: `setBody` is only called when the length is not zero. -/
def readBody (setBody : Bytes → σ → σ) : Reader σ Unit := do
  check 4
  let bodyLen ← readU32
  if bodyLen.toNat = 0 then pure ()
  else do
    check bodyLen.toNat
    let body ← take bodyLen.toNat
    modify (setBody body)

end Readers

/-! ### Decoders -/

def PortalMsg.updHeaders (f : PortalHeaders → PortalHeaders) (msg : PortalMsg) : PortalMsg :=
  { msg with toPortalHeaders := f msg.toPortalHeaders }

def PortalResp.updHeaders (f : PortalHeaders → PortalHeaders) (resp : PortalResp) : PortalResp :=
  { resp with toPortalHeaders := f resp.toPortalHeaders }

def PortalMsg.updCtx (f : PortalCtx → PortalCtx) (msg : PortalMsg) : PortalMsg :=
  { msg with ctx := msg.ctx.map f }

/-- The loop over the labels. A label of length 0 is skipped. -/
def readLabels (labelCount : Nat) : Reader PortalMsg Unit :=
  forRange labelCount fun _ => do
    let label ← checkedStr
    match label with
    | none => pure ()
    | some l => modify (PortalMsg.updCtx fun c =>
      { c with auth.labels := (portalLabelsAdd c.auth.labels (.ofBytes l)).1 })

def readCtx : Reader PortalMsg Unit := do
  modify fun msg => { msg with ctx := some .zero }
  let user ← checkedStr
  modify (PortalMsg.updCtx fun c => { c with auth.user := user })
  let token ← checkedStr
  modify (PortalMsg.updCtx fun c => { c with auth.token := token })
  check (8 + 8 + 8 + 2)
  let traceId ← readU64
  let parentId ← readU64
  let timestampUs ← readU64
  let hops ← readU16
  modify (PortalMsg.updCtx fun c => { c with trace := ⟨traceId, parentId, timestampUs, hops⟩ })
  check 2
  let labelCount ← readU16
  readLabels (min labelCount.toNat portalMaxLabels)

def readHasCtx : Reader PortalMsg Unit := do
  check 1
  let hasCtx ← readU8
  if hasCtx = 0 then pure () else readCtx

def decodeMsg : Reader PortalMsg Unit := do
  check 4  -- the test on `len` and the first check
  let _ ← readU32
  check 8
  let id ← readU64
  modify fun msg => { msg with id }
  check 1
  let method ← readU8
  modify fun msg => { msg with method }
  let path ← checkedStr
  modify fun msg => { msg with path }
  check 2
  let headerCount ← readU16
  readHeaders PortalMsg.updHeaders headerCount
  readBody fun body msg => { msg with body }
  readHasCtx

def decodeResp : Reader PortalResp Unit := do
  check 4
  let _ ← readU32
  check (2 + 2)
  let status ← readU16
  modify fun resp => { resp with status }
  let headerCount ← readU16
  readHeaders PortalResp.updHeaders headerCount
  readBody fun body resp => { resp with body }

/-- The return value (`.ok` is 0, `.error .reject` is -1) and the message as the
decoder leaves it. -/
def portalWireDecodeMsg (buf : Bytes) (msg : PortalMsg) : Except Halt Unit × PortalMsg :=
  let (rc, s) := decodeMsg ⟨buf, msg⟩
  (rc, s.out)

def portalWireDecodeResp (buf : Bytes) (resp : PortalResp) : Except Halt Unit × PortalResp :=
  let (rc, s) := decodeResp ⟨buf, resp⟩
  (rc, s.out)

def decodeFrame (frame : Bytes) : Option PortalMsg :=
  match portalWireDecodeMsg frame .zero with
  | (.ok (), msg) => some msg
  | (.error _, _) => none

/-- `portal_wire_read_length`: the first four bytes as a signed 32-bit number. -/
def portalWireReadLength (buf : Bytes) : Int :=
  let n := beDecode (buf.take 4)
  if n < 2 ^ 31 then n else (n : Int) - 2 ^ 32

/-- Four bytes of length, 1 to `max` bytes of payload. -/
def lengthFormat (max : Int) : Framing.Format UInt8 where
  header := 4
  header_pos := Nat.zero_lt_succ 3
  payload hdr :=
    let msgLen := portalWireReadLength hdr
    if msgLen ≤ 0 ∨ max < msgLen then none else some msgLen.toNat

section Fields

variable {σ : Type} {out : σ}

theorem reads_word_map {α : Type} {k n : Nat} {f : Nat → α} {a : α} (hn : n < 256 ^ k)
    (ha : f n = a) :
    Reads (do let v ← word k; pure (f v) : Reader σ α) (beEncode k n) a out out := by
  rw [← append_nil (beEncode k n), ← ha]
  exact .bind (.word hn out) (.pure (f n) out)

theorem reads_readU8 (v : UInt8) : Reads readU8 (writeU8 v) v out out :=
  reads_word_map (k := 1) v.toNat_lt UInt8.ofNat_toNat

theorem reads_readU16 (v : UInt16) : Reads readU16 (writeU16 v) v out out :=
  reads_word_map (k := 2) v.toNat_lt UInt16.ofNat_toNat

theorem reads_readU32 (v : UInt32) : Reads readU32 (writeU32 v) v out out :=
  reads_word_map (k := 4) v.toNat_lt UInt32.ofNat_toNat

theorem reads_readU64 (v : UInt64) : Reads readU64 (writeU64 v) v out out :=
  reads_word_map (k := 8) v.toNat_lt UInt64.ofNat_toNat

@[simp] theorem length_writeU8 (v : UInt8) : (writeU8 v).length = 1 := length_beEncode 1 _
@[simp] theorem length_writeU16 (v : UInt16) : (writeU16 v).length = 2 := length_beEncode 2 _
@[simp] theorem length_writeU32 (v : UInt32) : (writeU32 v).length = 4 := length_beEncode 4 _
@[simp] theorem length_writeU64 (v : UInt64) : (writeU64 v).length = 8 := length_beEncode 8 _

/-- A string field as `read_str` expects it: its length, then its bytes. -/
def strField (s : Bytes) : Bytes := writeU16 (UInt16.ofNat s.length) ++ s

/-- What `read_str` makes of the field: NULL when it is empty. -/
def strPtr (s : Bytes) : CharPtr := if s = [] then none else some s

def FitsStr (s : Bytes) : Prop := s.length < 2 ^ 16

instance (s : Bytes) : Decidable (FitsStr s) := inferInstanceAs (Decidable (s.length < 2 ^ 16))

@[simp] theorem length_strField (s : Bytes) : (strField s).length = 2 + s.length := by
  simp [strField]

theorem FitsStr.toNat (h : FitsStr s) : (UInt16.ofNat s.length).toNat = s.length := by
  rw [UInt16.toNat_ofNat', Nat.mod_eq_of_lt h]

theorem FitsStr.peek (h : FitsStr s) (rest : Bytes) :
    beDecode ((strField s ++ rest).take 2) = s.length := by
  rw [strField, append_assoc, take_append_of_le_length (by simp),
    take_of_length_le (by simp), writeU16, beDecode_beEncode_of_lt (UInt16.toNat_lt _),
    h.toNat]

theorem reads_checkedStr (h : FitsStr s) : Reads checkedStr (strField s) (strPtr s) out out := by
  have hpeek := h.peek []
  rw [append_nil] at hpeek
  refine .check (by simp) (.peek (by simp) ?_)
  rw [hpeek]
  refine .check (by simp) ?_
  refine .bind (reads_readU16 _) ?_
  by_cases hs : s = []
  · subst hs
    exact .pure none out
  · have hlen : UInt16.ofNat s.length ≠ 0 := by
      intro h0
      have hzero : s.length = 0 := by rw [← h.toNat, h0]; rfl
      exact hs (length_eq_zero_iff.mp hzero)
    rw [if_neg hlen, h.toNat, strPtr, if_neg hs, ← append_nil s]
    exact .bind (.take (by simp) out) (by simpa using Reads.pure (some s) out)

/-- A string the format can carry: NUL-free, with a length that fits its field. -/
structure WireStr (s : Bytes) : Prop where
  nulFree : (0 : UInt8) ∉ s
  pos : 0 < s.length
  fits : s.length < 2 ^ 16

def WirePtr (s : CharPtr) : Prop := ∀ b, s = some b → WireStr b

theorem WireStr.writeStr (h : WireStr s) : writeStr s (strlen16 s) = strField s := by
  rw [Portal.writeStr, strlen16, strlen_eq_length h.nulFree, FitsStr.toNat h.fits, take_length,
    strField]

theorem WireStr.strPtr (h : WireStr s) : strPtr s = some s :=
  if_neg (ne_nil_of_length_pos h.pos)

theorem WirePtr.fits {s : CharPtr} (h : WirePtr s) : FitsStr s.orEmpty := by
  cases s with
  | none => exact Nat.two_pow_pos 16
  | some b => exact (h b rfl).fits

theorem WirePtr.writeStr {s : CharPtr} (h : WirePtr s) :
    writeStr s.orEmpty (strlen16 s.orEmpty) = strField s.orEmpty := by
  cases s with
  | none => rfl
  | some b => exact (h b rfl).writeStr

theorem WirePtr.strPtr {s : CharPtr} (h : WirePtr s) : strPtr s.orEmpty = s := by
  cases s with
  | none => rfl
  | some b => exact (h b rfl).strPtr

end Fields

section Parts

variable {σ : Type}

def mkHeader (h : Bytes × Bytes) : PortalHeader := ⟨some h.1, some h.2⟩

def headerField (h : Bytes × Bytes) : Bytes := strField h.1 ++ strField h.2

def headerPtr (h : Bytes × Bytes) : PortalHeader := ⟨strPtr h.1, strPtr h.2⟩

/-- As many header fields as the decoders take, each with strings that fit. -/
structure FitsHeaders (hs : List (Bytes × Bytes)) : Prop where
  max : hs.length ≤ portalMaxHeaders
  strs : ∀ h ∈ hs, FitsStr h.1 ∧ FitsStr h.2

/-- The header table while the loop runs: the first `i` headers are filled in. -/
def partialHeaders (hs : List (Bytes × Bytes)) (i : Nat) : List PortalHeader :=
  (hs.take i).map headerPtr ++ List.replicate (hs.length - i) .zero

theorem modify_append_cons {α : Type} (front back : List α) (x : α) (f : α → α) :
    (front ++ x :: back).modify front.length f = front ++ f x :: back := by
  induction front with
  | nil => rfl
  | cons y front ih => simpa using ih

variable {hs : List (Bytes × Bytes)}

theorem partialHeaders_step {i : Nat} (hi : i < hs.length) :
    ((partialHeaders hs i).modify i fun h => { h with key := strPtr hs[i].1 }).modify i
      (fun h => { h with value := strPtr hs[i].2 }) = partialHeaders hs (i + 1) := by
  have hlen : ((hs.take i).map headerPtr).length = i := by
    simp
    omega
  have hrep : hs.length - i = (hs.length - (i + 1)) + 1 := by omega
  rw [partialHeaders, partialHeaders, hrep, replicate_succ, ← take_append_getElem hi, map_append]
  generalize (hs.take i).map headerPtr = front at hlen
  subst hlen
  simp [modify_append_cons, headerPtr, PortalHeader.zero]

theorem FitsHeaders.count (h : FitsHeaders hs) : (UInt16.ofNat hs.length).toNat = hs.length := by
  have := h.max
  simp only [portalMaxHeaders] at this
  rw [UInt16.toNat_ofNat', Nat.mod_eq_of_lt (by omega)]

theorem reads_readHeaders {upd : (PortalHeaders → PortalHeaders) → σ → σ}
    (hupd : ∀ f g o, upd f (upd g o) = upd (fun b => f (g b)) o) (hfits : FitsHeaders hs) (out : σ)
    (hfresh : upd (fun b => { b with headers := [] }) out = out) :
    Reads (readHeaders upd (UInt16.ofNat hs.length)) (hs.flatMap headerField) () out
      (upd (fun _ => ⟨UInt16.ofNat hs.length, hs.map headerPtr⟩) out) := by
  have hmax := hfits.max
  refine .bind_nil (.modify _ out) ?_
  rw [hfits.count, if_neg (by omega)]
  split
  · rename_i h0
    obtain rfl := length_eq_zero_iff.mp h0
    nth_rewrite 1 [← hfresh]
    rw [hupd]
    exact .pure () _
  refine .bind_nil (.modify _ _) ?_
  rw [hupd]
  have hfull : partialHeaders hs hs.length = hs.map headerPtr := by simp [partialHeaders]
  rw [← hfull]
  refine .forRange (fun i => upd (fun _ => ⟨_, partialHeaders hs i⟩) out) ?_
  intro i hi
  obtain ⟨hkey, hvalue⟩ := hfits.strs hs[i] (getElem_mem hi)
  refine .bind (reads_checkedStr hkey) (.bind_nil (.modify _ _) ?_)
  rw [← append_nil (strField hs[i].2)]
  refine .bind (reads_checkedStr hvalue) ?_
  rw [hupd, ← partialHeaders_step hi]
  convert Reads.modify _ _ using 1
  rw [hupd]

def bodyField (body : Bytes) : Bytes := writeU32 (UInt32.ofNat body.length) ++ body

theorem writeBlob_eq (hlen : body.length < 2 ^ 32) :
    writeBlob body (UInt32.ofNat body.length) = bodyField body := by
  rw [writeBlob, UInt32.toNat_ofNat', Nat.mod_eq_of_lt hlen, take_length, bodyField]

theorem reads_readBody (setBody : Bytes → σ → σ) (hlen : body.length < 2 ^ 32) (out : σ)
    (hfresh : setBody [] out = out) :
    Reads (readBody setBody) (bodyField body) () out (setBody body out) := by
  have hword : (UInt32.ofNat body.length).toNat = body.length := by
    rw [UInt32.toNat_ofNat', Nat.mod_eq_of_lt hlen]
  refine .check (by simp [bodyField]) (.bind (reads_readU32 _) ?_)
  rw [hword]
  split
  · rename_i h0
    obtain rfl := length_eq_zero_iff.mp h0
    rw [hfresh]
    exact .pure () out
  · refine .check (le_refl _) ?_
    rw [← append_nil body]
    exact .bind (.take (by simp) out) (by simpa using Reads.modify (setBody body) out)

variable {msg : PortalMsg}

def addLabel (ls : PortalLabels) (l : Bytes) : PortalLabels :=
  if l = [] then ls else (portalLabelsAdd ls (.ofBytes l)).1

theorem reads_readLabels {labels : List Bytes} (hfits : ∀ l ∈ labels, FitsStr l) :
    Reads (readLabels labels.length) (labels.flatMap strField) () { msg with ctx := some c }
      { msg with
        ctx := some { c with auth.labels := labels.foldl addLabel c.auth.labels } } := by
  let inv : Nat → PortalMsg := fun i =>
    { msg with ctx := some { c with auth.labels := (labels.take i).foldl addLabel c.auth.labels } }
  have hend : inv labels.length = { msg with
      ctx := some { c with auth.labels := labels.foldl addLabel c.auth.labels } } := by
    simp [inv]
  rw [← hend]
  refine .forRange inv ?_
  intro i hi
  rw [← append_nil (strField _)]
  refine .bind (reads_checkedStr (hfits _ (getElem_mem hi))) ?_
  have hstep : inv (i + 1) = (inv i).updCtx fun c =>
      { c with auth.labels := addLabel c.auth.labels labels[i] } := by
    simp only [inv, PortalMsg.updCtx, map_some, ← take_append_getElem hi,
      foldl_append, foldl_cons, foldl_nil]
  rw [hstep]
  by_cases hl : labels[i] = []
  · simp only [strPtr, addLabel, hl, if_true]
    exact .pure () _
  · simp only [strPtr, addLabel, hl, if_false]
    exact .modify _ _

/-- A duplicate-free set of non-empty labels is what its labels add up to. -/
theorem foldl_addLabel {ls : PortalLabels} (hnodup : ls.labels.Nodup)
    (hpos : ∀ l ∈ ls.labels, 0 < l.bytes.length) :
    (ls.labels.map CStr.bytes).foldl addLabel .empty = ls := by
  have hfront : ∀ i ≤ ls.labels.length,
      ((ls.labels.take i).map CStr.bytes).foldl addLabel .empty = ls.take i := by
    intro i
    induction i with
    | zero => exact fun _ => rfl
    | succ i ih =>
      intro hi
      have hne := ne_nil_of_length_pos (hpos _ (getElem_mem hi))
      rw [← take_append_getElem hi, map_append, foldl_append, ih (by omega),
        map_singleton, foldl_cons, foldl_nil, addLabel, if_neg hne,
        CStr.ofBytes_bytes, portalLabelsAdd_take hnodup hi]
  have hall := hfront _ (le_refl _)
  rw [take_length] at hall
  exact hall.trans (PortalLabels.ext_labels take_length)

/-- A context on the wire. The number of labels behind `labelCount` is the number the
decoder reads. -/
structure CtxFrame where
  user : Bytes
  token : Bytes
  trace : PortalTrace
  labelCount : UInt16
  labels : List Bytes

structure CtxFrame.Fits (f : CtxFrame) : Prop where
  user : FitsStr f.user
  token : FitsStr f.token
  count : min f.labelCount.toNat portalMaxLabels = f.labels.length
  labels : ∀ l ∈ f.labels, FitsStr l

def CtxFrame.bytes (f : CtxFrame) : Bytes :=
  strField f.user ++ (strField f.token ++
  (writeU64 f.trace.traceId ++ (writeU64 f.trace.parentId ++ (writeU64 f.trace.timestampUs ++
  (writeU16 f.trace.hops ++ (writeU16 f.labelCount ++ f.labels.flatMap strField))))))

def CtxFrame.ctx (f : CtxFrame) : PortalCtx where
  auth := ⟨strPtr f.user, strPtr f.token, f.labels.foldl addLabel .empty⟩
  trace := f.trace
  sourceNode := none
  sourceModule := none

theorem reads_readCtx {f : CtxFrame} (h : f.Fits) :
    Reads readCtx f.bytes () msg { msg with ctx := some f.ctx } := by
  refine .bind_nil (.modify _ _) ?_
  refine .bind (reads_checkedStr h.user) (.bind_nil (.modify _ _) ?_)
  refine .bind (reads_checkedStr h.token) (.bind_nil (.modify _ _) ?_)
  refine .check (by simp only [length_append, length_writeU64, length_writeU16]; omega) ?_
  refine .bind (reads_readU64 _) (.bind (reads_readU64 _) ?_)
  refine .bind (reads_readU64 _) ?_
  refine .bind (reads_readU16 _) (.bind_nil (.modify _ _) ?_)
  refine .check (by simp only [length_append, length_writeU16]; omega) ?_
  refine .bind (reads_readU16 _) ?_
  rw [h.count]
  exact reads_readLabels (c := { f.ctx with auth.labels := .empty }) h.labels

/-- The `has_ctx` byte is 0 exactly when no context follows. -/
structure FitsCtx (hasCtx : UInt8) (ctx : Option CtxFrame) : Prop where
  flag : hasCtx = 0 ↔ ctx = none
  ctx : ∀ f, ctx = some f → f.Fits

def hasCtxField (hasCtx : UInt8) (ctx : Option CtxFrame) : Bytes :=
  writeU8 hasCtx ++ ctx.elim [] CtxFrame.bytes

theorem reads_readHasCtx {hasCtx : UInt8} {ctx : Option CtxFrame} (h : FitsCtx hasCtx ctx)
    (hnone : msg.ctx = none) :
    Reads readHasCtx (hasCtxField hasCtx ctx) () msg
      { msg with ctx := ctx.map CtxFrame.ctx } := by
  refine .check (by simp [hasCtxField]) (.bind (reads_readU8 _) ?_)
  cases ctx with
  | none =>
    have hmsg : { msg with ctx := none } = msg := by rw [← hnone]
    rw [if_pos (h.flag.mpr rfl), map_none, hmsg]
    exact .pure () msg
  | some f =>
    have hne : hasCtx ≠ 0 := fun h0 => some_ne_none f (h.flag.mp h0)
    rw [if_neg hne]
    exact reads_readCtx (h.ctx f rfl)

structure WireCtx (c : PortalCtx) : Prop where
  user : WirePtr c.auth.user
  token : WirePtr c.auth.token
  labels_nodup : c.auth.labels.labels.Nodup
  labels_pos : ∀ l ∈ c.auth.labels.labels, 0 < l.bytes.length

/-- What of a context is on the wire: its two source fields are not. -/
def PortalCtx.onWire (c : PortalCtx) : PortalCtx :=
  { c with sourceNode := none, sourceModule := none }

def PortalCtx.frame (c : PortalCtx) : CtxFrame where
  user := c.auth.user.orEmpty
  token := c.auth.token.orEmpty
  trace := c.trace
  labelCount := UInt16.ofNat c.auth.labels.count
  labels := c.auth.labels.labels.map CStr.bytes

theorem PortalLabels.fits_label (ls : PortalLabels) {l : CStr} (h : l ∈ ls.labels) :
    FitsStr l.bytes := by
  have hl := ls.short l h
  exact lt_trans hl (by decide)

theorem WireCtx.fits (h : WireCtx c) : c.frame.Fits := by
  refine ⟨h.user.fits, h.token.fits, ?_, ?_⟩
  · have := c.auth.labels.count_le
    simp only [PortalCtx.frame, portalMaxLabels, PortalLabels.count, length_map] at this ⊢
    rw [UInt16.toNat_ofNat', Nat.mod_eq_of_lt (by omega)]
    omega
  · intro l hl
    obtain ⟨l', hl', rfl⟩ := mem_map.mp hl
    exact c.auth.labels.fits_label hl'

theorem WireCtx.writeCtx (h : WireCtx c) : writeCtx c = c.frame.bytes := by
  have hlabels : (c.auth.labels.labels.flatMap fun l => Portal.writeStr l.bytes (strlen16 l.bytes))
      = (c.auth.labels.labels.map CStr.bytes).flatMap strField := by
    rw [flatMap_map]
    refine flatMap_congr fun l hl => ?_
    exact WireStr.writeStr ⟨l.nulFree, h.labels_pos l hl, c.auth.labels.fits_label hl⟩
  rw [Portal.writeCtx, h.user.writeStr, h.token.writeStr, hlabels]
  rfl

theorem WireCtx.ctx (h : WireCtx c) : c.frame.ctx = c.onWire := by
  have hlabels := foldl_addLabel h.labels_nodup h.labels_pos
  simp only [CtxFrame.ctx, PortalCtx.frame, h.user.strPtr, h.token.strPtr, hlabels,
    PortalCtx.onWire]

end Parts

/-! ### Whole frames -/

structure MsgFrame where
  size : UInt32  -- the decoder reads it and drops it
  id : UInt64
  method : UInt8
  path : Bytes
  headers : List (Bytes × Bytes)
  body : Bytes
  hasCtx : UInt8
  ctx : Option CtxFrame

structure MsgFrame.Fits (f : MsgFrame) : Prop where
  path : FitsStr f.path
  headers : FitsHeaders f.headers
  body : f.body.length < 2 ^ 32
  ctx : FitsCtx f.hasCtx f.ctx

def MsgFrame.bytes (f : MsgFrame) : Bytes :=
  writeU32 f.size ++ (writeU64 f.id ++ (writeU8 f.method ++ (strField f.path ++
  (writeU16 (UInt16.ofNat f.headers.length) ++ (f.headers.flatMap headerField ++
  (bodyField f.body ++ hasCtxField f.hasCtx f.ctx))))))

def MsgFrame.msg (f : MsgFrame) : PortalMsg where
  headerCount := UInt16.ofNat f.headers.length
  headers := f.headers.map headerPtr
  id := f.id
  path := strPtr f.path
  method := f.method
  body := f.body
  ctx := f.ctx.map CtxFrame.ctx

theorem reads_decodeMsg {f : MsgFrame} (h : f.Fits) :
    Reads decodeMsg f.bytes () .zero f.msg := by
  refine .check (by simp [MsgFrame.bytes]) (.bind (reads_readU32 _) ?_)
  refine .check (by simp) (.bind (reads_readU64 _) ?_)
  refine .bind_nil (.modify _ _) ?_
  refine .check (by simp) (.bind (reads_readU8 _) ?_)
  refine .bind_nil (.modify _ _) ?_
  refine .bind (reads_checkedStr h.path) (.bind_nil (.modify _ _) ?_)
  refine .check (by simp) (.bind (reads_readU16 _) ?_)
  refine .bind (reads_readHeaders (fun _ _ _ => rfl) h.headers _ rfl) ?_
  refine .bind (reads_readBody _ h.body _ rfl) ?_
  exact reads_readHasCtx h.ctx rfl

structure RespFrame where
  size : UInt32
  status : UInt16
  headers : List (Bytes × Bytes)
  body : Bytes

structure RespFrame.Fits (f : RespFrame) : Prop where
  headers : FitsHeaders f.headers
  body : f.body.length < 2 ^ 32

def RespFrame.bytes (f : RespFrame) : Bytes :=
  writeU32 f.size ++ (writeU16 f.status ++ (writeU16 (UInt16.ofNat f.headers.length) ++
  (f.headers.flatMap headerField ++ bodyField f.body)))

def RespFrame.resp (f : RespFrame) : PortalResp where
  headerCount := UInt16.ofNat f.headers.length
  headers := f.headers.map headerPtr
  status := f.status
  body := f.body

theorem reads_decodeResp {f : RespFrame} (h : f.Fits) :
    Reads decodeResp f.bytes () .zero f.resp := by
  refine .check (by simp [RespFrame.bytes]) (.bind (reads_readU32 _) ?_)
  refine .check (by simp only [length_append, length_writeU16]; omega) ?_
  refine .bind (reads_readU16 _) (.bind_nil (.modify _ _) ?_)
  refine .bind (reads_readU16 _) ?_
  refine .bind (reads_readHeaders (fun _ _ _ => rfl) h.headers _ rfl) ?_
  refine reads_readBody (fun body (r : PortalResp) => { r with body }) h.body _ ?_
  rfl

/-! ### The size pass and the write pass -/

/-- Headers `0 .. header_count - 1` are allocated, with a key and a value each. -/
structure HeadersSet (b : PortalHeaders) : Prop where
  allocated : b.headerCount.toNat ≤ b.headers.length
  strs : ∀ h ∈ b.headers.take b.headerCount.toNat, ∃ k v, h = mkHeader (k, v)

theorem mapM_derefHeader (hs : List (Bytes × Bytes)) :
    (hs.map mkHeader).mapM derefHeader = some hs := by
  induction hs with
  | nil => rfl
  | cons h hs ih => simp [mkHeader, derefHeader, ih]

variable {b : PortalHeaders}

theorem HeadersSet.deref (h : HeadersSet b) :
    ∃ hs, derefHeaders b = some hs ∧ b.headers.take b.headerCount.toNat = hs.map mkHeader := by
  have hstrings : ∀ x ∈ b.headers.take b.headerCount.toNat, x ∈ Set.range mkHeader := by
    intro x hx
    obtain ⟨k, v, rfl⟩ := h.strs x hx
    exact ⟨(k, v), rfl⟩
  obtain ⟨hs, heq⟩ := (Set.range_list_map mkHeader).ge hstrings
  refine ⟨hs, ?_, heq.symm⟩
  rw [derefHeaders, if_neg (not_lt.mpr h.allocated), ← heq, mapM_derefHeader]

theorem length_writeStr (s : Bytes) :
    (writeStr s (strlen16 s)).length = 2 + (strlen16 s).toNat := by
  have hmod : (strlen16 s).toNat ≤ strlen s := by
    rw [strlen16, UInt16.toNat_ofNat']
    exact Nat.mod_le _ _
  have hle : strlen s ≤ s.length := (takeWhile_sublist _).length_le
  simp only [writeStr, length_append, length_writeU16, length_take]
  omega

/-- A string that the 16-bit length of the write pass does not cut. -/
def Uncut (s : Bytes) : Prop := strlen s < 2 ^ 16

theorem toNat_strlen16 (s : Bytes) : (strlen16 s).toNat = strlen s % 2 ^ 16 := by
  rw [strlen16, UInt16.toNat_ofNat']

/-- The write pass never stores more of the headers than the size pass counted, and as
much exactly when no string is cut. -/
theorem length_writeHeaders (hs : List (Bytes × Bytes)) :
    (hs.flatMap writeHeader).length ≤ headersSize hs ∧
      ((hs.flatMap writeHeader).length = headersSize hs ↔ ∀ h ∈ hs, Uncut h.1 ∧ Uncut h.2) := by
  induction hs with
  | nil => simp [headersSize]
  | cons e hs ih =>
    obtain ⟨hle, hiff⟩ := ih
    have hlen : ((e :: hs).flatMap writeHeader).length
        = (2 + strlen e.1 % 2 ^ 16) + (2 + strlen e.2 % 2 ^ 16)
          + (hs.flatMap writeHeader).length := by
      rw [flatMap_cons, length_append, writeHeader, length_append,
        length_writeStr, length_writeStr, toNat_strlen16, toNat_strlen16]
    have hsize : headersSize (e :: hs)
        = (2 + strlen e.1) + (2 + strlen e.2) + headersSize hs := by
      rw [headersSize, map_cons, sum_cons, headersSize]
    rw [hlen, hsize, forall_mem_cons, ← hiff, Uncut, Uncut]
    omega

theorem length_writeBlob (body : Bytes) :
    (writeBlob body (UInt32.ofNat body.length)).length = 4 + body.length % 2 ^ 32 := by
  simp only [writeBlob, length_append, length_writeU32, length_take, UInt32.toNat_ofNat']
  have := Nat.mod_le body.length (2 ^ 32)
  omega

theorem length_writeCtx (c : PortalCtx) : (writeCtx c).length = ctxSize c := by
  have hlabels : ∀ ls : List CStr, (∀ l ∈ ls, l.bytes.length < portalMaxLabelLen) →
      (ls.flatMap fun l => writeStr l.bytes (strlen16 l.bytes)).length
        = (ls.map fun l => 2 + strlen l.bytes).sum := by
    intro ls hshort
    rw [length_flatMap]
    refine congrArg sum (map_congr_left fun l hl => ?_)
    have hlen : l.bytes.length < 64 := hshort l hl
    rw [length_writeStr, toNat_strlen16, strlen_eq_length l.nulFree, Nat.mod_eq_of_lt (by omega)]
  simp only [writeCtx, ctxSize, length_append, length_writeStr, length_writeU64,
    length_writeU16, hlabels _ c.auth.labels.short]
  omega

theorem length_writeHasCtx (ctx : Option PortalCtx) :
    (writeHasCtx ctx).length = hasCtxSize ctx := by
  cases ctx with
  | none => exact length_writeU8 0
  | some c =>
    rw [writeHasCtx, hasCtxSize, length_append, length_writeU8, length_writeCtx]

/-- Every header string and the body have a length that fits the field it is written to. -/
structure FieldsFit (b : PortalHeaders) (body : Bytes) : Prop where
  strs : ∀ h ∈ b.headers.take b.headerCount.toNat, ∀ s,
    h.key = some s ∨ h.value = some s → Uncut s
  body : body.length < 2 ^ 32

theorem fieldsFit_iff {hs : List (Bytes × Bytes)}
    (h : b.headers.take b.headerCount.toNat = hs.map mkHeader) :
    FieldsFit b body ↔ (∀ h ∈ hs, Uncut h.1 ∧ Uncut h.2) ∧ body.length < 2 ^ 32 := by
  constructor
  · rintro ⟨hstrs, hbody⟩
    refine ⟨?_, hbody⟩
    intro e he
    have hmem : mkHeader e ∈ b.headers.take b.headerCount.toNat := h ▸ mem_map_of_mem he
    exact ⟨hstrs _ hmem _ (.inl rfl), hstrs _ hmem _ (.inr rfl)⟩
  rintro ⟨hstrs, hbody⟩
  refine ⟨?_, hbody⟩
  intro e he s hs
  rw [h] at he
  obtain ⟨p, hp, rfl⟩ := mem_map.mp he
  rcases hs with hs | hs
  · exact some.inj hs ▸ (hstrs p hp).1
  · exact some.inj hs ▸ (hstrs p hp).2

theorem encodeMsg_lengths {msg : PortalMsg} (h : HeadersSet msg.toPortalHeaders) :
    ∃ e, portalWireEncodeMsg msg = some e ∧ e.written.length ≤ e.outLen ∧
      (e.written.length = e.outLen ↔ FieldsFit msg.toPortalHeaders msg.body) := by
  obtain ⟨hs, hderef, hheaders⟩ := h.deref
  obtain ⟨hle, hiff⟩ := length_writeHeaders hs
  refine ⟨_, by rw [portalWireEncodeMsg, hderef]; rfl, ?_⟩
  rw [fieldsFit_iff hheaders, ← hiff]
  simp only [length_append, length_writeU32, length_writeU64, length_writeU8,
    length_writeU16, length_writeStr, length_writeBlob, length_writeHasCtx]
  omega

theorem encodeResp_lengths {resp : PortalResp} (h : HeadersSet resp.toPortalHeaders) :
    ∃ e, portalWireEncodeResp resp = some e ∧ e.written.length ≤ e.outLen ∧
      (e.written.length = e.outLen ↔ FieldsFit resp.toPortalHeaders resp.body) := by
  obtain ⟨hs, hderef, hheaders⟩ := h.deref
  obtain ⟨hle, hiff⟩ := length_writeHeaders hs
  refine ⟨_, by rw [portalWireEncodeResp, hderef]; rfl, ?_⟩
  rw [fieldsFit_iff hheaders, ← hiff]
  simp only [length_append, length_writeU32, length_writeU16, length_writeBlob]
  omega

/-! ### The round trip -/

structure WireHeaders (b : PortalHeaders) : Prop where
  count : b.headers.length = b.headerCount.toNat
  max : b.headerCount.toNat ≤ portalMaxHeaders
  fields : ∀ h ∈ b.headers, ∃ k v, h = ⟨some k, some v⟩ ∧ WireStr k ∧ WireStr v

structure WireMsg (msg : PortalMsg) : Prop where
  path : ∃ p, msg.path = some p ∧ WireStr p
  headers : WireHeaders msg.toPortalHeaders
  body : msg.body.length < 2 ^ 32
  ctx : ∀ c, msg.ctx = some c → WireCtx c

structure WireResp (resp : PortalResp) : Prop where
  headers : WireHeaders resp.toPortalHeaders
  body : resp.body.length < 2 ^ 32

def PortalMsg.onWire (msg : PortalMsg) : PortalMsg :=
  { msg with ctx := msg.ctx.map PortalCtx.onWire }

theorem WireHeaders.set (h : WireHeaders b) : HeadersSet b := by
  refine ⟨h.count.ge, ?_⟩
  intro e he
  obtain ⟨k, v, rfl, -, -⟩ := h.fields e (mem_of_mem_take he)
  exact ⟨k, v, rfl⟩

theorem WireHeaders.fields_eq (h : WireHeaders b) :
    ∃ hs, derefHeaders b = some hs ∧ FitsHeaders hs ∧
      b = ⟨UInt16.ofNat hs.length, hs.map headerPtr⟩ ∧
      hs.flatMap writeHeader = hs.flatMap headerField := by
  obtain ⟨hs, hderef, hheaders⟩ := h.set.deref
  rw [← h.count, take_length] at hheaders
  have hwire : ∀ e ∈ hs, WireStr e.1 ∧ WireStr e.2 := by
    intro e he
    obtain ⟨k, v, heq, hk, hv⟩ := h.fields (mkHeader e) (hheaders ▸ mem_map_of_mem he)
    obtain ⟨⟨⟩, ⟨⟩⟩ := (PortalHeader.mk.injEq ..).mp heq
    exact ⟨hk, hv⟩
  have hptr : hs.map mkHeader = hs.map headerPtr := by
    refine map_congr_left fun e he => ?_
    rw [mkHeader, headerPtr, (hwire e he).1.strPtr, (hwire e he).2.strPtr]
  have hlen : hs.length = b.headerCount.toNat := by rw [← h.count, hheaders, length_map]
  refine ⟨hs, hderef, ⟨hlen ▸ h.max, fun e he => ⟨(hwire e he).1.fits, (hwire e he).2.fits⟩⟩,
    ?_, ?_⟩
  · rw [hlen, UInt16.ofNat_toNat, ← hptr, ← hheaders]
  · refine flatMap_congr fun e he => ?_
    rw [writeHeader, headerField, (hwire e he).1.writeStr, (hwire e he).2.writeStr]

theorem FieldsFit.of_wire (h : WireHeaders b) (hbody : body.length < 2 ^ 32) :
    FieldsFit b body := by
  refine ⟨?_, hbody⟩
  intro e he s hs
  obtain ⟨k, v, rfl, hk, hv⟩ := h.fields e (mem_of_mem_take he)
  rcases hs with hs | hs
  · obtain rfl := some.inj hs
    exact (strlen_eq_length hk.nulFree).trans_lt hk.fits
  · obtain rfl := some.inj hs
    exact (strlen_eq_length hv.nulFree).trans_lt hv.fits

/-- A frame that starts with the 32-bit word `size - 4` and is `size` bytes long. -/
theorem beDecode_lengthPrefix {size : Nat} (hsize : size < 2 ^ 32) (rest : Bytes) :
    beDecode ((writeU32 (UInt32.ofNat (size - 4)) ++ rest).take 4) = size - 4 := by
  have hword : (UInt32.ofNat (size - 4)).toNat = size - 4 := by
    rw [UInt32.toNat_ofNat', Nat.mod_eq_of_lt (by omega)]
  rw [take_append_of_le_length (by simp), take_of_length_le (by simp), writeU32, hword,
    beDecode_beEncode_of_lt (by omega)]

theorem writeHasCtx_eq {ctx : Option PortalCtx} (h : ∀ c, ctx = some c → WireCtx c) :
    ∃ hasCtx f, FitsCtx hasCtx f ∧ writeHasCtx ctx = hasCtxField hasCtx f ∧
      f.map CtxFrame.ctx = ctx.map PortalCtx.onWire := by
  cases ctx with
  | none => exact ⟨0, none, ⟨by simp, by simp⟩, rfl, rfl⟩
  | some c =>
    have hc := h c rfl
    refine ⟨1, some c.frame, ⟨by simp, ?_⟩, ?_, ?_⟩
    · exact fun f hf => some.inj hf ▸ hc.fits
    · rw [writeHasCtx, hc.writeCtx]
      rfl
    · rw [map_some, map_some, hc.ctx]

/-- What the encoder writes for a message the format can carry is the frame that decodes
to what of the message is on the wire. -/
theorem encodeMsg_frame {msg : PortalMsg} {e : Encoded} (h : WireMsg msg)
    (he : portalWireEncodeMsg msg = some e) :
    ∃ f : MsgFrame, e.written = f.bytes ∧ f.Fits ∧ f.size = UInt32.ofNat (e.outLen - 4) ∧
      f.msg = msg.onWire := by
  obtain ⟨hs, hderef, hfits, hheaders, hfields⟩ := h.headers.fields_eq
  obtain ⟨p, hp, hpath⟩ := h.path
  obtain ⟨hasCtx, ctx, hctx, hwrite, hmap⟩ := writeHasCtx_eq h.ctx
  rw [portalWireEncodeMsg, hderef] at he
  obtain rfl := some.inj he
  refine ⟨⟨_, msg.id, msg.method, p, hs, msg.body, hasCtx, ctx⟩, ?_,
    ⟨hpath.fits, hfits, h.body, hctx⟩, rfl, ?_⟩
  · simp only [hp, CharPtr.orEmpty, getD_some, hpath.writeStr, hfields, hwrite,
      writeBlob_eq h.body, hheaders]
    rfl
  · simp only [MsgFrame.msg, PortalMsg.onWire, hpath.strPtr, ← hp, hmap, ← hheaders]

theorem encodeResp_frame {resp : PortalResp} {e : Encoded} (h : WireResp resp)
    (he : portalWireEncodeResp resp = some e) :
    ∃ f : RespFrame, e.written = f.bytes ∧ f.Fits ∧ f.size = UInt32.ofNat (e.outLen - 4) ∧
      f.resp = resp := by
  obtain ⟨hs, hderef, hfits, hheaders, hfields⟩ := h.headers.fields_eq
  rw [portalWireEncodeResp, hderef] at he
  obtain rfl := some.inj he
  refine ⟨⟨_, resp.status, hs, resp.body⟩, ?_, ⟨hfits, h.body⟩, rfl, ?_⟩
  · simp only [hfields, writeBlob_eq h.body, hheaders]
    rfl
  · simp only [RespFrame.resp, ← hheaders]

/-- The encoder fills its buffer exactly, and if the frame is shorter than 2 ^ 32 bytes, decoding
it into a zeroed structure restores everything the format carries, and the first four bytes hold
its length minus four. -/
theorem portalWire_roundTrip :
    (∀ msg : PortalMsg, WireMsg msg → ∃ e, portalWireEncodeMsg msg = some e ∧
      e.written.length = e.outLen ∧
      (e.outLen < 2 ^ 32 → portalWireDecodeMsg e.written .zero = (.ok (), msg.onWire) ∧
        beDecode (e.written.take 4) = e.outLen - 4)) ∧
    (∀ resp : PortalResp, WireResp resp → ∃ e, portalWireEncodeResp resp = some e ∧
      e.written.length = e.outLen ∧
      (e.outLen < 2 ^ 32 → portalWireDecodeResp e.written .zero = (.ok (), resp) ∧
        beDecode (e.written.take 4) = e.outLen - 4)) := by
  constructor
  · intro msg h
    obtain ⟨e, he, -, hfill⟩ := encodeMsg_lengths h.headers.set
    obtain ⟨f, hwritten, hfits, hsize, hmsg⟩ := encodeMsg_frame h he
    refine ⟨e, he, hfill.mpr (.of_wire h.headers h.body), ?_⟩
    intro hlt
    refine ⟨?_, ?_⟩
    · rw [portalWireDecodeMsg, hwritten, (reads_decodeMsg hfits).run_eq, hmsg]
    · rw [hwritten, MsgFrame.bytes, hsize, beDecode_lengthPrefix hlt]
  intro resp h
  obtain ⟨e, he, -, hfill⟩ := encodeResp_lengths h.headers.set
  obtain ⟨f, hwritten, hfits, hsize, hresp⟩ := encodeResp_frame h he
  refine ⟨e, he, hfill.mpr (.of_wire h.headers h.body), ?_⟩
  intro hlt
  refine ⟨?_, ?_⟩
  · rw [portalWireDecodeResp, hwritten, (reads_decodeResp hfits).run_eq, hresp]
  · rw [hwritten, RespFrame.bytes, hsize, beDecode_lengthPrefix hlt]

def sampleMsg : PortalMsg where
  headerCount := 1
  headers := [⟨some [107], some [118, 49]⟩]
  id := 7
  path := some [47, 97]
  method := 1
  body := [1, 0, 2]
  ctx := some
    { auth := ⟨some [117], none, ⟨[.lit "g"], by decide, by decide⟩⟩
      trace := ⟨1, 2, 3, 4⟩
      sourceNode := none
      sourceModule := none }

def sampleResp : PortalResp where
  headerCount := 1
  headers := [⟨some [107], some [118]⟩]
  status := 200
  body := [79, 75]

theorem wireHeaders_one {k v : Bytes} (hk : WireStr k) (hv : WireStr v) :
    WireHeaders ⟨1, [⟨some k, some v⟩]⟩ := by
  have hmax : (1 : UInt16).toNat ≤ portalMaxHeaders := by decide
  refine ⟨rfl, hmax, fun h hh => ?_⟩
  obtain rfl := mem_singleton.mp hh
  exact ⟨k, v, rfl, hk, hv⟩

theorem wireHeaders_sampleMsg : WireHeaders sampleMsg.toPortalHeaders :=
  wireHeaders_one ⟨by decide, by decide, by decide⟩ ⟨by decide, by decide, by decide⟩

theorem wireHeaders_sampleResp : WireHeaders sampleResp.toPortalHeaders :=
  wireHeaders_one ⟨by decide, by decide, by decide⟩ ⟨by decide, by decide, by decide⟩

theorem wireMsg_sampleMsg : WireMsg sampleMsg := by
  refine ⟨⟨_, rfl, ⟨by decide, by decide, by decide⟩⟩, wireHeaders_sampleMsg, by decide, ?_⟩
  intro c hc
  obtain rfl := some.inj hc
  refine ⟨?_, ?_, by decide, by decide⟩
  · intro b hb
    obtain rfl := some.inj hb
    exact ⟨by decide, by decide, by decide⟩
  · intro b hb
    cases hb

theorem portalWire_roundTrip_sample :
    (∃ e, portalWireEncodeMsg sampleMsg = some e ∧ e.written.length = e.outLen ∧
      (e.outLen < 2 ^ 32 → portalWireDecodeMsg e.written .zero = (.ok (), sampleMsg.onWire) ∧
        beDecode (e.written.take 4) = e.outLen - 4)) ∧
    (∃ e, portalWireEncodeResp sampleResp = some e ∧ e.written.length = e.outLen ∧
      (e.outLen < 2 ^ 32 → portalWireDecodeResp e.written .zero = (.ok (), sampleResp) ∧
        beDecode (e.written.take 4) = e.outLen - 4)) :=
  ⟨portalWire_roundTrip.1 sampleMsg wireMsg_sampleMsg,
    portalWire_roundTrip.2 sampleResp ⟨wireHeaders_sampleResp, by decide⟩⟩

/-! ### Bytes that are not written -/

/-- The encoders never write beyond their buffer, and fill it exactly when every header string is
shorter than 2 ^ 16 bytes and the body than 2 ^ 32: the size pass counts these lengths in full, the
write pass cuts them to their fields. -/
theorem encoders_fill_iff (msg : PortalMsg) (resp : PortalResp) :
    (HeadersSet msg.toPortalHeaders → ∃ e, portalWireEncodeMsg msg = some e ∧
      e.written.length ≤ e.outLen ∧
      (e.written.length = e.outLen ↔ FieldsFit msg.toPortalHeaders msg.body)) ∧
    (HeadersSet resp.toPortalHeaders → ∃ e, portalWireEncodeResp resp = some e ∧
      e.written.length ≤ e.outLen ∧
      (e.written.length = e.outLen ↔ FieldsFit resp.toPortalHeaders resp.body)) :=
  ⟨encodeMsg_lengths, encodeResp_lengths⟩

theorem encoders_fill_iff_sample :
    (∃ e, portalWireEncodeMsg sampleMsg = some e ∧ e.written.length ≤ e.outLen ∧
      (e.written.length = e.outLen ↔ FieldsFit sampleMsg.toPortalHeaders sampleMsg.body)) ∧
    (∃ e, portalWireEncodeResp sampleResp = some e ∧ e.written.length ≤ e.outLen ∧
      (e.written.length = e.outLen ↔ FieldsFit sampleResp.toPortalHeaders sampleResp.body)) :=
  have h := encoders_fill_iff sampleMsg sampleResp
  ⟨h.1 wireHeaders_sampleMsg.set, h.2 wireHeaders_sampleResp.set⟩

def headerResp (key value : Bytes) : PortalResp where
  headerCount := 1
  headers := [mkHeader (key, value)]
  status := 200
  body := []

theorem encodeResp_headerResp (key value : Bytes) :
    ∃ e, portalWireEncodeResp (headerResp key value) = some e ∧
      e.outLen = 16 + strlen key + strlen value ∧
      e.written.length = 16 + strlen key % 2 ^ 16 + strlen value % 2 ^ 16 := by
  have hderef : derefHeaders (headerResp key value).toPortalHeaders = some [(key, value)] := rfl
  have hbody : (headerResp key value).body.length = 0 := rfl
  refine ⟨_, by rw [portalWireEncodeResp, hderef]; rfl, ?_, ?_⟩
  · simp only [headersSize, map_cons, map_nil, sum_cons, sum_nil, hbody]
    omega
  simp only [length_append, length_writeU32, length_writeU16, flatMap_cons,
    flatMap_nil, length_nil, writeHeader, length_writeStr, toNat_strlen16,
    length_writeBlob]
  omega

/-- The length of a value of 2 ^ 16 bytes is written as 0: 17 of the 65553 bytes of the
buffer are set. -/
theorem encodeResp_longValue :
    ∃ e, portalWireEncodeResp (headerResp [107] (List.replicate 65536 118)) = some e ∧
      e.outLen = 65553 ∧ e.written.length = 17 := by
  have hkey : strlen [107] = 1 := by decide
  have hvalue : strlen (List.replicate 65536 118) = 65536 := by
    rw [strlen_eq_length fun h => absurd (eq_of_mem_replicate h) (by decide), length_replicate]
  obtain ⟨e, he, hlen, hwritten⟩ := encodeResp_headerResp [107] (List.replicate 65536 118)
  rw [hkey, hvalue] at hlen hwritten
  exact ⟨e, he, hlen, hwritten⟩

end Portal
