import Portal.Core.CString
import Mathlib.Data.List.Nodup

/-!
Messages, responses and label sets: `include/portal/types.h` and the label functions of
`src/core/core_message.c`. A `char *` off the wire is kept with every byte received; its readers
see the part before the first NUL. A label is stored in 64 bytes, and so a C string of at most 63.
-/

namespace Portal

open List

def portalMaxHeaders : Nat := 32
def portalMaxLabels : Nat := 32
def portalMaxLabelLen : Nat := 64
def portalMaxModuleName : Nat := 64
def portalRootUser : CStr := .lit "root"

/-- A `char *`: NULL, or the bytes of the block before its terminator. -/
abbrev CharPtr := Option Bytes

/-! ### Label sets -/

structure PortalLabels where
  labels : List CStr
  count_le : labels.length ≤ portalMaxLabels
  short : ∀ l ∈ labels, l.bytes.length < portalMaxLabelLen
deriving DecidableEq

def PortalLabels.count (ls : PortalLabels) : Nat := ls.labels.length

theorem PortalLabels.ext_labels {a b : PortalLabels} (h : a.labels = b.labels) : a = b := by
  cases a
  cases b
  simpa using h

def PortalLabels.empty : PortalLabels := ⟨[], by simp, by simp⟩

def PortalLabels.take (ls : PortalLabels) (n : Nat) : PortalLabels where
  labels := ls.labels.take n
  count_le := (List.length_take_le' _ _).trans ls.count_le
  short l hl := ls.short l (List.mem_of_mem_take hl)

theorem CStr.length_truncate_lt {n : Nat} (s : CStr) (hn : 0 < n) :
    (s.truncate (n - 1)).bytes.length < n := by
  simp only [CStr.truncate, length_take]
  omega

def portalLabelsAdd (ls : PortalLabels) (label : CStr) : PortalLabels × Int :=
  if h : ls.count ≥ portalMaxLabels then (ls, -1)
  else if label ∈ ls.labels then (ls, 0)  -- already present, not an error
  else
    ({ labels := ls.labels ++ [label.truncate (portalMaxLabelLen - 1)]
       count_le := by
        simp only [PortalLabels.count, not_le] at h
        simp only [List.length_append, List.length_singleton]
        omega
       short := by
        intro l hl
        rcases List.mem_append.mp hl with hl | hl
        · exact ls.short l hl
        · obtain rfl := List.mem_singleton.mp hl
          exact label.length_truncate_lt (by decide) }, 0)

/-- The label is overwritten by the last one, and the last one goes. -/
def portalLabelsRemove (ls : PortalLabels) (label : CStr) : PortalLabels × Int :=
  match ls.labels.idxOf? label with
  | none => (ls, -1)
  | some i =>
    ({ labels := (ls.labels.set i (ls.labels.getLast?.getD label)).dropLast
       count_le := by
        rw [List.length_dropLast, List.length_set]
        exact (Nat.sub_le _ _).trans ls.count_le
       short := by
        intro l hl
        rcases List.mem_or_eq_of_mem_set (List.dropLast_subset _ hl) with hl | rfl
        · exact ls.short l hl
        · cases hlast : ls.labels.getLast? with
          | none => simp [List.getLast?_eq_none_iff.mp hlast] at hl
          | some x => exact ls.short x (List.mem_of_getLast? hlast) }, 0)

def portalLabelsHas (ls : PortalLabels) (label : CStr) : Bool := decide (label ∈ ls.labels)

def portalLabelsIntersects (a b : PortalLabels) : Bool :=
  a.labels.any fun l => decide (l ∈ b.labels)

/-- Adding to a set with room a label that fits and is not there appends it. -/
theorem portalLabelsAdd_labels {ls : PortalLabels} {label : CStr}
    (hroom : ls.count < portalMaxLabels) (hnew : label ∉ ls.labels)
    (hfits : label.bytes.length < portalMaxLabelLen) :
    (portalLabelsAdd ls label).1.labels = ls.labels ++ [label] := by
  rw [portalLabelsAdd, dif_neg (by omega), if_neg hnew]
  simp only
  rw [CStr.truncate_eq_self (by omega)]

/-- Adding the labels of a duplicate-free set one by one rebuilds it. -/
theorem portalLabelsAdd_take {ls : PortalLabels} (hnodup : ls.labels.Nodup) {i : Nat}
    (hi : i < ls.labels.length) :
    (portalLabelsAdd (ls.take i) ls.labels[i]).1 = ls.take (i + 1) := by
  have hcount := ls.count_le
  have hnew : ls.labels[i] ∉ (ls.take i).labels := by
    intro hmem
    obtain ⟨j, hj, heq⟩ := getElem_of_mem hmem
    simp only [PortalLabels.take, length_take, getElem_take] at hj heq
    have := (List.Nodup.getElem_inj_iff hnodup).mp heq
    omega
  apply PortalLabels.ext_labels
  rw [portalLabelsAdd_labels ?_ hnew (ls.short _ (getElem_mem hi))]
  · simp [PortalLabels.take, take_append_getElem hi]
  · simp only [PortalLabels.count, PortalLabels.take, length_take]
    omega

structure PortalHeader where
  key : CharPtr
  value : CharPtr
deriving DecidableEq

/-- The header table that messages and responses both carry: `header_count` and the
allocated array. -/
structure PortalHeaders where
  headerCount : UInt16
  headers : List PortalHeader
deriving DecidableEq

structure PortalAuth where
  user : CharPtr
  token : CharPtr
  labels : PortalLabels
deriving DecidableEq

structure PortalTrace where
  traceId : UInt64
  parentId : UInt64
  timestampUs : UInt64
  hops : UInt16
deriving DecidableEq

structure PortalCtx where
  auth : PortalAuth
  trace : PortalTrace
  sourceNode : CharPtr
  sourceModule : CharPtr
deriving DecidableEq

/-- `portal_msg_t`. The body is the `body_len` bytes `body` points to. -/
structure PortalMsg extends PortalHeaders where
  id : UInt64
  path : CharPtr
  method : UInt8
  body : Bytes
  ctx : Option PortalCtx
deriving DecidableEq

structure PortalResp extends PortalHeaders where
  status : UInt16
  body : Bytes
deriving DecidableEq

/-! ### Reading headers, and what a handler returns -/

/-- The headers `0 .. header_count - 1`. -/
def PortalMsg.headerList (msg : PortalMsg) : List PortalHeader :=
  msg.headers.take msg.headerCount.toNat

/-- `get_hdr`: the value of the first header of that name, or NULL. Without a result the
loop has passed a NULL key to `strcmp`. -/
def getHdr (key : CStr) : List PortalHeader → Option CharPtr
  | [] => some none
  | h :: hs => do
      let k ← h.key
      if CStr.ofBytes k = key then some h.value else getHdr key hs

/-- Allocation is taken to succeed. -/
def portalMsgAddHeader (msg : PortalMsg) (key value : CStr) : PortalMsg × Int :=
  if portalMaxHeaders ≤ msg.headerCount.toNat then (msg, -1)
  else
    ({ msg with
        headers := msg.headerList ++ [⟨some key.bytes, some value.bytes⟩]
        headerCount := msg.headerCount + 1 }, 0)

@[simp] theorem path_portalMsgAddHeader (msg : PortalMsg) (key value : CStr) :
    (portalMsgAddHeader msg key value).1.path = msg.path := by
  unfold portalMsgAddHeader
  split <;> rfl

@[simp] theorem ctx_portalMsgAddHeader (msg : PortalMsg) (key value : CStr) :
    (portalMsgAddHeader msg key value).1.ctx = msg.ctx := by
  unfold portalMsgAddHeader
  split <;> rfl

@[simp] theorem body_portalMsgAddHeader (msg : PortalMsg) (key value : CStr) :
    (portalMsgAddHeader msg key value).1.body = msg.body := by
  unfold portalMsgAddHeader
  split <;> rfl

/-- The loops that look at every header: the value of the last one of that name. -/
def lastHdr (key : CStr) (hs : List PortalHeader) : Option CharPtr :=
  hs.foldlM (fun value h => do
    let k ← h.key
    some (if CStr.ofBytes k = key then h.value else value)) none

def portalMethodGet : UInt8 := 1
def portalMethodSet : UInt8 := 2
def portalMethodCall : UInt8 := 3
def portalMethodSub : UInt8 := 5
def portalMethodUnsub : UInt8 := 6

inductive PortalStatus where
  | ok | created | accepted | badRequest | unauthorized | forbidden | notFound | conflict | gone
  | internalError | unavailable
deriving DecidableEq

/-- What a handler leaves in the response, and what it returns. -/
structure Reply where
  status : PortalStatus
  rc : Int
  body : Bytes
deriving DecidableEq

def Reply.fail (status : PortalStatus) : Reply := ⟨status, -1, []⟩

/-- A message as the handlers of the smaller modules read it. The body is the `body_len` bytes
`body` points to. -/
structure ModMsg where
  path : CStr
  headers : List (CStr × CStr)
  body : Bytes
deriving DecidableEq

def ModMsg.hdr (msg : ModMsg) (key : String) : Option CStr :=
  (msg.headers.find? fun h => h.1 = .lit key).map Prod.snd

/-! ### Zeroed structures (`calloc`, `memset`) -/

def PortalHeader.zero : PortalHeader := ⟨none, none⟩

def PortalHeaders.zero : PortalHeaders := ⟨0, []⟩

def PortalCtx.zero : PortalCtx where
  auth := ⟨none, none, .empty⟩
  trace := ⟨0, 0, 0, 0⟩
  sourceNode := none
  sourceModule := none

def PortalMsg.zero : PortalMsg where
  toPortalHeaders := .zero
  id := 0
  path := none
  method := 0
  body := []
  ctx := none

def PortalResp.zero : PortalResp where
  toPortalHeaders := .zero
  status := 0
  body := []

end Portal
