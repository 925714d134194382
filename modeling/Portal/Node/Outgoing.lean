import Portal.Core.CString
import Portal.Lib.Buffers
import Portal.Lib.Runs

/-!
The outgoing bytes of a federation connection (`modules/mod_node/mod_node.c`): `fd_state_tx_append`
queues them in `tx_buf` and `on_writable` hands them to the socket. `tx_buf` is the allocated
block, so its length is `tx_cap`. The bytes accepted and those ever queued are kept beside it as a
history.

* `unsent_txAppend` — an append extends what is still to be sent.
* `writeLoop_spec` — a round of writes sends a start of that.
-/

namespace Portal

open List Buffers Runs

/-! ### The buffer -/

/-- The sending side of `rx_state_t`. -/
structure TxState where
  txBuf : Bytes
  txLen : Nat
  txOff : Nat
deriving DecidableEq

def TxState.empty : TxState := ⟨[], 0, 0⟩

def TxState.txCap (st : TxState) : Nat := st.txBuf.length

def TxState.unsent (st : TxState) : Bytes := slice st.txBuf st.txOff st.txLen

/-- `while (ncap < need) ncap *= 2`; from 1 on, `need` rounds are always enough. -/
def growCap (need : Nat) : Nat → Nat → Nat
  | 0, ncap => ncap
  | rounds + 1, ncap => if ncap < need then growCap need rounds (ncap * 2) else ncap

/-- A larger block with the same contents; `fill` is what the new part happens to hold. -/
def reallocTo (fill : Nat → UInt8) (buf : Bytes) (ncap : Nat) : Bytes :=
  buf ++ (List.range (ncap - buf.length)).map fill

/-- The block that `fd_state_tx_append` copies to: the old one, if it has room. -/
def TxState.block (fill : Nat → UInt8) (st : TxState) (need : Nat) : Bytes :=
  if need > st.txCap then
    reallocTo fill st.txBuf (growCap need need (if st.txCap = 0 then 4096 else st.txCap))
  else st.txBuf

/-- `fd_state_tx_append`, with memory available. -/
def fdStateTxAppend (fill : Nat → UInt8) (st : TxState) (data : Bytes) : TxState :=
  let need := st.txLen + data.length
  { st with txBuf := writeAt (st.block fill need) st.txLen data, txLen := need }

/-- The socket accepts at least one byte and at most what it is offered: `accepted n` is `n + 1`
bytes, or all of them if there are fewer. -/
inductive WriteResult where
  | accepted (n : Nat)
  | wouldBlock
  | failed
deriving DecidableEq

inductive WriteEnd where
  | drained
  | blocked
  | failed
deriving DecidableEq

/-- The loop of `on_writable`, with the bytes it got rid of. A list of results that is too
short ends in a write that would block. -/
def writeLoop : List WriteResult → TxState → TxState × Bytes × WriteEnd
  | [], st => (st, [], if st.txOff < st.txLen then .blocked else .drained)
  | r :: rest, st =>
    if st.txOff < st.txLen then
      match r with
      | .accepted n =>
        let k := min (n + 1) (st.txLen - st.txOff)
        let next := writeLoop rest { st with txOff := st.txOff + k }
        (next.1, slice st.txBuf st.txOff (st.txOff + k) ++ next.2.1, next.2.2)
      | .wouldBlock => (st, [], .blocked)
      | .failed => (st, [], .failed)
    else (st, [], .drained)

/-- `on_writable`: `drained` is where it drops the write interest, `failed` where it marks
the peer dead. -/
def onWritable (results : List WriteResult) (st : TxState) : TxState × Bytes × WriteEnd :=
  if st.txLen = 0 then (st, [], .drained)
  else
    let after := writeLoop results st
    match after.2.2 with
    | .drained => ({ after.1 with txOff := 0, txLen := 0 }, after.2.1, .drained)
    | .blocked => after
    | .failed => after

/-! ### What one call does -/

def TxState.InBounds (st : TxState) : Prop := st.txOff ≤ st.txLen ∧ st.txLen ≤ st.txCap

instance (st : TxState) : Decidable st.InBounds := inferInstanceAs (Decidable (_ ∧ _))

theorem le_growCap {need rounds ncap : Nat} (hpos : 0 < ncap) (h : need ≤ ncap + rounds) :
    need ≤ growCap need rounds ncap := by
  induction rounds generalizing ncap with
  | zero => exact h
  | succ rounds ih =>
    rw [growCap]
    split
    · exact ih (by omega) (by omega)
    · omega

theorem length_reallocTo (fill : Nat → UInt8) (buf : Bytes) (ncap : Nat) :
    (reallocTo fill buf ncap).length = max buf.length ncap := by
  rw [reallocTo, length_append, length_map, length_range]
  omega

theorem le_length_block (fill : Nat → UInt8) (st : TxState) (need : Nat) :
    need ≤ (st.block fill need).length := by
  rw [TxState.block]
  split
  · have hgrow : need ≤ growCap need need (if st.txCap = 0 then 4096 else st.txCap) := by
      apply le_growCap <;> split <;> omega
    rw [length_reallocTo]
    omega
  · exact Nat.le_of_not_gt ‹_›

theorem block_eq_append (fill : Nat → UInt8) (st : TxState) (need : Nat) :
    ∃ more, st.block fill need = st.txBuf ++ more := by
  rw [TxState.block]
  split
  · exact ⟨_, rfl⟩
  · exact ⟨[], (append_nil _).symm⟩

variable {st : TxState}

theorem inBounds_txAppend (h : st.InBounds) (fill : Nat → UInt8) (data : Bytes) :
    (fdStateTxAppend fill st data).InBounds := by
  have hroom := le_length_block fill st (st.txLen + data.length)
  refine ⟨Nat.le_add_right_of_le h.1, ?_⟩
  change st.txLen + data.length ≤ (writeAt _ st.txLen data).length
  rwa [length_writeAt hroom]

theorem unsent_txAppend (h : st.InBounds) (fill : Nat → UInt8) (data : Bytes) :
    (fdStateTxAppend fill st data).unsent = st.unsent ++ data := by
  have hroom := le_length_block fill st (st.txLen + data.length)
  obtain ⟨more, hblock⟩ := block_eq_append fill st (st.txLen + data.length)
  have hlen := Nat.le_of_add_right_le hroom
  change slice (writeAt _ st.txLen data) st.txOff (st.txLen + data.length) = _
  rw [← slice_append_slice h.1 (Nat.le_add_right _ data.length), slice_writeAt_self hlen,
    slice_writeAt_of_le (le_refl _) hlen, hblock, slice_append_left h.2]
  rfl

/-- A round of writes sends the start of what waits, and only at the end of the buffer does it stop
as drained. -/
structure Writes (st : TxState) (after : TxState × Bytes × WriteEnd) : Prop where
  inBounds : after.1.InBounds
  split : after.2.1 ++ after.1.unsent = st.unsent
  drained : after.2.2 = .drained → after.1.txOff = after.1.txLen

theorem writes_none (h : st.InBounds) {how : WriteEnd}
    (hend : how = .drained → st.txOff = st.txLen) : Writes st (st, [], how) :=
  ⟨h, rfl, hend⟩

theorem writeLoop_spec (results : List WriteResult) (h : st.InBounds) :
    Writes st (writeLoop results st) := by
  induction results generalizing st with
  | nil =>
    have hoff := h.1
    apply writes_none h
    split
    · rintro ⟨⟩
    · omega
  | cons r rest ih =>
    by_cases hoff : st.txOff < st.txLen
    · cases r with
      | accepted n =>
        have hk : st.txOff + min (n + 1) (st.txLen - st.txOff) ≤ st.txLen := by omega
        obtain ⟨hin, hsent, hdrained⟩ :=
          @ih { st with txOff := st.txOff + min (n + 1) (st.txLen - st.txOff) } ⟨hk, h.2⟩
        simp only [writeLoop, if_pos hoff]
        refine ⟨hin, ?_, hdrained⟩
        rw [append_assoc, hsent]
        exact slice_append_slice (Nat.le_add_right _ _) hk
      | wouldBlock | failed =>
        simp only [writeLoop, if_pos hoff]
        exact writes_none h (by rintro ⟨⟩)
    · simp only [writeLoop, if_neg hoff]
      exact writes_none h fun _ => le_antisymm h.1 (Nat.le_of_not_lt hoff)

theorem TxState.unsent_eq_nil (h : st.txLen ≤ st.txOff) : st.unsent = [] := by
  rw [unsent, slice, Nat.sub_eq_zero_of_le h, take_zero]

/-- `on_writable` does what its loop does, and a drained buffer starts again at 0. -/
theorem onWritable_spec (results : List WriteResult) (h : st.InBounds) :
    Writes st (onWritable results st) ∧
    ((onWritable results st).2.2 = .drained → (onWritable results st).1.txLen = 0) := by
  by_cases hzero : st.txLen = 0
  · have hoff : st.txOff = st.txLen := by
      have := h.1
      omega
    simp only [onWritable, if_pos hzero]
    exact ⟨writes_none h fun _ => hoff, fun _ => hzero⟩
  · obtain ⟨hin, hsent, hdrained⟩ := writeLoop_spec results h
    rcases hend : (writeLoop results st).2.2 with _ | _ | _ <;>
      simp only [onWritable, if_neg hzero, hend]
    · rw [TxState.unsent_eq_nil (hdrained hend).ge] at hsent
      exact ⟨⟨⟨Nat.le_refl 0, Nat.zero_le _⟩, hsent, fun _ => rfl⟩, fun _ => trivial⟩
    · exact ⟨⟨hin, hsent, hdrained⟩, by rintro ⟨⟩⟩
    · exact ⟨⟨hin, hsent, hdrained⟩, by rintro ⟨⟩⟩

/-! ### Runs -/

structure Outgoing where
  tx : TxState
  accepted : Bytes
  appended : Bytes
deriving DecidableEq

def Outgoing.initial : Outgoing := ⟨.empty, [], []⟩

inductive TxEvent where
  | append (fill : Nat → UInt8) (data : Bytes)
  | writable (results : List WriteResult)

def outgoingStep (s : Outgoing) : TxEvent → Outgoing
  | .append fill data =>
    { s with tx := fdStateTxAppend fill s.tx data, appended := s.appended ++ data }
  | .writable results =>
    let after := onWritable results s.tx
    { s with tx := after.1, accepted := s.accepted ++ after.2.1 }

/-- Every byte that was queued has been accepted or still waits, in the order of the appends. -/
structure Outgoing.Consistent (s : Outgoing) : Prop where
  inBounds : s.tx.InBounds
  split : s.accepted ++ s.tx.unsent = s.appended

theorem consistent_initial : Outgoing.initial.Consistent :=
  ⟨⟨le_refl 0, le_refl 0⟩, rfl⟩

theorem Outgoing.Consistent.step {s : Outgoing} (h : s.Consistent) (e : TxEvent) :
    (outgoingStep s e).Consistent := by
  cases e with
  | append fill data =>
    refine ⟨inBounds_txAppend h.inBounds fill data, ?_⟩
    change s.accepted ++ (fdStateTxAppend fill s.tx data).unsent = s.appended ++ data
    rw [unsent_txAppend h.inBounds, ← append_assoc, h.split]
  | writable results =>
    have hw := (onWritable_spec results h.inBounds).1
    refine ⟨hw.inBounds, ?_⟩
    change (s.accepted ++ (onWritable results s.tx).2.1) ++ (onWritable results s.tx).1.unsent =
      s.appended
    rw [append_assoc, hw.split, h.split]

/-- However the socket takes the bytes, those accepted are the start of those queued, followed in
the buffer by all that is missing. -/
theorem outgoing_stream (es : List TxEvent) :
    let s := run outgoingStep .initial es
    s.accepted <+: s.appended ∧ (s.tx.txLen = 0 → s.accepted = s.appended) ∧
    s.tx.txOff ≤ s.tx.txLen ∧ s.tx.txLen ≤ s.tx.txCap ∧
    s.accepted ++ s.tx.unsent = s.appended := by
  intro s
  have h : s.Consistent := run_invariant (fun _ e h => h.step e) consistent_initial es
  refine ⟨⟨_, h.split⟩, fun hzero => ?_, h.inBounds.1, h.inBounds.2, h.split⟩
  have hsplit := h.split
  rwa [TxState.unsent_eq_nil (by omega), append_nil] at hsplit

end Portal
