import Portal.Node.Hello
import Portal.Node.Outgoing

/-!
When a federation connection waits for its socket to become writable
(`modules/mod_node/mod_node.c`): `fd_state_ensure_writable`, `fd_state_stop_writable` and all that
call them: `drive_handshake` with its three phases, `on_inbound_data`, and what is queued on the
connection.

The event mask is kept twice, in `rx_state_t` and in the event loop; `fd_modify` changes the second
only while the descriptor is registered, and `get_worker` takes a descriptor out and leaves the
state. A `finalize_handshake` that waits for an identity exchange ends in an event of its own
(`finalized`).
-/

namespace Portal

open List Runs Option

/-! ### The connection -/

/-- The sending half of `hs_context_t`, and `recv_done`. -/
structure HsFlags where
  sendQueued : Bool
  sendDone : Bool
  recvDone : Bool
deriving DecidableEq

def HsFlags.initial : HsFlags := ⟨false, false, false⟩

/-- `rx_state_t`, without its receiving buffer, and how the event loop watches it. -/
structure FdState where
  connState : ConnState
  tx : TxState
  /-- `EV_WRITE` in `events` -/
  evWrite : Bool
  /-- `EV_WRITE` in the mask of the event loop, if the descriptor is registered -/
  watch : Option Bool
  hs : Option HsFlags
deriving DecidableEq

def fdStateEnsureWritable (st : FdState) : FdState :=
  if st.evWrite then st else { st with evWrite := true, watch := st.watch.map fun _ => true }

def fdStateStopWritable (st : FdState) : FdState :=
  if st.evWrite then { st with evWrite := false, watch := st.watch.map fun _ => false } else st

def connSetState (st : FdState) (new : ConnState) : FdState := { st with connState := new }

/-- A request of `peer_send_wait`, or the response to one. -/
def FdState.queue (fill : Nat → UInt8) (st : FdState) (data : Bytes) : FdState :=
  fdStateEnsureWritable { st with tx := fdStateTxAppend fill st.tx data }

/-- `on_writable`; whether the peer is marked dead is not part of the connection. -/
def FdState.onWritable (results : List WriteResult) (st : FdState) : FdState :=
  let after := Portal.onWritable results st.tx
  match after.2.2 with
  | .drained => fdStateStopWritable { st with tx := after.1 }
  | .blocked => { st with tx := after.1 }
  | .failed => { st with tx := after.1 }

/-- The configuration, with `g_tls_enabled`. -/
structure LinkConfig where
  hs : HsConfig
  tls : Bool

inductive TlsResult where
  | done
  | wantRead
  | wantWrite
  | failed
deriving DecidableEq

inductive RecvResult where
  | more
  | done
  | failed
deriving DecidableEq

/-- How `finalize_handshake` goes: to its end, into an identity exchange on this connection
with its request, or the table is full. -/
inductive FinalizeResult where
  | ready
  | exchange (request : Bytes)
  | aborted

/-- All that a drive of the handshake finds: the answers of the system calls, the peer table
and what `realloc` leaves in a new block. -/
structure DriveInput where
  connected : Bool
  sslNew : Bool
  tls : TlsResult
  recv : RecvResult
  finalize : FinalizeResult
  peers : List NodePeer
  fill : Nat → UInt8

inductive Drive where
  | wait (st : FdState)
  | go (st : FdState)
  | fail

def Drive.andThen : Drive → (FdState → Drive) → Drive
  | .go st, next => next st
  | .wait st, _ => .wait st
  | .fail, _ => .fail

def driveHsSendBuild (cfg : LinkConfig) (io : DriveInput) (st : FdState) : FdState :=
  match st.hs with
  | none => st
  | some flags =>
    if flags.sendQueued then st
    else
      { st with hs := some { flags with sendQueued := true } }.queue io.fill
        (hsSendBuild cfg.hs io.peers)

/-- Phase 0 of `drive_handshake`. -/
def connectPhase (cfg : LinkConfig) (io : DriveInput) (writable : Bool) (st : FdState) : Drive :=
  if st.connState = .tcpConnecting then
    if !writable then .wait st
    else if !io.connected then .fail
    else if cfg.tls then
      if !io.sslNew then .fail
      else .go (fdStateStopWritable (connSetState st .tlsConnect))
    else .go (fdStateStopWritable (driveHsSendBuild cfg io (connSetState st .hsExchange)))
  else .go st

/-- Phase A: `drive_tls`. -/
def tlsPhase (cfg : LinkConfig) (io : DriveInput) (st : FdState) : Drive :=
  if st.connState = .tlsAccept ∨ st.connState = .tlsConnect then
    match io.tls with
    | .done => .go (driveHsSendBuild cfg io (connSetState st .hsExchange))
    | .wantRead => .wait st
    | .wantWrite => .wait (fdStateEnsureWritable st)
    | .failed => .fail
  else .go st

def HsFlags.update (drained received : Bool) (f : HsFlags) : HsFlags :=
  { f with sendDone := f.sendDone || f.sendQueued && drained, recvDone := f.recvDone || received }

def finalizeLink (io : DriveInput) (st : FdState) : Drive :=
  match io.finalize with
  | .ready => .go { connSetState st .ready with hs := none }
  | .exchange request => .wait (st.queue io.fill request)
  | .aborted => .fail

def exchangePhase (io : DriveInput) (st : FdState) : Drive :=
  if st.connState = .hsExchange then
    if io.recv = .failed then .fail
    else
      let hs := st.hs.map (HsFlags.update (st.tx.txLen = 0) (io.recv = .done))
      if hs.any fun f => f.sendDone && f.recvDone then finalizeLink io { st with hs }
      else .go { st with hs }
  else .go st

def FdState.driveHandshake (cfg : LinkConfig) (io : DriveInput) (writable : Bool)
    (st : FdState) : Drive :=
  ((connectPhase cfg io writable st).andThen (tlsPhase cfg io)).andThen (exchangePhase io)

/-- The events, the answers of the socket to the writes, and the responses that the reader queues
before it ends or loses the connection. -/
structure CallbackInput where
  error : Bool
  writable : Bool
  readable : Bool
  writes : List WriteResult
  drive : DriveInput
  responses : List Bytes
  lost : Bool

def FdState.read (io : CallbackInput) (st : FdState) : Option FdState :=
  if !io.readable then some st
  else if io.lost then none
  else some (io.responses.foldl (FdState.queue io.drive.fill) st)

/-- `on_inbound_data`; `none` is a connection that is closed and freed. -/
def FdState.onInboundData (cfg : LinkConfig) (io : CallbackInput) (st : FdState) :
    Option FdState :=
  if io.error then none
  else
    let st := if io.writable then st.onWritable io.writes else st
    if st.connState = .ready then st.read io
    else
      match st.driveHandshake cfg io.drive io.writable with
      | .fail => none
      | .wait st' => some st'
      | .go st' => if st'.connState = .ready then st'.read io else some st'

inductive LinkEvent where
  | accept (io : DriveInput)       -- `node_fd_add_inbound_handshake`
  | connect                        -- `node_fd_add_outbound_handshake`
  | add                            -- `node_fd_add_with_rx`
  | callback (io : CallbackInput)
  | queue (fill : Nat → UInt8) (data : Bytes)
  | finalized                      -- the end of an identity exchange
  | fdDel                          -- `get_worker` takes the descriptor out of the loop
  | close                          -- `node_fd_del_with_rx`

/-- A state of `rx_alloc`, registered with this mask. -/
def FdState.fresh (state : ConnState) (evWrite : Bool) (hs : Option HsFlags) : FdState :=
  ⟨state, .empty, evWrite, some evWrite, hs⟩

def linkStep (cfg : LinkConfig) (link : Option FdState) : LinkEvent → Option FdState
  | .accept io =>
    if cfg.tls then some (.fresh .tlsAccept true (some .initial))
    else some (driveHsSendBuild cfg io (.fresh .hsExchange true (some .initial)))
  | .connect => some (.fresh .tcpConnecting true (some .initial))
  | .add => some (.fresh .ready false none)
  | .callback io => link.bind (FdState.onInboundData cfg io)
  | .queue fill data => link.map fun st => st.queue fill data
  | .finalized => link.map fun st =>
    if st.connState = .hsExchange then { connSetState st .ready with hs := none } else st
  | .fdDel => link.map fun st => { st with watch := none }
  | .close => none

/-! ### The invariant -/

def TxState.Waiting (st : TxState) : Prop := st.txOff < st.txLen

instance (st : TxState) : Decidable st.Waiting := inferInstanceAs (Decidable (_ < _))

/-- The two masks agree, and a connection with unsent bytes waits for the socket. -/
structure Armed (st : FdState) : Prop where
  watch : ∀ w, st.watch = some w → w = st.evWrite
  inBounds : st.tx.InBounds
  write : st.tx.Waiting → st.evWrite = true
  connecting : st.connState = .tcpConnecting → st.tx.txLen = 0

section Operations

variable {st : FdState} {cfg : LinkConfig} {io : DriveInput}

theorem armed_ensureWritable (hwatch : ∀ w, st.watch = some w → w = st.evWrite)
    (hin : st.tx.InBounds) (hconn : st.connState = .tcpConnecting → st.tx.txLen = 0) :
    Armed (fdStateEnsureWritable st) := by
  rw [fdStateEnsureWritable]
  split
  · exact ⟨hwatch, hin, fun _ => ‹_›, hconn⟩
  · refine ⟨fun w hw => ?_, hin, fun _ => rfl, hconn⟩
    obtain ⟨_, -, rfl⟩ := map_eq_some_iff.mp hw
    rfl

theorem armed_stopWritable (h : Armed st) (hsent : ¬ st.tx.Waiting) :
    Armed (fdStateStopWritable st) := by
  rw [fdStateStopWritable]
  split
  · refine ⟨fun w hw => ?_, h.inBounds, fun hwait => absurd hwait hsent, h.connecting⟩
    obtain ⟨_, -, rfl⟩ := map_eq_some_iff.mp hw
    rfl
  · exact h

theorem armed_queue (h : Armed st) (hconn : st.connState ≠ .tcpConnecting)
    (fill : Nat → UInt8) (data : Bytes) : Armed (st.queue fill data) :=
  armed_ensureWritable h.watch (inBounds_txAppend h.inBounds fill data)
    fun hc => absurd hc hconn

theorem armed_onWritable (h : Armed st) (results : List WriteResult) :
    Armed (st.onWritable results) := by
  obtain ⟨hwrites, hdrained⟩ := onWritable_spec results h.inBounds
  -- bytes that wait afterwards waited before
  have hwait : (onWritable results st.tx).1.Waiting → st.tx.Waiting := by
    intro hw
    by_contra hsent
    have hnil := hwrites.split
    rw [TxState.unsent_eq_nil (Nat.le_of_not_lt hsent)] at hnil
    have hlen := congrArg length (append_eq_nil_iff.mp hnil).2
    rw [TxState.unsent, Buffers.length_slice hwrites.inBounds.2, length_nil] at hlen
    exact absurd hw (not_lt.mpr (Nat.le_of_sub_eq_zero hlen))
  have hconn : st.connState = .tcpConnecting → (onWritable results st.tx).1.txLen = 0 := by
    intro hc
    rw [onWritable, if_pos (h.connecting hc)]
    exact h.connecting hc
  have hafter : Armed { st with tx := (onWritable results st.tx).1 } :=
    ⟨h.watch, hwrites.inBounds, fun hw => h.write (hwait hw), hconn⟩
  rw [FdState.onWritable]
  rcases hend : (onWritable results st.tx).2.2 with _ | _ | _
  · apply armed_stopWritable hafter
    rw [TxState.Waiting, hdrained hend]
    exact Nat.not_lt_zero _
  · exact hafter
  · exact hafter

theorem Armed.setState (h : Armed st) (new : ConnState) (hnew : new ≠ .tcpConnecting) :
    Armed (connSetState st new) :=
  ⟨h.watch, h.inBounds, h.write, fun hc => absurd hc hnew⟩

theorem Armed.setHs (h : Armed st) (hs : Option HsFlags) : Armed { st with hs } :=
  ⟨h.watch, h.inBounds, h.write, h.connecting⟩

theorem armed_sendBuild (h : Armed st) (hconn : st.connState ≠ .tcpConnecting) :
    Armed (driveHsSendBuild cfg io st) := by
  rw [driveHsSendBuild]
  split
  · exact h
  split
  · exact h
  · apply armed_queue
    · exact h.setHs _
    · exact hconn

/-! ### The drive of the handshake -/

/-- What holds of the connection a phase leaves, if it leaves one. -/
def Drive.Leaves (P : FdState → Prop) : Drive → Prop
  | .wait st => P st
  | .go st => P st
  | .fail => True

theorem Drive.Leaves.andThen {P : FdState → Prop} {d : Drive} {next : FdState → Drive}
    (h : d.Leaves P) (hnext : ∀ st, P st → (next st).Leaves P) : (d.andThen next).Leaves P := by
  cases d with
  | wait st => exact h
  | go st => exact hnext st h
  | fail => trivial

theorem armed_connectPhase (h : Armed st) {writable : Bool}
    (hplain : ¬ (st.connState = .tcpConnecting ∧ cfg.tls = false ∧ writable = true ∧
      io.connected = true)) :
    (connectPhase cfg io writable st).Leaves Armed := by
  rw [connectPhase]
  by_cases hc : st.connState = .tcpConnecting
  · rw [if_pos hc]
    cases writable with
    | false => exact h
    | true =>
      cases hconn : io.connected with
      | false => trivial
      | true =>
        have htls : cfg.tls = true := by
          by_contra hoff
          exact hplain ⟨hc, Bool.eq_false_of_not_eq_true hoff, rfl, hconn⟩
        rw [if_neg (by decide), if_neg (by decide), if_pos htls]
        split
        · trivial
        apply armed_stopWritable (h.setState .tlsConnect (by decide))
        change ¬ st.tx.txOff < st.tx.txLen
        rw [h.connecting hc]
        exact Nat.not_lt_zero _
  · rw [if_neg hc]
    exact h

theorem armed_tlsPhase (h : Armed st) : (tlsPhase cfg io st).Leaves Armed := by
  rw [tlsPhase]
  split
  · cases io.tls with
    | done => exact armed_sendBuild (h.setState .hsExchange (by decide)) (by simp [connSetState])
    | wantRead => exact h
    | wantWrite => exact armed_ensureWritable h.watch h.inBounds h.connecting
    | failed => trivial
  · exact h

theorem armed_exchangePhase (h : Armed st) : (exchangePhase io st).Leaves Armed := by
  rw [exchangePhase]
  split
  · rename_i hx
    split
    · trivial
    simp only
    split
    · rw [finalizeLink]
      cases io.finalize with
      | ready => exact (h.setState .ready (by decide)).setHs none
      | exchange request =>
        apply armed_queue
        · exact h.setHs _
        · intro hc
          exact absurd (hx.symm.trans hc) (by decide)
      | aborted => trivial
    · exact h.setHs _
  · exact h

/-- A drive of the handshake that does not complete a TCP connect without TLS. -/
theorem armed_driveHandshake (h : Armed st) {writable : Bool}
    (hplain : ¬ (st.connState = .tcpConnecting ∧ cfg.tls = false ∧ writable = true ∧
      io.connected = true)) :
    (st.driveHandshake cfg io writable).Leaves Armed :=
  ((armed_connectPhase h hplain).andThen fun _ h => armed_tlsPhase h).andThen
    fun _ h => armed_exchangePhase h

end Operations

/-! ### Runs -/

/-- No callback completes a TCP connect without TLS, and nothing is queued on a connection
before it is connected. -/
def KeepsInterest (cfg : LinkConfig) : Option FdState → LinkEvent → Prop
  | some st, .callback io => ¬ (st.connState = .tcpConnecting ∧ cfg.tls = false ∧
      io.writable = true ∧ io.drive.connected = true)
  | some st, .queue _ _ => st.connState ≠ .tcpConnecting
  | _, _ => True

instance (cfg : LinkConfig) (link : Option FdState) (e : LinkEvent) :
    Decidable (KeepsInterest cfg link e) := by
  cases link <;> cases e <;> simp only [KeepsInterest] <;> infer_instance

theorem armed_fresh (state : ConnState) (evWrite : Bool) (hs : Option HsFlags) :
    Armed (.fresh state evWrite hs) :=
  ⟨fun _ hw => (some.inj hw).symm, ⟨le_refl 0, le_refl 0⟩,
    fun hw => absurd hw (Nat.not_lt_zero 0), fun _ => rfl⟩

theorem connState_queue (fill : Nat → UInt8) (st : FdState) (data : Bytes) :
    (st.queue fill data).connState = st.connState := by
  rw [FdState.queue, fdStateEnsureWritable]
  split
  · rfl
  · rfl

theorem armed_responses {st : FdState} (h : Armed st) (hready : st.connState = .ready)
    (fill : Nat → UInt8) (responses : List Bytes) :
    Armed (responses.foldl (FdState.queue fill) st) := by
  induction responses generalizing st with
  | nil => exact h
  | cons data responses ih =>
    apply ih
    · exact armed_queue h (by rw [hready]; decide) fill data
    · rw [connState_queue, hready]

theorem armed_read {st : FdState} (h : Armed st) (hready : st.connState = .ready)
    (io : CallbackInput) : ∀ st' ∈ st.read io, Armed st' := by
  rw [FdState.read]
  split
  · rintro st' ⟨⟩
    exact h
  split
  · rintro st' ⟨⟩
  · rintro st' ⟨⟩
    exact armed_responses h hready _ _

theorem connState_onWritable (results : List WriteResult) (st : FdState) :
    (st.onWritable results).connState = st.connState := by
  rw [FdState.onWritable]
  rcases (onWritable results st.tx).2.2 with _ | _ | _
  · simp only [fdStateStopWritable]
    split
    · rfl
    · rfl
  · rfl
  · rfl

theorem armed_onInboundData {cfg : LinkConfig} {st : FdState} (h : Armed st)
    {io : CallbackInput} (hplain : KeepsInterest cfg (some st) (.callback io)) :
    ∀ st' ∈ st.onInboundData cfg io, Armed st' := by
  rw [FdState.onInboundData]
  split
  · rintro st' ⟨⟩
  simp only
  have hw : Armed (if io.writable = true then st.onWritable io.writes else st) := by
    split
    · exact armed_onWritable h io.writes
    · exact h
  have hstate : (if io.writable = true then st.onWritable io.writes else st).connState =
      st.connState := by
    split
    · exact connState_onWritable io.writes st
    · rfl
  generalize (if io.writable = true then st.onWritable io.writes else st) = st₁ at hw hstate ⊢
  rw [KeepsInterest, ← hstate] at hplain
  split
  · exact armed_read hw ‹_› io
  have hdrive := armed_driveHandshake hw hplain
  rcases hd : st₁.driveHandshake cfg io.drive io.writable with st₂ | st₂ | _ <;>
    rw [hd] at hdrive
  · rintro st' ⟨⟩
    exact hdrive
  · simp only
    split
    · exact armed_read hdrive ‹_› io
    · rintro st' ⟨⟩
      exact hdrive
  · rintro st' ⟨⟩

theorem armed_linkStep {cfg : LinkConfig} {link : Option FdState} (h : ∀ st ∈ link, Armed st)
    (e : LinkEvent) (hc : KeepsInterest cfg link e) : ∀ st ∈ linkStep cfg link e, Armed st := by
  cases e with
  | accept io =>
    rw [linkStep]
    split
    · rintro st ⟨⟩
      exact armed_fresh _ _ _
    · rintro st ⟨⟩
      exact armed_sendBuild (armed_fresh _ _ _) (by simp [FdState.fresh])
  | connect | add =>
    rintro st ⟨⟩
    exact armed_fresh _ _ _
  | callback io =>
    cases link with
    | none => rintro st ⟨⟩
    | some st => exact armed_onInboundData (h st rfl) hc
  | queue fill data =>
    cases link with
    | none => rintro st ⟨⟩
    | some st =>
      rintro st' ⟨⟩
      exact armed_queue (h st rfl) hc fill data
  | finalized =>
    cases link with
    | none => rintro st ⟨⟩
    | some st =>
      rintro st' ⟨⟩
      simp only
      split
      · exact ((h st rfl).setState .ready (by decide)).setHs none
      · exact h st rfl
  | fdDel =>
    cases link with
    | none => rintro st ⟨⟩
    | some st =>
      have hst := h st rfl
      rintro st' ⟨⟩
      exact ⟨by rintro w ⟨⟩, hst.inBounds, hst.write, hst.connecting⟩
  | close => rintro st ⟨⟩

/-- As long as every TCP connect goes on with TLS, a registered connection with unsent bytes
is registered for `EV_WRITE`. -/
theorem no_stalled_output (cfg : LinkConfig) (es : List LinkEvent)
    (h : Along (linkStep cfg) (KeepsInterest cfg) none es) (st : FdState)
    (hst : run (linkStep cfg) none es = some st) (hreg : st.watch ≠ none)
    (hunsent : st.tx.Waiting) : st.watch = some true := by
  have harmed : ∀ st ∈ run (linkStep cfg) none es, Armed st :=
    Along.invariant (fun link e (hinv : ∀ st ∈ link, Armed st) hc => armed_linkStep hinv e hc)
      (by rintro st ⟨⟩) h
  have hst := harmed st hst
  obtain ⟨w, hw⟩ := ne_none_iff_exists'.mp hreg
  rw [hw, hst.watch w hw, hst.write hunsent]

/-! ### The connect without TLS -/

theorem hsSendBuild_ne_nil (cfg : HsConfig) (peers : List NodePeer) :
    hsSendBuild cfg peers ≠ [] := by
  intro hnil
  have hlen := congrArg length hnil
  simp only [hsSendBuild, Buffers.writeAt, length_append, Cursor.length_beEncode,
    length_nil] at hlen
  omega

theorem waiting_txAppend (fill : Nat → UInt8) {data : Bytes} (h : data ≠ []) :
    (fdStateTxAppend fill .empty data).Waiting := by
  change 0 < 0 + data.length
  rw [zero_add]
  exact length_pos_of_ne_nil h

/-- The callback that completes a TCP connect without TLS queues this node's handshake, and then
stops waiting for the socket: nothing but the other side or a timer wakes it again. -/
theorem plainConnect_stalls (cfg : LinkConfig) (htls : cfg.tls = false) (io : CallbackInput)
    (herror : io.error = false) (hwrite : io.writable = true)
    (hconnected : io.drive.connected = true) (hrecv : io.drive.recv ≠ .failed) :
    ∃ st, run (linkStep cfg) none [.connect, .callback io] = some st ∧
      st.watch = some false ∧ st.tx.Waiting := by
  have hunsent := waiting_txAppend io.drive.fill (hsSendBuild_ne_nil cfg.hs io.drive.peers)
  have hlen : ¬ (fdStateTxAppend io.drive.fill .empty
      (hsSendBuild cfg.hs io.drive.peers)).txLen = 0 := by
    intro hzero
    rw [TxState.Waiting, hzero] at hunsent
    exact absurd hunsent (Nat.not_lt_zero _)
  let st : FdState := ⟨.hsExchange, fdStateTxAppend io.drive.fill .empty
    (hsSendBuild cfg.hs io.drive.peers), false, some false, some ⟨true, false,
      decide (io.drive.recv = .done)⟩⟩
  have hconnect : connectPhase cfg io.drive true
      ⟨.tcpConnecting, .empty, false, some false, some .initial⟩ =
        .go { st with hs := some ⟨true, false, false⟩ } := by
    simp only [connectPhase, htls, hconnected, if_true, if_false, Bool.not_true, Bool.false_eq_true]
    rfl
  have hexchange : exchangePhase io.drive { st with hs := some ⟨true, false, false⟩ } = .go st := by
    simp [exchangePhase, st, if_neg hrecv, HsFlags.update, hlen]
  have hdrive : FdState.driveHandshake cfg io.drive true
      ⟨.tcpConnecting, .empty, false, some false, some .initial⟩ = .go st := by
    rw [FdState.driveHandshake, hconnect]
    exact hexchange
  refine ⟨st, ?_, rfl, hunsent⟩
  -- `on_writable` has nothing to send, and drops the interest first
  have hwritable : (FdState.fresh .tcpConnecting true (some .initial)).onWritable io.writes =
      ⟨.tcpConnecting, .empty, false, some false, some .initial⟩ := rfl
  change FdState.onInboundData cfg io (.fresh .tcpConnecting true (some .initial)) = some st
  simp [FdState.onInboundData, herror, hwrite, hwritable, hdrive, st]

def plainLink : LinkConfig := ⟨helloSender, false⟩

def plainDrive : DriveInput := ⟨true, true, .wantRead, .more, .ready, [], fun _ => 0⟩

def plainCallback : CallbackInput := ⟨false, true, false, [], plainDrive, [], false⟩

/-- An accepted connection waits for the socket. -/
theorem no_stalled_output_accept :
    (driveHsSendBuild plainLink plainDrive
      (.fresh .hsExchange true (some .initial))).watch = some true :=
  no_stalled_output plainLink [.accept plainDrive] ⟨trivial, trivial⟩ _ rfl
    (by simp [driveHsSendBuild, FdState.fresh, FdState.queue, fdStateEnsureWritable,
      HsFlags.initial])
    (waiting_txAppend plainDrive.fill (hsSendBuild_ne_nil plainLink.hs plainDrive.peers))

/-- A connection made by this node does not. -/
theorem no_stalled_output_false :
    ∃ st, run (linkStep plainLink) none [.connect, .callback plainCallback] = some st ∧
      st.watch = some false ∧ st.tx.Waiting :=
  plainConnect_stalls plainLink rfl plainCallback rfl rfl rfl (by decide)

end Portal
