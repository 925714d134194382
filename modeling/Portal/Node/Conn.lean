import Portal.Lib.Framing
import Portal.Node.Dispatch

/-!
One READY federation connection: `on_inbound_data`, `peer_send_wait` and `pending_wait` of
`modules/mod_node/mod_node.c`.

The event loop is re-entered from `pending_wait`, so there is a stack of activations, and a
callback may run while a handler of the same connection is still below it; `rx->buf` is reset only
when that handler returns. The bytes that have arrived and the log of what the reader took each
frame for are only recorded.
-/

namespace Portal

open List Framing Runs

/-! ### State -/

def nodeBufSize : Int := 2 ^ 20

def nodeFormat : Format UInt8 := lengthFormat nodeBufSize

inductive Activation where
  | handler          -- `on_inbound_data` of this connection, inside `g_core->send`
  | other            -- code that has nothing to do with this connection
  | wait (w : Nat)   -- `pending_wait` for request `w` on this connection
  | waitElse         -- `pending_wait` on another connection
deriving DecidableEq

inductive Link where
  | up
  | closed
  | tunnel   -- taken out of the event loop by `start_pipe` or `start_shell`
  | crashed
deriving DecidableEq

inductive Meaning where
  | response (w : Nat) (decoded : Bool)
  | request
deriving DecidableEq

structure Interp where
  offset : Nat
  frame : Bytes
  meaning : Meaning
deriving DecidableEq

/-- `rx_state_t` and what surrounds it. A waiter is named by the number of the request it
waits for. -/
structure Conn where
  /-- what the next reads return, before they would block -/
  sock : List Bytes
  eof : Bool
  rx : Rx UInt8
  /-- offset of the first byte of `rx.buf` in the stream -/
  base : Nat
  /-- `pending_head` and what follows it -/
  pending : List Nat
  stack : List Activation
  link : Link
  /-- requests sent so far -/
  sent : Nat
  arrived : Bytes
  log : List Interp
deriving DecidableEq

def Conn.initial : Conn where
  sock := []
  eof := false
  rx := .empty
  base := 0
  pending := []
  stack := []
  link := .up
  sent := 0
  arrived := []
  log := []

/-! ### The reader -/

def Conn.reset (s : Conn) : Conn :=
  { s with rx := .empty, base := s.base + s.rx.buf.length }

/-- The descriptor is closed and `rx_free` fails the waiters. -/
def Conn.close (s : Conn) : Conn := { s with link := .closed, pending := [] }

def Conn.record (s : Conn) (m : Meaning) : Conn :=
  { s with log := s.log ++ [⟨s.base, s.rx.buf, m⟩] }

def decodesResp (frame : Bytes) : Bool :=
  match portalWireDecodeResp frame .zero with
  | (.ok (), _) => true
  | (.error _, _) => false

/-- Phase four, with the complete frame in `rx`. A tunnel that does not start leaves the frame
there: `start_pipe` and `start_shell` take the state away only when they succeed. -/
def Conn.interpret (s : Conn) (started : Bool) : Conn :=
  match s.pending with
  | w :: ws => { (s.record (.response w (decodesResp s.rx.buf))).reset with pending := ws }
  | [] =>
    let t := s.record .request
    match classify s.rx.buf with
    | .undecodable => t.reset
    | .crash => { t with link := .crashed }
    | .refused => t
    | .pipe _ => if started then { t with link := .tunnel } else t
    | .shell _ _ => if started then { t with link := .tunnel } else t
    | .message _ => { t with stack := .handler :: t.stack }

def onInboundData (s : Conn) (started : Bool) : Conn :=
  match pass nodeFormat s.rx s.sock with
  | .blocked rx sock => if s.eof then { s with rx, sock }.close else { s with rx, sock }
  | .invalid => s.close
  | .frame rx sock => { s with rx, sock }.interpret started

/-! ### Events -/

inductive ConnEvent where
  | arrive (chunk : Bytes)
  | hangup
  | ready (started : Bool)   -- the callback; whether a tunnel starts if one is asked for
  | error                    -- `EV_ERROR`
  | writeFail                -- a hard error in `on_writable`
  | enter                    -- the loop calls something else
  | leave
  | call                     -- `peer_send_wait` on this connection
  | callElse                 -- on another one
  | wakeElse                 -- that wait is over
  | timeout
  | wake                     -- `pending_wait` returns
  | finish                   -- the handler of a request returns
deriving DecidableEq

/-- The event loop runs: nothing is on the stack, or something that waits. -/
def loopRuns : List Activation → Bool
  | [] => true
  | .wait _ :: _ => true
  | .waitElse :: _ => true
  | _ => false

def codeRuns : List Activation → Bool
  | .handler :: _ => true
  | .other :: _ => true
  | _ => false

def Conn.waiter (s : Conn) : Option Nat :=
  match s.stack with
  | .wait w :: _ => some w
  | _ => none

/-- When an event can happen. A callback comes when the descriptor is readable. -/
def Enabled (s : Conn) : ConnEvent → Prop
  | .arrive chunk => chunk ≠ [] ∧ s.eof = false
  | .hangup => s.eof = false
  | .ready _ => s.link = .up ∧ loopRuns s.stack = true ∧ (s.sock.flatten ≠ [] ∨ s.eof = true)
  | .error => s.link = .up ∧ loopRuns s.stack = true
  | .writeFail => s.link = .up ∧ loopRuns s.stack = true
  | .enter => loopRuns s.stack = true
  | .leave => s.stack.head? = some .other
  | .call => s.link = .up ∧ codeRuns s.stack = true
  | .callElse => codeRuns s.stack = true
  | .wakeElse => s.stack.head? = some .waitElse
  | .timeout => (s.waiter.any fun w => decide (w ∈ s.pending)) = true
  | .wake => (s.waiter.any fun w => decide (w ∉ s.pending)) = true
  | .finish => s.stack.head? = some .handler

instance (s : Conn) (e : ConnEvent) : Decidable (Enabled s e) := by
  cases e <;> dsimp only [Enabled] <;> infer_instance

def Conn.pop (s : Conn) : Conn := { s with stack := s.stack.tail }
def Conn.push (s : Conn) (a : Activation) : Conn := { s with stack := a :: s.stack }

def connStep (s : Conn) : ConnEvent → Conn
  | .arrive chunk => { s with sock := s.sock ++ [chunk], arrived := s.arrived ++ chunk }
  | .hangup => { s with eof := true }
  | .ready started => onInboundData s started
  | .error => s.close
  | .writeFail => { s with pending := [] }
  | .enter => s.push .other
  | .leave => s.pop
  | .call => { s.push (.wait s.sent) with pending := s.pending ++ [s.sent], sent := s.sent + 1 }
  | .callElse => s.push .waitElse
  | .wakeElse => s.pop
  | .timeout => { s with pending := s.pending.filter fun w => s.waiter ≠ some w }
  | .wake => s.pop
  | .finish => s.pop.reset

/-- The log takes up `pre`, frame by frame. -/
inductive Covers : Bytes → List Interp → Prop where
  | nil : Covers [] []
  | snoc {pre f : Bytes} {log : List Interp} (m : Meaning) :
      Covers pre log → nodeFormat.IsFrame f → Covers (pre ++ f) (log ++ [⟨pre.length, f, m⟩])

/-- What was acted on so far are the first frames of the stream, each once and in order. -/
def Exact (s : Conn) : Prop := ∃ pre, pre <+: s.arrived ∧ Covers pre s.log

/-- The buffer holds a complete frame: one that was handed over, since a callback never
leaves it otherwise. -/
def Conn.Held (s : Conn) : Prop := s.rx.need ≠ 0 ∧ s.rx.need ≤ s.rx.buf.length

instance (s : Conn) : Decidable s.Held :=
  inferInstanceAs (Decidable (s.rx.need ≠ 0 ∧ s.rx.need ≤ s.rx.buf.length))

variable {s : Conn} {pre : Bytes}

/-- Every entry of the log ends within the part of the stream that is taken up. -/
theorem Covers.entry_le {log : List Interp} (h : Covers pre log) {i : Interp}
    (hi : i ∈ log) : i.offset + i.frame.length ≤ pre.length ∧ 0 < i.frame.length := by
  induction h with
  | nil => cases hi
  | snoc m _ hf ih =>
    rw [length_append]
    rcases mem_append.mp hi with hi | hi
    · obtain ⟨hle, hpos⟩ := ih hi
      exact ⟨by omega, hpos⟩
    · rw [mem_singleton.mp hi]
      exact ⟨le_rfl, hf.length_pos⟩

theorem not_covers_repeat {log : List Interp} {i : Interp} (hi : i ∈ log)
    (m : Meaning) : ¬ Covers pre (log ++ [⟨i.offset, i.frame, m⟩]) := by
  intro h
  generalize hl : log ++ [⟨i.offset, i.frame, m⟩] = l at h
  cases h with
  | nil => simp at hl
  | snoc m' hcov hf =>
    obtain ⟨hlog, hlast⟩ := append_inj' hl rfl
    obtain ⟨hle, hpos⟩ := hcov.entry_le (hlog ▸ hi)
    injection (List.cons.inj hlast).1 with hoff
    omega

/-! ### The invariant -/

def TunnelRequest (frame : Bytes) : Prop := (classify frame).forTunnel = true

instance (frame : Bytes) : Decidable (TunnelRequest frame) :=
  inferInstanceAs (Decidable ((classify frame).forTunnel = true))

theorem TunnelRequest.of_classify {frame : Bytes} {r : Request} (hc : classify frame = r)
    (h : r.forTunnel = true) : TunnelRequest frame := by
  rwa [TunnelRequest, hc]

/-- The buffer holds the start of the frame that comes after `pre`. -/
structure Conn.Reading (s : Conn) (pre : Bytes) : Prop where
  waiting : s.rx.Waiting nodeFormat
  base : s.base = pre.length
  arrived : s.arrived = pre ++ (s.rx.buf ++ s.sock.flatten)
  noHandler : .handler ∉ s.stack

/-- The buffer holds the last frame of `pre`, which was handed over. -/
structure Conn.Holding (s : Conn) (pre : Bytes) : Prop where
  need : s.rx.need = s.rx.buf.length
  frame : nodeFormat.IsFrame s.rx.buf
  arrived : s.arrived = pre ++ s.sock.flatten
  base : s.base + s.rx.buf.length = pre.length
  logged : ∃ m, ⟨s.base, s.rx.buf, m⟩ ∈ s.log
  oneHandler : s.stack.count .handler ≤ 1
  reason : .handler ∈ s.stack ∨ TunnelRequest s.rx.buf

def Tracks (s : Conn) : Prop :=
  ∃ pre, Covers pre s.log ∧ pre <+: s.arrived ∧ (s.link = .up → s.Reading pre ∨ s.Holding pre)

theorem Tracks.exact (h : Tracks s) : Exact s := by
  obtain ⟨pre, hcov, hpre, -⟩ := h
  exact ⟨pre, hpre, hcov⟩

theorem tracks_initial : Tracks .initial :=
  ⟨[], .nil, nil_prefix, fun _ => .inl ⟨Rx.waiting_empty, rfl, rfl, by simp [Conn.initial]⟩⟩

theorem Conn.Holding.held (h : s.Holding pre) : s.Held := by
  have := h.frame.length_pos
  have := h.need
  constructor <;> omega

theorem Conn.Reading.not_held (h : s.Reading pre) : ¬ s.Held := by
  rintro ⟨hneed, hfull⟩
  rcases h.waiting with ⟨h0, -⟩ | ⟨n, -, -, -, hlt⟩
  · exact hneed h0
  · omega

/-- Steps that leave the reader alone: the stack may change as long as it keeps its
handler. -/
theorem Tracks.of_stack {s t : Conn} (h : Tracks s) (hlink : t.link = .up → s.link = .up)
    (hsock : t.sock = s.sock) (hrx : t.rx = s.rx) (hbase : t.base = s.base)
    (harr : t.arrived = s.arrived) (hlog : t.log = s.log)
    (hstack : t.stack.count .handler = s.stack.count .handler) : Tracks t := by
  have hmem : .handler ∈ t.stack ↔ .handler ∈ s.stack := by
    rw [← count_pos_iff, ← count_pos_iff, hstack]
  obtain ⟨pre, hcov, hpre, hup⟩ := h
  refine ⟨pre, hlog ▸ hcov, harr ▸ hpre, fun hl => (hup (hlink hl)).imp (fun hr => ?_) fun hh => ?_⟩
  · constructor
    · exact hrx ▸ hr.waiting
    · exact hbase.trans hr.base
    · rw [harr, hrx, hsock, hr.arrived]
    · exact fun hm => hr.noHandler (hmem.mp hm)
  constructor
  · rw [hrx, hh.need]
  · exact hrx ▸ hh.frame
  · rw [harr, hsock, hh.arrived]
  · rw [hbase, hrx, hh.base]
  · rw [hbase, hrx, hlog]
    exact hh.logged
  · exact hstack ▸ hh.oneHandler
  · rw [hmem, hrx]
    exact hh.reason

theorem Tracks.arrive (h : Tracks s) (chunk : Bytes) :
    Tracks (connStep s (.arrive chunk)) := by
  obtain ⟨pre, hcov, hpre, hup⟩ := h
  refine ⟨pre, hcov, hpre.trans (prefix_append _ _), fun hl => (hup hl).imp ?_ ?_⟩
  · intro hr
    exact ⟨hr.waiting, hr.base, by simp [connStep, hr.arrived], hr.noHandler⟩
  · intro hh
    exact ⟨hh.need, hh.frame, by simp [connStep, hh.arrived], hh.base, hh.logged, hh.oneHandler,
      hh.reason⟩

/-- The handler that returns is the one whose frame the buffer holds. -/
theorem Tracks.finish (h : Tracks s) (he : Enabled s .finish) :
    Tracks (connStep s .finish) := by
  obtain ⟨pre, hcov, hpre, hup⟩ := h
  obtain ⟨rest, hstack⟩ : ∃ rest, s.stack = .handler :: rest := by
    obtain ⟨_, hs⟩ := head?_eq_some_iff.mp he
    exact ⟨_, hs⟩
  refine ⟨pre, hcov, hpre, fun hl => .inl ?_⟩
  rcases hup hl with hr | hh
  · exact absurd (by simp [hstack]) hr.noHandler
  · refine ⟨Rx.waiting_empty, hh.base, ?_, ?_⟩
    · simpa [connStep, Conn.reset, Conn.pop, Rx.empty] using hh.arrived
    · have hcount := hh.oneHandler
      rw [hstack, count_cons_self] at hcount
      have hzero : rest.count .handler = 0 := by omega
      simpa [connStep, Conn.reset, Conn.pop, hstack] using count_eq_zero.mp hzero

/-- A complete frame is handed over: it is the one that follows `pre`. -/
theorem tracks_interpret (s : Conn) {pre : Bytes} (hcov : Covers pre s.log)
    (hneed : s.rx.need = s.rx.buf.length) (hf : nodeFormat.IsFrame s.rx.buf)
    (hbase : s.base = pre.length) (harr : s.arrived = pre ++ (s.rx.buf ++ s.sock.flatten))
    (hno : .handler ∉ s.stack) (started : Bool) : Tracks (s.interpret started) := by
  have hcov' : ∀ m, Covers (pre ++ s.rx.buf) (s.log ++ [⟨s.base, s.rx.buf, m⟩]) :=
    fun m => hbase ▸ hcov.snoc m hf
  have harr' : s.arrived = (pre ++ s.rx.buf) ++ s.sock.flatten := by rw [harr, append_assoc]
  have hpre' : pre ++ s.rx.buf <+: s.arrived := ⟨_, harr'.symm⟩
  have hbase' : s.base + s.rx.buf.length = (pre ++ s.rx.buf).length := by
    rw [hbase, length_append]
  have hcount : s.stack.count .handler = 0 := count_eq_zero.mpr hno
  -- the frame stays in the buffer, for a handler or a tunnel that did not start
  have hold : ∀ t : Conn, t.rx = s.rx → t.sock = s.sock → t.base = s.base →
      t.arrived = s.arrived → t.log = s.log ++ [⟨s.base, s.rx.buf, .request⟩] →
      t.stack.count .handler ≤ 1 → (.handler ∈ t.stack ∨ TunnelRequest s.rx.buf) → Tracks t := by
    intro t hrx hsock hb ha hlog hone hreason
    refine ⟨pre ++ s.rx.buf, hlog ▸ hcov' _, ha ▸ hpre', fun _ => .inr ?_⟩
    refine ⟨by rw [hrx, hneed], hrx ▸ hf, by rw [ha, hsock, harr'], by rw [hb, hrx, hbase'], ?_,
      hone, hrx ▸ hreason⟩
    exact ⟨.request, by simp [hb, hrx, hlog]⟩
  have done : ∀ m, ∀ t : Conn, t.rx = .empty → t.sock = s.sock →
      t.base = s.base + s.rx.buf.length → t.arrived = s.arrived →
      t.log = s.log ++ [⟨s.base, s.rx.buf, m⟩] → t.stack = s.stack → Tracks t := by
    intro m t hrx hsock hb ha hlog hstack
    refine ⟨pre ++ s.rx.buf, hlog ▸ hcov' m, ha ▸ hpre', fun _ => .inl ?_⟩
    exact ⟨hrx ▸ Rx.waiting_empty, hb.trans hbase', by simp [ha, hrx, hsock, harr', Rx.empty],
      hstack ▸ hno⟩
  have gone : ∀ t : Conn, t.link ≠ .up → t.arrived = s.arrived →
      t.log = s.log ++ [⟨s.base, s.rx.buf, .request⟩] → Tracks t :=
    fun t hl ha hlog => ⟨pre ++ s.rx.buf, hlog ▸ hcov' _, ha ▸ hpre', fun hup => absurd hup hl⟩
  have hle : s.stack.count .handler ≤ 1 := by omega
  rw [Conn.interpret]
  cases hp : s.pending with
  | cons w ws => exact done _ _ rfl rfl rfl rfl rfl rfl
  | nil =>
    cases hc : classify s.rx.buf with
    | undecodable => exact done .request _ rfl rfl rfl rfl rfl rfl
    | crash => exact gone _ (by simp) rfl rfl
    | refused => exact hold _ rfl rfl rfl rfl rfl hle (.inr (.of_classify hc rfl))
    | pipe port | shell rows cols =>
      cases started with
      | true => exact gone _ (by simp) rfl rfl
      | false => exact hold _ rfl rfl rfl rfl rfl hle (.inr (.of_classify hc rfl))
    | message msg =>
      refine hold _ rfl rfl rfl rfl rfl ?_ (.inl (by simp))
      simp [Conn.record, hcount]

/-- A callback on a buffer that holds no complete frame, by what the stream goes on with. -/
theorem onInboundData_cases (hw : s.rx.Waiting nodeFormat) (started : Bool) :
    (∃ rx sock, rx.Waiting nodeFormat ∧ rx.buf = s.rx.buf ++ s.sock.flatten ∧
      sock.flatten = [] ∧ onInboundData s started =
        if s.eof then ({ s with rx, sock } : Conn).close else { s with rx, sock }) ∨
    (nodeFormat.head (s.rx.buf ++ s.sock.flatten) = .invalid ∧ onInboundData s started = s.close) ∨
    ∃ f sock, nodeFormat.IsFrame f ∧ s.rx.buf ++ s.sock.flatten = f ++ sock.flatten ∧
      onInboundData s started =
        ({ s with rx := ⟨f, f.length⟩, sock } : Conn).interpret started := by
  have hspec := pass_spec hw s.sock
  rw [PassSpec] at hspec
  cases hh : nodeFormat.head (s.rx.buf ++ s.sock.flatten) with
  | incomplete =>
    rw [hh] at hspec
    obtain ⟨rx, sock, hpass, hw', hbuf, hsock⟩ := hspec
    exact .inl ⟨rx, sock, hw', hbuf, hsock, by rw [onInboundData, hpass]⟩
  | invalid =>
    rw [hh] at hspec
    exact .inr (.inl ⟨rfl, by simp only [onInboundData, hspec]⟩)
  | frame f rest =>
    rw [hh] at hspec
    obtain ⟨sock, hpass, hsock⟩ := hspec
    obtain ⟨hf, hwhole⟩ := nodeFormat.head_eq_frame_iff.mp hh
    exact .inr (.inr ⟨f, sock, hf, hsock ▸ hwhole, by rw [onInboundData, hpass]⟩)

/-- A callback on a buffer that holds a complete frame hands it over again. -/
theorem onInboundData_held (hhdr : 4 ≤ s.rx.buf.length) (h : s.Held) (started : Bool) :
    onInboundData s started = s.interpret started := by
  rw [onInboundData, pass_complete hhdr h.1 h.2]

theorem Tracks.ready (h : Tracks s) (hup : s.link = .up) (hheld : ¬ s.Held)
    (started : Bool) : Tracks (onInboundData s started) := by
  obtain ⟨pre, hcov, hpre, hcase⟩ := h
  have hr : s.Reading pre := (hcase hup).resolve_right fun hh => hheld hh.held
  rcases onInboundData_cases hr.waiting started with
    ⟨rx, sock, hw, hbuf, hsock, heq⟩ | ⟨-, heq⟩ | ⟨f, sock, hf, hwhole, heq⟩
  · rw [heq]
    refine ⟨pre, ?_, ?_, ?_⟩
    · split <;> exact hcov
    · split <;> exact hpre
    · split
      · exact fun hl => by cases hl
      · exact fun _ => .inl ⟨hw, hr.base, by simp [hr.arrived, hbuf, hsock], hr.noHandler⟩
  · rw [heq]
    exact ⟨pre, hcov, hpre, fun hl => by cases hl⟩
  · rw [heq]
    refine tracks_interpret { s with rx := ⟨f, f.length⟩, sock } hcov rfl hf hr.base ?_
      hr.noHandler started
    simp only [hr.arrived, hwhole]

theorem Conn.head_of_waiter (s : Conn) {w : Nat} (h : s.waiter = some w) :
    s.stack.head? = some (.wait w) := by
  rw [Conn.waiter] at h
  split at h
  · rename_i hs
    cases h
    simp [hs]
  · cases h

/-- No callback comes while the buffer holds a frame that was handed over. -/
def NotHeld (s : Conn) : ConnEvent → Prop
  | .ready _ => ¬ s.Held
  | _ => True

instance (s : Conn) (e : ConnEvent) : Decidable (NotHeld s e) := by
  cases e <;> dsimp only [NotHeld] <;> infer_instance

theorem Tracks.step (e : ConnEvent) (h : Tracks s) (he : Enabled s e)
    (hn : NotHeld s e) : Tracks (connStep s e) := by
  have hpop : ∀ a, s.stack.head? = some a → a ≠ .handler →
      s.stack.tail.count .handler = s.stack.count .handler := by
    intro a ha hne
    obtain ⟨rest, hs⟩ := head?_eq_some_iff.mp ha
    simp [hs, hne]
  cases e with
  | arrive chunk => exact h.arrive chunk
  | hangup | writeFail | timeout => exact h.of_stack id rfl rfl rfl rfl rfl rfl
  | ready started => exact h.ready he.1 hn started
  | error => exact h.of_stack (fun hl => by cases hl) rfl rfl rfl rfl rfl rfl
  | enter | call | callElse =>
    exact h.of_stack id rfl rfl rfl rfl rfl (by simp [connStep, Conn.push])
  | leave | wakeElse => exact h.of_stack id rfl rfl rfl rfl rfl (hpop _ he (by simp))
  | wake =>
    cases hw : s.waiter with
    | none => simp [Enabled, hw] at he
    | some w => exact h.of_stack id rfl rfl rfl rfl rfl (hpop _ (s.head_of_waiter hw) (by simp))
  | finish => exact h.finish he

/-! ### Whole runs -/

/-- What a callback that finds a frame in the buffer does to the log. -/
theorem log_interpret (s : Conn) (started : Bool) :
    ∃ m, (s.interpret started).log = s.log ++ [⟨s.base, s.rx.buf, m⟩] := by
  rw [Conn.interpret]
  split
  · exact ⟨_, rfl⟩
  refine ⟨.request, ?_⟩
  split
  · rfl
  · rfl
  · rfl
  · split <;> rfl
  · split <;> rfl
  · rfl

/-- The frames acted on are always the first frames of the stream, each once and in order, if and
only if no callback comes while a frame that was handed over is still in the buffer. -/
theorem conn_exact_iff (es : List ConnEvent) (hrun : Along connStep Enabled .initial es) :
    (∀ es', es' <+: es → Exact (run connStep .initial es')) ↔
      Along connStep NotHeld .initial es := by
  apply along_iff_forall (fun s (hs : Tracks s) => hs.exact) (fun _ e hs => hs.step e) _
    tracks_initial hrun
  -- the first callback that finds a frame in the buffer would act on it again
  intro s e htracks henabled hexact
  cases e with
  | ready started =>
    intro hheld
    obtain ⟨pre, -, -, hcase⟩ := htracks
    have hh := (hcase henabled.1).resolve_left fun hr => hr.not_held hheld
    obtain ⟨m, hm⟩ := hh.logged
    obtain ⟨pre', -, hcov⟩ := hexact
    rw [connStep, onInboundData_held hh.frame.1 hheld] at hcov
    obtain ⟨m', hlog⟩ := log_interpret s started
    exact not_covers_repeat hm m' (hlog ▸ hcov)
  | _ => trivial

def plainFrame : Bytes :=
  writeU32 20 ++ writeU64 1 ++ writeU8 0 ++ writeStr (CStr.lit "/a").bytes 2 ++ writeU16 0 ++
    writeU32 0 ++ writeU8 0

/-- Two frames, the second of which arrives while the first is being handled. -/
def orderlyRun : List ConnEvent :=
  [.arrive plainFrame, .ready false, .arrive plainFrame, .finish, .ready false, .finish]

theorem conn_exact_orderlyRun :
    (run connStep .initial orderlyRun).log.map Interp.offset = [0, 24] ∧
      ∀ es', es' <+: orderlyRun → Exact (run connStep .initial es') :=
  ⟨by decide +kernel, (conn_exact_iff orderlyRun (by decide +kernel)).mpr (by decide +kernel)⟩

/-- A request for `/tunnel/pipe` that names no port. -/
def refusedFrame : Bytes :=
  writeU32 30 ++ writeU64 1 ++ writeU8 0 ++ writeStr tunnelPipe.bytes 12 ++ writeU16 0 ++
    writeU32 0 ++ writeU8 0

def waitingRun : List ConnEvent :=
  [.arrive plainFrame, .ready false, .callElse, .arrive [0], .ready false]

def refusedRun : List ConnEvent :=
  [.arrive refusedFrame, .ready false, .arrive [0], .ready false]

/-- Both runs can happen, and in both the frame at offset 0 is taken for a request twice. -/
theorem conn_exact_false :
    Along connStep Enabled .initial waitingRun ∧ ¬ Exact (run connStep .initial waitingRun) ∧
      Along connStep Enabled .initial refusedRun ∧ ¬ Exact (run connStep .initial refusedRun) := by
  have hlog : (run connStep .initial waitingRun).log =
      [⟨0, plainFrame, .request⟩] ++ [⟨0, plainFrame, .request⟩] := by decide +kernel
  have hlog' : (run connStep .initial refusedRun).log =
      [⟨0, refusedFrame, .request⟩] ++ [⟨0, refusedFrame, .request⟩] := by decide +kernel
  refine ⟨by decide +kernel, ?_, by decide +kernel, ?_⟩
  · rintro ⟨pre, -, hcov⟩
    rw [hlog] at hcov
    exact not_covers_repeat (mem_singleton_self _) .request hcov
  · rintro ⟨pre, -, hcov⟩
    rw [hlog'] at hcov
    exact not_covers_repeat (mem_singleton_self _) .request hcov

end Portal
