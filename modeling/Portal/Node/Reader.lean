import Portal.Node.Conn

/-!
The frame reader of `on_inbound_data` on its own: no local requests, handlers that return at once,
and a stream that arrives in pieces.
-/

namespace Portal

open List Framing Runs

/-! ### Statement -/

/-- Bytes arrive, callbacks come, handlers return; no tunnel starts. -/
def Quiet : ConnEvent → Prop
  | .arrive _ => True
  | .ready started => started = false
  | .finish => True
  | _ => False

def QuietStep (s : Conn) (e : ConnEvent) : Prop := Enabled s e ∧ Quiet e

/-- Nothing is left to do before more bytes arrive. -/
def Conn.Settled (s : Conn) : Prop := s.stack = [] ∧ (s.link ≠ .up ∨ s.sock.flatten = [])

/-- The frames handed over are the first ones of the stream, each once and as a request; the
connection is closed only at a length out of range; and once settled it has come to that length, or
to a frame that is not complete. -/
def ReadsExactly (s : Conn) : Prop :=
  ∃ pre rest, s.arrived = pre ++ rest ∧ Covers pre s.log ∧
    (∀ i ∈ s.log, i.meaning = .request) ∧
    (s.link = .closed → nodeFormat.head rest = .invalid) ∧
    (s.Settled → nodeFormat.head rest = .incomplete ∧ s.link = .up ∨
      nodeFormat.head rest = .invalid ∧ s.link = .closed)

/-- `f` is one of the leading frames of `stream`, and `rest` comes after it. -/
def StreamFrame (stream f rest : Bytes) : Prop :=
  ∃ fs : List Bytes, (∀ g ∈ fs, nodeFormat.IsFrame g) ∧ nodeFormat.IsFrame f ∧
    stream = fs.flatten ++ (f ++ rest)

/-- Nothing follows a frame that asks for a tunnel. -/
def TunnelsLast (stream : Bytes) : Prop :=
  ∀ f rest, StreamFrame stream f rest → TunnelRequest f → rest = []

/-- No frame of the stream makes its handler crash. -/
def HandlersReturn (stream : Bytes) : Prop :=
  ∀ f rest, StreamFrame stream f rest → classify f ≠ .crash

/-! ### Quiet runs -/

theorem StreamFrame.append {s t f rest : Bytes} (h : StreamFrame s f rest) :
    StreamFrame (s ++ t) f (rest ++ t) := by
  obtain ⟨fs, hfs, hf, rfl⟩ := h
  exact ⟨fs, hfs, hf, by simp⟩

theorem Covers.frames {pre : Bytes} {log : List Interp} (h : Covers pre log) :
    (∀ g ∈ log.map Interp.frame, nodeFormat.IsFrame g) ∧ pre = (log.map Interp.frame).flatten := by
  induction h with
  | nil => simp
  | snoc m _ hf ih =>
    obtain ⟨hall, hpre⟩ := ih
    refine ⟨fun g hg => ?_, by simp [hpre]⟩
    rw [map_append, mem_append] at hg
    rcases hg with hg | hg
    · exact hall g hg
    · rw [map_singleton, mem_singleton] at hg
      exact hg ▸ hf

theorem Covers.streamFrame {pre f rest : Bytes} {log : List Interp} (h : Covers pre log)
    (hf : nodeFormat.IsFrame f) : StreamFrame (pre ++ (f ++ rest)) f rest :=
  ⟨log.map Interp.frame, h.frames.1, hf, by rw [← h.frames.2]⟩

theorem Covers.entry_streamFrame {pre : Bytes} {log : List Interp} (h : Covers pre log)
    {i : Interp} (hi : i ∈ log) :
    ∃ rest, StreamFrame pre i.frame rest ∧
      i.offset + i.frame.length + rest.length = pre.length := by
  induction h with
  | nil => cases hi
  | @snoc pre f log m hcov hf ih =>
    rcases mem_append.mp hi with hi | hi
    · obtain ⟨rest, hframe, hlen⟩ := ih hi
      refine ⟨rest ++ f, hframe.append, ?_⟩
      simp only [length_append]
      omega
    · rw [mem_singleton.mp hi]
      have hframe := @Covers.streamFrame pre f [] log hcov hf
      exact ⟨[], by simpa using hframe, by simp⟩

/-- What a quiet run keeps besides `Tracks`. -/
structure Served (s : Conn) : Prop where
  pending : s.pending = []
  eof : s.eof = false
  requests : ∀ i ∈ s.log, i.meaning = .request
  stack : s.stack = [] ∨ s.stack = [.handler]
  link : s.link = .up ∨ s.link = .closed ∧ ∃ pre rest, s.arrived = pre ++ rest ∧
    Covers pre s.log ∧ nodeFormat.head rest = .invalid

theorem served_initial : Served .initial :=
  ⟨rfl, rfl, by simp [Conn.initial], .inl rfl, .inl rfl⟩

variable {s : Conn}

theorem readsExactly_of_served (ht : Tracks s) (hs : Served s) : ReadsExactly s := by
  rcases hs.link with hup | ⟨hclosed, pre, rest, harr, hcov, hinv⟩
  · have hnot : s.link ≠ .closed := by simp [hup]
    obtain ⟨pre, hcov, -, hcase⟩ := ht
    rcases hcase hup with hr | hh
    · refine ⟨pre, _, hr.arrived, hcov, hs.requests, fun h => absurd h hnot,
        fun hset => .inl ⟨?_, hup⟩⟩
      rw [hset.2.resolve_left (not_not_intro hup), append_nil]
      exact hr.waiting.head_incomplete
    · refine ⟨pre, _, hh.arrived, hcov, hs.requests, fun h => absurd h hnot,
        fun hset => .inl ⟨?_, hup⟩⟩
      rw [hset.2.resolve_left (not_not_intro hup)]
      exact nodeFormat.head_nil
  · exact ⟨pre, rest, harr, hcov, hs.requests, fun _ => hinv, fun _ => .inr ⟨hinv, hclosed⟩⟩

theorem Served.arrive (hs : Served s) (chunk : Bytes) :
    Served (connStep s (.arrive chunk)) := by
  refine ⟨hs.pending, hs.eof, hs.requests, hs.stack, hs.link.imp_right ?_⟩
  rintro ⟨hclosed, pre, rest, harr, hcov, hinv⟩
  exact ⟨hclosed, pre, rest ++ chunk, by simp [connStep, harr], hcov,
    nodeFormat.head_invalid_append hinv chunk⟩

theorem Served.finish (hs : Served s) (he : Enabled s .finish) :
    Served (connStep s .finish) := by
  refine ⟨hs.pending, hs.eof, hs.requests, .inl ?_, hs.link⟩
  rcases hs.stack with h | h
  · rw [Enabled, h] at he
    cases he
  · simp [connStep, Conn.pop, Conn.reset, h]

theorem served_interpret (hs : Served s) (hup : s.link = .up) (hstack : s.stack = [])
    (hret : classify s.rx.buf ≠ .crash) : Served (s.interpret false) := by
  have hreq : ∀ i ∈ s.log ++ [⟨s.base, s.rx.buf, .request⟩], i.meaning = .request := by
    intro i hi
    rcases mem_append.mp hi with hi | hi
    · exact hs.requests i hi
    · rw [mem_singleton.mp hi]
  have same : ∀ t : Conn, t.pending = s.pending → t.eof = s.eof → t.link = s.link →
      t.log = s.log ++ [⟨s.base, s.rx.buf, .request⟩] → (t.stack = [] ∨ t.stack = [.handler]) →
      Served t := by
    intro t hp he hl hlog hst
    exact ⟨hp.trans hs.pending, he.trans hs.eof, hlog ▸ hreq, hst, .inl (hl.trans hup)⟩
  rw [Conn.interpret, hs.pending]
  cases hc : classify s.rx.buf with
  | undecodable | refused | pipe port | shell rows cols =>
    exact same _ rfl rfl rfl rfl (.inl hstack)
  | crash => exact absurd hc hret
  | message msg =>
    refine same _ rfl rfl rfl rfl (.inr ?_)
    simp [Conn.record, hstack]

theorem Served.ready (hs : Served s) (ht : Tracks s) (hup : s.link = .up)
    (hloop : loopRuns s.stack = true) (hheld : ¬ s.Held) (hret : HandlersReturn s.arrived) :
    Served (onInboundData s false) := by
  have hstack : s.stack = [] := by
    rcases hs.stack with h | h
    · exact h
    · rw [h] at hloop
      cases hloop
  obtain ⟨pre, hcov, -, hcase⟩ := ht
  have hr : s.Reading pre := (hcase hup).resolve_right fun hh => hheld hh.held
  rcases onInboundData_cases hr.waiting false with
    ⟨rx, sock, -, -, -, heq⟩ | ⟨hh, heq⟩ | ⟨f, sock, hf, hwhole, heq⟩
  · rw [heq, if_neg (by simp [hs.eof])]
    exact ⟨hs.pending, hs.eof, hs.requests, hs.stack, .inl hup⟩
  · rw [heq]
    exact ⟨rfl, hs.eof, hs.requests, hs.stack, .inr ⟨rfl, pre, _, hr.arrived, hcov, hh⟩⟩
  · have hframe : StreamFrame s.arrived f sock.flatten := by
      rw [hr.arrived, hwhole]
      exact hcov.streamFrame hf
    have hs' : Served { s with rx := ⟨f, f.length⟩, sock } :=
      ⟨hs.pending, hs.eof, hs.requests, hs.stack, hs.link⟩
    rw [heq]
    exact served_interpret hs' hup hstack (hret f _ hframe)

/-- While the stream goes on, the buffer never holds a frame when a callback comes. -/
theorem not_held_of_tunnelsLast (ht : Tracks s) (hs : Served s)
    (he : Enabled s (.ready false)) (hlast : TunnelsLast s.arrived) : ¬ s.Held := by
  intro hheld
  obtain ⟨hup, hloop, hread⟩ := he
  obtain ⟨pre, hcov, -, hcase⟩ := ht
  have hh : s.Holding pre := (hcase hup).resolve_left fun hr => hr.not_held hheld
  have hmore : s.sock.flatten ≠ [] := hread.resolve_right (by simp [hs.eof])
  have htunnel : TunnelRequest s.rx.buf := by
    refine hh.reason.resolve_left fun hmem => ?_
    rcases hs.stack with h | h
    · simp [h] at hmem
    · rw [h] at hloop
      cases hloop
  obtain ⟨m, hm⟩ := hh.logged
  obtain ⟨rest, hframe, hlen⟩ := hcov.entry_streamFrame hm
  have hrest : rest = [] := by
    have := hh.base
    exact eq_nil_of_length_eq_zero (by simp only at hlen; omega)
  have hall := hframe.append (t := s.sock.flatten)
  rw [hrest, nil_append, ← hh.arrived] at hall
  exact hmore (hlast _ _ hall htunnel)

/-! ### Whole streams -/

theorem arrived_interpret (s : Conn) (started : Bool) :
    (s.interpret started).arrived = s.arrived := by
  rw [Conn.interpret]
  split
  · rfl
  split
  · rfl
  · rfl
  · rfl
  · split <;> rfl
  · split <;> rfl
  · rfl

theorem arrived_ready (s : Conn) (started : Bool) :
    (onInboundData s started).arrived = s.arrived := by
  rw [onInboundData]
  split
  · split <;> rfl
  · rfl
  · rw [arrived_interpret]

theorem arrived_mono (s : Conn) (e : ConnEvent) : s.arrived <+: (connStep s e).arrived := by
  cases e with
  | arrive chunk => exact prefix_append _ _
  | ready started => rw [connStep, arrived_ready]
  | _ => exact prefix_rfl

theorem HandlersReturn.of_prefix {s t : Bytes} (h : HandlersReturn t) (hst : s <+: t) :
    HandlersReturn s := by
  obtain ⟨u, rfl⟩ := hst
  exact fun f rest hf => h f _ hf.append

theorem TunnelsLast.of_prefix {s t : Bytes} (h : TunnelsLast t) (hst : s <+: t) :
    TunnelsLast s := by
  obtain ⟨u, rfl⟩ := hst
  exact fun f rest hf htun => (append_eq_nil_iff.mp (h f _ hf.append htun)).1

/-- A quiet step within a stream in which nothing follows a tunnel request. -/
theorem served_step {stream : Bytes} (hret : HandlersReturn stream) (hlast : TunnelsLast stream)
    {s : Conn} (ht : Tracks s) (hs : Served s) {e : ConnEvent} (hstep : QuietStep s e)
    (harr : (connStep s e).arrived <+: stream) :
    Tracks (connStep s e) ∧ Served (connStep s e) := by
  have hpre := (arrived_mono s e).trans harr
  obtain ⟨he, hq⟩ := hstep
  cases e with
  | arrive chunk => exact ⟨ht.arrive chunk, hs.arrive chunk⟩
  | ready started =>
    subst hq
    have hheld := not_held_of_tunnelsLast ht hs he (hlast.of_prefix hpre)
    exact ⟨ht.ready he.1 hheld false, hs.ready ht he.1 he.2.1 hheld (hret.of_prefix hpre)⟩
  | finish => exact ⟨ht.finish he, hs.finish he⟩
  | _ => cases hq

theorem served_run {stream : Bytes} (hret : HandlersReturn stream) (hlast : TunnelsLast stream)
    (es : List ConnEvent) (hrun : Along connStep QuietStep .initial es)
    (harr : (run connStep .initial es).arrived <+: stream) :
    Tracks (run connStep .initial es) ∧ Served (run connStep .initial es) := by
  induction es using reverseRecOn with
  | nil => exact ⟨tracks_initial, served_initial⟩
  | append_singleton es e ih =>
    obtain ⟨hrun', hstep, -⟩ := (along_append _ _ _).mp hrun
    rw [run_append, run_cons, run_nil] at harr ⊢
    obtain ⟨ht, hs⟩ := ih hrun' ((arrived_mono _ e).trans harr)
    exact served_step hret hlast ht hs hstep harr

/-! ### What follows a tunnel request is not read -/

/-- The reader is between two frames, and nothing else goes on. -/
structure Conn.Between (s : Conn) : Prop where
  link : s.link = .up
  stack : s.stack = []
  pending : s.pending = []
  rx : s.rx = .empty

variable {f rest : Bytes}

theorem Conn.Between.ready (h : s.Between)
    (hf : nodeFormat.IsFrame f) (hsock : s.sock.flatten = f ++ rest) :
    Enabled s (.ready false) ∧ ∃ sock, sock.flatten = rest ∧ connStep s (.ready false) =
      ({ s with rx := ⟨f, f.length⟩, sock } : Conn).interpret false := by
  have hne : s.sock.flatten ≠ [] := by
    rw [hsock]
    exact fun h => by simpa [(append_eq_nil_iff.mp h).1] using hf.length_pos
  have hspec := pass_spec (h.rx ▸ Rx.waiting_empty : s.rx.Waiting nodeFormat) s.sock
  have hhead : nodeFormat.head (s.rx.buf ++ s.sock.flatten) = .frame f rest := by
    rw [h.rx, hsock]
    exact nodeFormat.head_append hf rest
  rw [PassSpec, hhead] at hspec
  obtain ⟨sock, hpass, hflat⟩ := hspec
  exact ⟨⟨h.link, by simp [h.stack, loopRuns], .inl hne⟩, sock, hflat,
    by rw [connStep, onInboundData, hpass]⟩

theorem Conn.Between.tunnel_twice (h : s.Between)
    (hf : nodeFormat.IsFrame f) (hsock : s.sock.flatten = f ++ rest) (htun : TunnelRequest f)
    (hrest : rest ≠ []) :
    Along connStep QuietStep s [.ready false, .ready false] ∧
      (run connStep s [.ready false, .ready false]).arrived = s.arrived ∧
      ¬ Exact (run connStep s [.ready false, .ready false]) := by
  obtain ⟨hen, sock, hflat, hstep⟩ := h.ready hf hsock
  have hint : ∀ t : Conn, t.pending = [] → t.rx.buf = f →
      t.interpret false = t.record .request := by
    intro t hp hb
    rw [Conn.interpret, hp, hb]
    cases hc : classify f <;> simp_all [TunnelRequest, Request.forTunnel]
  set t := ({ s with rx := ⟨f, f.length⟩, sock } : Conn).record .request with ht
  have hone : connStep s (.ready false) = t :=
    hstep.trans (hint { s with rx := ⟨f, f.length⟩, sock } h.pending rfl)
  have htwo : connStep t (.ready false) = t.record .request := by
    have hheld : t.Held := ⟨Nat.ne_of_gt hf.length_pos, le_rfl⟩
    rw [connStep, onInboundData_held (s := t) hf.1 hheld, hint t h.pending rfl]
  have hrun : run connStep s [.ready false, .ready false] = t.record .request := by
    rw [run_cons, run_cons, run_nil, hone, htwo]
  have hen' : Enabled t (.ready false) :=
    ⟨h.link, by simp [ht, Conn.record, h.stack, loopRuns], .inl (by simpa [ht, Conn.record, hflat])⟩
  refine ⟨⟨⟨hen, rfl⟩, ⟨hone ▸ hen', rfl⟩, along_nil _⟩, by rw [hrun]; rfl, ?_⟩
  rw [hrun]
  rintro ⟨pre, -, hcov⟩
  have hmem : (⟨s.base, f, .request⟩ : Interp) ∈ t.log := by simp [ht, Conn.record]
  exact not_covers_repeat hmem .request hcov

/-- Other frames are handed over and the reader is between frames again. -/
theorem Conn.Between.next (h : s.Between)
    (hf : nodeFormat.IsFrame f) (hsock : s.sock.flatten = f ++ rest) (hret : classify f ≠ .crash)
    (htun : ¬ TunnelRequest f) :
    ∃ es, Along connStep QuietStep s es ∧ (run connStep s es).Between ∧
      (run connStep s es).sock.flatten = rest ∧ (run connStep s es).arrived = s.arrived := by
  obtain ⟨hen, sock, hflat, hstep⟩ := h.ready hf hsock
  cases hc : classify f with
  | undecodable =>
    have hint : connStep s (.ready false) =
        (({ s with rx := ⟨f, f.length⟩, sock } : Conn).record .request).reset := by
      rw [hstep, Conn.interpret]
      simp only [h.pending, hc]
    refine ⟨[.ready false], ⟨⟨hen, rfl⟩, along_nil _⟩, ?_⟩
    rw [run_cons, run_nil, hint]
    exact ⟨⟨h.link, h.stack, h.pending, rfl⟩, hflat, rfl⟩
  | message msg =>
    have hint : connStep s (.ready false) =
        (({ s with rx := ⟨f, f.length⟩, sock } : Conn).record .request).push .handler := by
      rw [hstep, Conn.interpret]
      simp only [h.pending, hc]
      rfl
    refine ⟨[.ready false, .finish], ⟨⟨hen, rfl⟩, ⟨?_, trivial⟩, along_nil _⟩, ?_⟩
    · rw [hint]
      rfl
    · rw [run_cons, run_cons, run_nil, hint]
      exact ⟨⟨h.link, h.stack, h.pending, rfl⟩, hflat, rfl⟩
  | crash => exact absurd hc hret
  | refused | pipe port | shell rows cols => exact absurd (.of_classify hc rfl) htun

/-- Along the frames of a stream, up to the first tunnel request that something follows. -/
theorem Conn.Between.not_exact (h : s.Between) (fs : List Bytes)
    (hfs : ∀ g ∈ fs, nodeFormat.IsFrame g ∧ classify g ≠ .crash) (hf : nodeFormat.IsFrame f)
    (hsock : s.sock.flatten = fs.flatten ++ (f ++ rest)) (htun : TunnelRequest f)
    (hrest : rest ≠ []) :
    ∃ es, Along connStep QuietStep s es ∧ (run connStep s es).arrived = s.arrived ∧
      ¬ Exact (run connStep s es) := by
  induction fs generalizing s with
  | nil => exact ⟨_, h.tunnel_twice hf hsock htun hrest⟩
  | cons g fs ih =>
    obtain ⟨⟨hg, hret⟩, hfs⟩ := forall_mem_cons.mp hfs
    rw [flatten_cons, append_assoc] at hsock
    by_cases hgt : TunnelRequest g
    · exact ⟨_, h.tunnel_twice hg hsock hgt (by simp [hrest])⟩
    · obtain ⟨es, hes, hbetween, hflat, harr⟩ := h.next hg hsock hret hgt
      obtain ⟨es', hes', harr', hnot⟩ := ih hbetween hfs hflat
      refine ⟨es ++ es', (along_append _ _ _).mpr ⟨hes, hes'⟩, ?_, ?_⟩
      · rw [run_append, harr', harr]
      · rwa [run_append]

/-- For every stream whose handlers return, however it is cut into reads: every complete frame is
handed over exactly once, in order and with its bytes, and the connection is closed at the first
length that is out of range, if and only if nothing follows a request for a tunnel that is not
opened. -/
theorem reader_exact_iff (stream : Bytes) (hret : HandlersReturn stream) :
    (∀ es, Along connStep QuietStep .initial es → (run connStep .initial es).arrived = stream →
      ReadsExactly (run connStep .initial es)) ↔ TunnelsLast stream := by
  constructor
  · rintro hexact f rest ⟨fs, hfs, hf, rfl⟩ htun
    by_contra hrest
    set stream := fs.flatten ++ (f ++ rest)
    have hne : stream ≠ [] := by simp [stream, hrest]
    have hbetween : (connStep .initial (.arrive stream)).Between := ⟨rfl, rfl, rfl, rfl⟩
    have hclass : ∀ g ∈ fs, nodeFormat.IsFrame g ∧ classify g ≠ .crash := by
      intro g hg
      obtain ⟨before, after, rfl⟩ := append_of_mem hg
      refine ⟨hfs g hg, hret g (after.flatten ++ (f ++ rest)) ⟨before, ?_, hfs g hg, ?_⟩⟩
      · exact fun g' hg' => hfs g' (mem_append_left _ hg')
      · simp [stream]
    obtain ⟨es, hes, harr, hnot⟩ :=
      hbetween.not_exact fs hclass hf (by simp [connStep, Conn.initial, stream]) htun hrest
    obtain ⟨pre, rest', harr', hcov, -⟩ := hexact (.arrive stream :: es)
      ⟨⟨⟨hne, rfl⟩, trivial⟩, hes⟩ harr
    exact hnot ⟨pre, ⟨rest', harr'.symm⟩, hcov⟩
  · intro hlast es hrun harr
    obtain ⟨ht, hs⟩ := served_run hret hlast es hrun (harr ▸ prefix_rfl)
    exact readsExactly_of_served ht hs

theorem streamFrame_iff (stream f rest : Bytes) :
    StreamFrame stream f rest ↔ ∃ g more, nodeFormat.head stream = .frame g more ∧
      (f = g ∧ rest = more ∨ StreamFrame more f rest) := by
  constructor
  · rintro ⟨fs, hfs, hf, rfl⟩
    cases fs with
    | nil => exact ⟨f, rest, nodeFormat.head_append hf rest, .inl ⟨rfl, rfl⟩⟩
    | cons g fs =>
      obtain ⟨hg, hfs⟩ := forall_mem_cons.mp hfs
      refine ⟨g, fs.flatten ++ (f ++ rest), ?_, .inr ⟨fs, hfs, hf, rfl⟩⟩
      rw [flatten_cons, append_assoc]
      exact nodeFormat.head_append hg _
  rintro ⟨g, more, hhead, hcase⟩
  obtain ⟨hg, rfl⟩ := nodeFormat.head_eq_frame_iff.mp hhead
  rcases hcase with ⟨rfl, rfl⟩ | ⟨fs, hfs, hf, rfl⟩
  · exact ⟨[], by simp, hg, by simp⟩
  · exact ⟨g :: fs, forall_mem_cons.mpr ⟨hg, hfs⟩, hf, by simp⟩

theorem streamFrame_single {g tail f rest : Bytes} (hg : nodeFormat.IsFrame g)
    (ht : nodeFormat.head tail = .incomplete) (h : StreamFrame (g ++ tail) f rest) :
    f = g ∧ rest = tail := by
  obtain ⟨g', more, hhead, hcase⟩ := (streamFrame_iff _ _ _).mp h
  rw [nodeFormat.head_append hg] at hhead
  cases hhead
  refine hcase.resolve_right fun h => ?_
  obtain ⟨g', more, hhead, -⟩ := (streamFrame_iff _ _ _).mp h
  rw [ht] at hhead
  cases hhead

theorem isFrame_plainFrame : nodeFormat.IsFrame plainFrame :=
  ⟨by decide +kernel, by decide +kernel⟩

theorem isFrame_refusedFrame : nodeFormat.IsFrame refusedFrame :=
  ⟨by decide +kernel, by decide +kernel⟩

theorem reader_exact_plainFrame :
    HandlersReturn (plainFrame ++ [0, 0]) ∧
      ∀ es, Along connStep QuietStep .initial es →
        (run connStep .initial es).arrived = plainFrame ++ [0, 0] →
          ReadsExactly (run connStep .initial es) := by
  have hret : HandlersReturn (plainFrame ++ [0, 0]) := by
    intro f rest h
    rw [(streamFrame_single isFrame_plainFrame rfl h).1]
    decide +kernel
  refine ⟨hret, (reader_exact_iff _ hret).mpr fun f rest h htun => ?_⟩
  rw [(streamFrame_single isFrame_plainFrame rfl h).1] at htun
  exact absurd htun (by decide +kernel)

/-- A refused pipe and one byte more: the frame is handed over once for every callback. -/
theorem reader_exact_false :
    let stream := refusedFrame ++ [0]
    let es := [.arrive stream, .ready false, .ready false]
    HandlersReturn stream ∧ Along connStep QuietStep .initial es ∧
      (run connStep .initial es).arrived = stream ∧ ¬ ReadsExactly (run connStep .initial es) := by
  intro stream es
  have hlog : (run connStep .initial es).log =
      [⟨0, refusedFrame, .request⟩] ++ [⟨0, refusedFrame, .request⟩] := by decide +kernel
  refine ⟨fun f rest h => ?_, ⟨⟨by decide +kernel, trivial⟩, ⟨by decide +kernel, rfl⟩,
    ⟨by decide +kernel, rfl⟩, along_nil _⟩, by decide +kernel, ?_⟩
  · rw [(streamFrame_single isFrame_refusedFrame rfl h).1]
    decide +kernel
  · rintro ⟨pre, rest, -, hcov, -⟩
    rw [hlog] at hcov
    exact not_covers_repeat (mem_singleton_self _) .request hcov

end Portal
