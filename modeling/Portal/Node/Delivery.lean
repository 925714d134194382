import Portal.Core.Frames
import Portal.Node.Outgoing
import Portal.Node.Reader

/-!
Messages from one node to the next: `portal_wire_encode_msg`, the queue of the sending
connection, the socket, the reader of the receiving connection and `portal_wire_decode_msg`.
The socket takes and gives the bytes in pieces of its own.
-/

namespace Portal

open CStr (ofBytes)
open List Framing Runs Cursor

def wireFrame (msg : PortalMsg) : Bytes := ((portalWireEncodeMsg msg).map Encoded.written).getD []

/-- The format can carry the message, its frame fits the buffer of the reader, and it does not
ask for a tunnel. -/
structure Carried (msg : PortalMsg) : Prop where
  wire : WireMsg msg
  fits : (wireFrame msg).length ≤ 2 ^ 20
  pipe : msg.path.map ofBytes ≠ some tunnelPipe
  shell : msg.path.map ofBytes ≠ some tunnelShell

theorem Carried.received {msg : PortalMsg} (h : Carried msg) :
    nodeFormat.IsFrame (wireFrame msg) ∧ classify (wireFrame msg) = .message msg.onWire := by
  obtain ⟨e, he, -, hfill⟩ := encodeMsg_lengths h.wire.headers.set
  obtain ⟨f, hwritten, hfits, hsize, hmsg⟩ := encodeMsg_frame h.wire he
  have hlen := hfill.mpr (.of_wire h.wire.headers h.wire.body)
  have hbound := h.fits
  have hframe : wireFrame msg = e.written := by rw [wireFrame, he]; rfl
  rw [hframe] at hbound ⊢
  have hmin : 4 < e.written.length := by
    rw [hwritten, MsgFrame.bytes]
    simp only [length_append, length_writeU32, length_writeU64]
    omega
  have hword : beDecode (e.written.take 4) = e.written.length - 4 := by
    rw [hlen, hwritten, MsgFrame.bytes, hsize, beDecode_lengthPrefix (by omega)]
  have hread : portalWireReadLength (e.written.take 4) = ((e.written.length - 4 : Nat) : Int) := by
    rw [portalWireReadLength, take_take, Nat.min_self, hword, if_pos (by omega)]
  refine ⟨⟨hmin.le, ?_⟩, ?_⟩
  · change (if portalWireReadLength (e.written.take 4) ≤ 0 ∨
      nodeBufSize < portalWireReadLength (e.written.take 4) then none
      else some (portalWireReadLength (e.written.take 4)).toNat) = some (e.written.length - 4)
    rw [hread, nodeBufSize, if_neg (by omega), Int.toNat_natCast]
  · rw [classify, decodeFrame, decodeMsg_frame hfits (hwritten ▸ prefix_rfl), hmsg]
    exact (if_neg h.pipe).trans (if_neg h.shell)

/-- What is sent is cut into frames in one way only. -/
theorem mem_of_streamFrame {frames : List Bytes} (hframes : ∀ f ∈ frames, nodeFormat.IsFrame f)
    {f rest : Bytes} (h : StreamFrame frames.flatten f rest) : f ∈ frames := by
  obtain ⟨fs, hfs, hf, heq⟩ := h
  have hall : ∀ g ∈ fs ++ [f], nodeFormat.IsFrame g := by
    simpa [or_imp, forall_and] using ⟨hfs, hf⟩
  have hpre : (fs ++ [f]).flatten <+: frames.flatten := ⟨rest, by simp [heq]⟩
  exact (nodeFormat.prefix_of_flatten_prefix hall hframes hpre).subset (by simp)

/-- A stream of frames never looks invalid, and only its end looks incomplete. -/
theorem head_flatten {frames : List Bytes} (hframes : ∀ f ∈ frames, nodeFormat.IsFrame f) :
    nodeFormat.head frames.flatten ≠ .invalid ∧
      (nodeFormat.head frames.flatten = .incomplete → frames = []) := by
  cases frames with
  | nil => simp [nodeFormat.head_nil]
  | cons f frames =>
    rw [flatten_cons, nodeFormat.head_append (forall_mem_cons.mp hframes).1]
    simp

/-- Such messages are frames that crash no handler and ask for no tunnel. -/
theorem served_stream {msgs : List PortalMsg} (hmsgs : ∀ m ∈ msgs, Carried m) :
    let frames := msgs.map wireFrame
    (∀ f ∈ frames, nodeFormat.IsFrame f) ∧ HandlersReturn frames.flatten ∧
      TunnelsLast frames.flatten := by
  intro frames
  have hframes : ∀ f ∈ frames, nodeFormat.IsFrame f := by
    intro f hf
    obtain ⟨m, hm, rfl⟩ := mem_map.mp hf
    exact (hmsgs m hm).received.1
  have hstream : ∀ f rest, StreamFrame frames.flatten f rest → ∃ m, classify f = .message m := by
    intro f rest hf
    obtain ⟨m, hm, rfl⟩ := mem_map.mp (mem_of_streamFrame hframes hf)
    exact ⟨_, (hmsgs m hm).received.2⟩
  refine ⟨hframes, ?_, ?_⟩
  · intro f rest hf hcrash
    obtain ⟨m, hm⟩ := hstream f rest hf
    rw [hm] at hcrash
    cases hcrash
  · intro f rest hf htun
    obtain ⟨m, hm⟩ := hstream f rest hf
    rw [TunnelRequest, hm] at htun
    cases htun

/-- However the socket takes and gives the bytes, the connection stays up and what the reader hands
over are the first of the messages sent, in order and each once; when all bytes have arrived and
are read, it is all of them. -/
theorem messages_delivered (msgs : List PortalMsg) (hmsgs : ∀ m ∈ msgs, Carried m)
    (tx : List TxEvent)
    (hsent : (run outgoingStep .initial tx).appended = (msgs.map wireFrame).flatten)
    (es : List ConnEvent) (hrun : Along connStep QuietStep .initial es)
    (harr : (run connStep .initial es).arrived <+: (run outgoingStep .initial tx).accepted) :
    let s := run connStep .initial es
    let received := s.log.map fun i => (i.meaning, classify i.frame)
    let expected := msgs.map fun m => (Meaning.request, Request.message m.onWire)
    s.link = .up ∧ received <+: expected ∧
      (s.Settled → s.arrived = (msgs.map wireFrame).flatten → received = expected) := by
  intro s received expected
  obtain ⟨hframes, hret, hlast⟩ := served_stream hmsgs
  have htx := run_invariant (fun _ e h => h.step e) consistent_initial tx
  have harr' := harr.trans ⟨_, htx.split.trans hsent⟩
  obtain ⟨ht, hs⟩ := served_run hret hlast es hrun harr'
  obtain ⟨pre, rest, hsplit, hcov, hreq, hclosed, hsettled⟩ := readsExactly_of_served ht hs
  obtain ⟨hlog, rfl⟩ := hcov.frames
  rw [hsplit] at harr'
  -- the frames in the log are the first ones sent, and what is left starts with the others
  obtain ⟨more, hmore⟩ := nodeFormat.prefix_of_flatten_prefix hlog hframes
    ((prefix_append _ _).trans harr')
  rw [← hmore] at hframes
  have hrest := head_flatten fun f hf => hframes f (mem_append_right _ hf)
  rw [← hmore, flatten_append, prefix_append_right_inj] at harr'
  have hvalid : nodeFormat.head rest ≠ .invalid := by
    intro hinv
    obtain ⟨t, ht⟩ := harr'
    exact hrest.1 (ht ▸ nodeFormat.head_invalid_append hinv t)
  have hreceived :
      received = (s.log.map Interp.frame).map fun f => (Meaning.request, classify f) := by
    rw [map_map]
    exact map_congr_left fun i hi => Prod.ext (hreq i hi) rfl
  have hexpected : expected = (msgs.map wireFrame).map fun f => (Meaning.request, classify f) := by
    rw [map_map]
    exact map_congr_left fun m hm => Prod.ext rfl (hmsgs m hm).received.2.symm
  refine ⟨hs.link.resolve_right fun h => hvalid (hclosed h.1), ?_, ?_⟩
  · rw [hreceived, hexpected, ← hmore, map_append]
    exact prefix_append _ _
  · intro hset hall
    rw [hsplit, ← hmore, flatten_append, append_cancel_left_eq] at hall
    rcases hsettled hset with ⟨hinc, -⟩ | ⟨hinv, -⟩
    · rw [hall] at hinc
      rw [hreceived, hexpected, ← hmore, hrest.2 hinc, append_nil]
    · exact absurd hinv hvalid

def secondMsg : PortalMsg := { sampleMsg with id := 8, path := some [47, 98], ctx := none }

/-- Two frames that are taken and arrive in two pieces, of which the second begins within the
first frame. -/
theorem messages_delivered_sample :
    let stream := wireFrame sampleMsg ++ wireFrame secondMsg
    let es := [.arrive (stream.take 9), .ready false, .arrive (stream.drop 9), .ready false,
      .finish, .ready false, .finish]
    (run connStep .initial es).log.map (fun i => (i.meaning, classify i.frame)) =
      [(.request, .message sampleMsg.onWire), (.request, .message secondMsg.onWire)] := by
  intro stream es
  have hsecond : WireMsg secondMsg :=
    ⟨⟨_, rfl, ⟨by decide, by decide, by decide⟩⟩, wireHeaders_sampleMsg, by decide, nofun⟩
  have hmsgs : ∀ m ∈ [sampleMsg, secondMsg], Carried m := by
    intro m hm
    simp only [mem_cons, not_mem_nil, or_false] at hm
    rcases hm with rfl | rfl
    · exact ⟨wireMsg_sampleMsg, by decide +kernel, by decide +kernel, by decide +kernel⟩
    · exact ⟨hsecond, by decide +kernel, by decide +kernel, by decide +kernel⟩
  have hrun : Along connStep QuietStep .initial es :=
    ⟨⟨by decide +kernel, trivial⟩, ⟨by decide +kernel, rfl⟩, ⟨by decide +kernel, trivial⟩,
      ⟨by decide +kernel, rfl⟩, ⟨by decide +kernel, trivial⟩, ⟨by decide +kernel, rfl⟩,
      ⟨by decide +kernel, trivial⟩, along_nil _⟩
  exact (messages_delivered [sampleMsg, secondMsg] hmsgs
    [.append (fun _ => 0) (wireFrame sampleMsg), .append (fun _ => 0) (wireFrame secondMsg),
      .writable [.accepted 5, .accepted 150]] (by decide +kernel) es
    hrun (by decide +kernel)).2.2 ⟨by decide +kernel, .inr (by decide +kernel)⟩ (by decide +kernel)

end Portal
