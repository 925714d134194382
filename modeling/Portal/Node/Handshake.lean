import Portal.Node.Reader

/-!
The PORTAL02 handshake of `modules/mod_node/mod_node.c` and the switch to frames: `drive_hs_recv`,
`drive_handshake` and the callbacks of a connection. `finalize_handshake` is taken as the switch
itself, without an identity exchange: this is the accepting side, or one that has no key to send.
Every callback reads all there is, up to 4096 bytes, into the buffer that `rx->len = 0` empties
when the handshake is done.
-/

namespace Portal

open List Cursor Framing Runs

variable {buf more : Bytes}

/-! ### Handshakes -/

def nodeHandshakeMagic : Bytes := (CStr.lit "PORTAL02").bytes
def nodeKeyHashLen : Nat := 32

/-- What a node says of itself: all that a valid handshake can carry. -/
structure Hello where
  keyHash : Bytes
  name : Bytes
  peers : List Bytes
  keyHash_len : keyHash.length = nodeKeyHashLen
  name_lt : name.length < portalMaxModuleName
  count_lt : peers.length < 256 ^ 2
  peer_lt : ∀ p ∈ peers, p.length < 256 ^ 2

def encodePeers (peers : List Bytes) : Bytes :=
  peers.flatMap fun p => beEncode 2 p.length ++ p

/-- Magic, key hash and the length of the name: 42 bytes. -/
def Hello.header (h : Hello) : Bytes :=
  nodeHandshakeMagic ++ h.keyHash ++ beEncode 2 h.name.length

def Hello.encode (h : Hello) : Bytes :=
  h.header ++ (h.name ++ (beEncode 2 h.peers.length ++ encodePeers h.peers))

/-- The receiving half of `hs_context_t`. -/
structure HsRecv where
  recvPhase : Nat
  nameLen : Nat
  peerName : CStr
  peerCount : Nat
  advertised : List CStr
deriving DecidableEq

def HsRecv.initial : HsRecv := ⟨0, 0, .lit "", 0, []⟩

/-- What `drive_hs_recv` returns: -1, -2, 0, or 1 and what the buffer holds behind the
handshake. -/
inductive Parsed where
  | protocolError
  | authFailure
  | incomplete (hs : HsRecv)
  | complete (hs : HsRecv) (rest : Bytes)

/-- Phase 0; the key hash is checked if this node has a key. -/
def recvHeader (key : Option Bytes) (hs : HsRecv) (buf : Bytes) : Except Parsed HsRecv :=
  if hs.recvPhase = 0 then
    if buf.length < 42 then .error (.incomplete hs)
    else if buf.take 8 ≠ nodeHandshakeMagic then .error .protocolError
    else if key.any fun k => (buf.drop 8).take nodeKeyHashLen ≠ k then .error .authFailure
    else
      let nameLen := beDecode ((buf.drop 40).take 2)
      if portalMaxModuleName ≤ nameLen then .error .protocolError
      else .ok { hs with nameLen, recvPhase := 1 }
  else .ok hs

def recvName (hs : HsRecv) (buf : Bytes) : Except Parsed HsRecv :=
  if hs.recvPhase = 1 then
    if buf.length < 42 + hs.nameLen then .error (.incomplete hs)
    else .ok { hs with peerName := .ofBytes ((buf.drop 42).take hs.nameLen), recvPhase := 2 }
  else .ok hs

def recvCount (hs : HsRecv) (buf : Bytes) : Except Parsed HsRecv :=
  if hs.recvPhase = 2 then
    if buf.length < 44 + hs.nameLen then .error (.incomplete hs)
    else .ok { hs with peerCount := beDecode ((buf.drop (42 + hs.nameLen)).take 2), recvPhase := 3 }
  else .ok hs

/-- From entry `k` on; `rest` is the buffer from `off` on. An entry that was added before is only
walked over, and a name that is too long is skipped. -/
def recvPeers : Nat → Nat → Bytes → List CStr → Option Bytes × List CStr
  | 0, _, rest, advertised => (some rest, advertised)
  | n + 1, k, rest, advertised =>
    if rest.length < 2 then (none, advertised)
    else
      let len := beDecode (rest.take 2)
      if rest.length < 2 + len then (none, advertised)
      else
        recvPeers n (k + 1) (rest.drop (2 + len))
          (if k < advertised.length then advertised
           else if len < portalMaxModuleName then
            advertised ++ [.ofBytes ((rest.drop 2).take len)]
           else advertised)

def driveHsRecv (key : Option Bytes) (hs : HsRecv) (buf : Bytes) : Parsed :=
  match recvHeader key hs buf >>= fun hs => recvName hs buf >>= fun hs => recvCount hs buf with
  | .error p => p
  | .ok hs =>
    match recvPeers hs.peerCount 0 (buf.drop (44 + hs.nameLen)) hs.advertised with
    | (none, advertised) => .incomplete { hs with advertised }
    | (some rest, advertised) => .complete { hs with advertised, recvPhase := 5 } rest

/-! ### The parser on a valid handshake -/

theorem prefix_split {a b : Bytes} (h : buf <+: a ++ b) (hlen : a.length ≤ buf.length) :
    ∃ tail, buf = a ++ tail ∧ tail <+: b := by
  obtain ⟨tail, rfl⟩ := prefix_of_prefix_length_le (prefix_append a b) h hlen
  exact ⟨tail, rfl, (prefix_append_right_inj a).mp h⟩

theorem entry_rest {p rest : Bytes} (h : rest <+: beEncode 2 p.length ++ (p ++ more))
    (hlen : 2 + p.length ≤ rest.length) : rest.drop (2 + p.length) <+: more := by
  have hentry : (beEncode 2 p.length ++ p).length = 2 + p.length := by
    rw [length_append, length_beEncode]
  rw [← append_assoc] at h
  obtain ⟨tail, rfl, htail⟩ := prefix_split h (by omega)
  rwa [drop_left' hentry]

theorem encodePeers_cons (p : Bytes) (ps : List Bytes) :
    encodePeers (p :: ps) = beEncode 2 p.length ++ (p ++ encodePeers ps) := by
  simp [encodePeers]

theorem length_encodePeers_cons (p : Bytes) (ps : List Bytes) :
    (encodePeers (p :: ps)).length = 2 + p.length + (encodePeers ps).length := by
  rw [encodePeers_cons, length_append, length_append, length_beEncode, add_assoc]

/-- One round of the loop, on a buffer that goes on with the entry of `p`. -/
theorem recvPeers_entry {p : Bytes} (hp : p.length < 256 ^ 2) {rest : Bytes}
    (hpre : rest <+: beEncode 2 p.length ++ (p ++ more)) (n k : Nat) (advertised : List CStr) :
    recvPeers (n + 1) k rest advertised = if rest.length < 2 + p.length then (none, advertised)
      else recvPeers n (k + 1) (rest.drop (2 + p.length))
        (if k < advertised.length then advertised
         else if p.length < portalMaxModuleName then advertised ++ [.ofBytes p]
         else advertised) := by
  rw [recvPeers]
  by_cases h2 : rest.length < 2
  · rw [if_pos h2, if_pos (by omega)]
  · obtain ⟨tail, rfl, htail⟩ := prefix_split hpre (by rw [length_beEncode]; omega)
    have hlen : beDecode ((beEncode 2 p.length ++ tail).take 2) = p.length := by
      rw [take_left' (by simp), beDecode_beEncode_of_lt hp]
    simp only [if_neg h2, hlen]
    split
    · rfl
    rename_i hfull
    rw [length_append, length_beEncode] at hfull
    obtain ⟨tail', rfl, -⟩ := prefix_split htail (by omega)
    have hname : ((beEncode 2 p.length ++ (p ++ tail')).drop 2).take p.length = p := by
      rw [drop_left' (by simp), take_left' rfl]
    rw [hname]

theorem recvPeers_spec (peers : List Bytes) (hlt : ∀ p ∈ peers, p.length < 256 ^ 2)
    (more rest : Bytes) (hpre : rest <+: encodePeers peers ++ more) (k : Nat)
    (advertised : List CStr) :
    (recvPeers peers.length k rest advertised).1 =
      if (encodePeers peers).length ≤ rest.length then some (rest.drop (encodePeers peers).length)
      else none := by
  induction peers generalizing rest k advertised with
  | nil => simp [recvPeers, encodePeers]
  | cons p ps ih =>
    obtain ⟨hp, hps⟩ := forall_mem_cons.mp hlt
    have hsum := length_encodePeers_cons p ps
    rw [encodePeers_cons, append_assoc, append_assoc] at hpre
    rw [length_cons, recvPeers_entry hp hpre]
    by_cases hshort : rest.length < 2 + p.length
    · rw [if_pos hshort, if_neg (by omega)]
    · rw [if_neg hshort, ih hps _ (entry_rest hpre (by omega)), hsum, drop_drop, length_drop]
      congr 1
      simp only [eq_iff_iff]
      omega

/-- What the phases that are over have found out, about a buffer that starts with `hello`. -/
structure Known (hello : Hello) (hs : HsRecv) (buf : Bytes) : Prop where
  nameLen : 1 ≤ hs.recvPhase → hs.nameLen = hello.name.length
  peerCount : 3 ≤ hs.recvPhase →
    hs.peerCount = hello.peers.length ∧ 44 + hello.name.length ≤ buf.length

theorem known_initial (hello : Hello) (buf : Bytes) : Known hello .initial buf :=
  ⟨fun h => absurd h (by decide), fun h => absurd h (by decide)⟩

theorem Known.append {hello : Hello} {hs : HsRecv} (h : Known hello hs buf) (more : Bytes) :
    Known hello hs (buf ++ more) := by
  refine ⟨h.nameLen, fun h3 => ?_⟩
  obtain ⟨hcount, hlen⟩ := h.peerCount h3
  exact ⟨hcount, by rw [length_append]; omega⟩

theorem Hello.length_header (h : Hello) : h.header.length = 42 := by
  simp [Hello.header, h.keyHash_len, nodeKeyHashLen, nodeHandshakeMagic]
  decide

theorem Hello.take_magic (h : Hello) (tail : Bytes) :
    (h.header ++ tail).take 8 = nodeHandshakeMagic := by
  rw [Hello.header, append_assoc, append_assoc]
  exact take_left' (by decide)

theorem Hello.take_keyHash (h : Hello) (tail : Bytes) :
    ((h.header ++ tail).drop 8).take nodeKeyHashLen = h.keyHash := by
  rw [Hello.header, append_assoc, append_assoc, drop_left' (by decide)]
  exact take_left' h.keyHash_len

theorem Hello.length_encode (h : Hello) :
    h.encode.length = 44 + h.name.length + (encodePeers h.peers).length := by
  simp [Hello.encode, h.length_header]
  omega

/-- A phase comes to its end, or needs more than there is. -/
def Phase (hello : Hello) (buf : Bytes) (phase : Nat) (r : Except Parsed HsRecv) : Prop :=
  (∃ hs, r = .ok hs ∧ Known hello hs buf ∧ phase ≤ hs.recvPhase) ∨
    ∃ hs, r = .error (.incomplete hs) ∧ Known hello hs buf ∧ buf.length < hello.encode.length

theorem Phase.bind {hello : Hello} {p q : Nat} {r : Except Parsed HsRecv}
    {f : HsRecv → Except Parsed HsRecv} (hr : Phase hello buf p r)
    (hf : ∀ hs, Known hello hs buf → p ≤ hs.recvPhase → Phase hello buf q (f hs)) :
    Phase hello buf q (r >>= f) := by
  rcases hr with ⟨hs, rfl, hk, hp⟩ | ⟨hs, rfl, hk, hlt⟩
  · exact hf hs hk hp
  · exact .inr ⟨hs, rfl, hk, hlt⟩

section Phases

variable {hello : Hello} {key : Option Bytes} {hs : HsRecv} {buf more : Bytes}

theorem recvHeader_spec (hkey : ∀ k ∈ key, hello.keyHash = k)
    (hpre : buf <+: hello.encode ++ more) (hk : Known hello hs buf) :
    Phase hello buf 1 (recvHeader key hs buf) := by
  have hlen := hello.length_encode
  rw [recvHeader]
  split
  · split
    · exact .inr ⟨hs, rfl, hk, by omega⟩
    · rw [Hello.encode, append_assoc] at hpre
      obtain ⟨tail, rfl, -⟩ := prefix_split hpre (by rw [hello.length_header]; omega)
      have hname : beDecode (((hello.header ++ tail).drop 40).take 2) = hello.name.length := by
        have h40 : (nodeHandshakeMagic ++ hello.keyHash).length = 40 := by
          rw [length_append, hello.keyHash_len]
          decide
        rw [Hello.header, append_assoc, drop_left' h40, take_left' (by simp)]
        have := hello.name_lt
        exact beDecode_beEncode_of_lt (by rw [portalMaxModuleName] at this; omega)
      have hok : (key.any fun k => decide (hello.keyHash ≠ k)) = false := by
        cases key with
        | none => rfl
        | some k => simp [hkey k rfl]
      rw [if_neg (not_not_intro (hello.take_magic tail)), hello.take_keyHash, hok,
        if_neg Bool.false_ne_true]
      simp only [hname]
      rw [if_neg (not_le.mpr hello.name_lt)]
      exact .inl ⟨_, rfl, ⟨fun _ => rfl, fun h => absurd h (by decide : ¬ 3 ≤ 1)⟩, le_rfl⟩
  · exact .inl ⟨hs, rfl, hk, by omega⟩

theorem recvName_spec (hk : Known hello hs buf) (hp : 1 ≤ hs.recvPhase) :
    Phase hello buf 2 (recvName hs buf) := by
  have hlen := hello.length_encode
  have hname := hk.nameLen hp
  rw [recvName]
  split
  · split
    · exact .inr ⟨hs, rfl, hk, by omega⟩
    · exact .inl ⟨_, rfl, ⟨fun _ => hname, fun h => absurd h (by decide : ¬ 3 ≤ 2)⟩, le_rfl⟩
  · exact .inl ⟨hs, rfl, hk, by omega⟩

theorem recvCount_spec (hpre : buf <+: hello.encode ++ more) (hk : Known hello hs buf)
    (hp : 2 ≤ hs.recvPhase) : Phase hello buf 3 (recvCount hs buf) := by
  have hlen := hello.length_encode
  have hname := hk.nameLen (by omega)
  rw [recvCount]
  split
  · split
    · exact .inr ⟨hs, rfl, hk, by omega⟩
    · rename_i hshort
      have hfront : (hello.header ++ hello.name).length = 42 + hs.nameLen := by
        rw [length_append, hello.length_header, hname]
      rw [Hello.encode, ← append_assoc, append_assoc _ _ more, append_assoc _ _ more] at hpre
      obtain ⟨tail, rfl, htail⟩ := prefix_split hpre (by omega)
      rw [length_append, hfront] at hshort
      obtain ⟨tail', rfl, -⟩ := prefix_split htail (by rw [length_beEncode]; omega)
      have hcount : beDecode (((hello.header ++ hello.name ++ (beEncode 2 hello.peers.length ++
          tail')).drop (42 + hs.nameLen)).take 2) = hello.peers.length := by
        rw [drop_left' hfront, take_left' (by simp)]
        exact beDecode_beEncode_of_lt hello.count_lt
      refine .inl ⟨_, rfl, ⟨fun _ => hname, fun _ => ⟨hcount, ?_⟩⟩, le_rfl⟩
      rw [length_append, hfront]
      omega
  · exact .inl ⟨hs, rfl, hk, by omega⟩

theorem recvPhases_spec (hkey : ∀ k ∈ key, hello.keyHash = k)
    (hpre : buf <+: hello.encode ++ more) (hk : Known hello hs buf) :
    Phase hello buf 3 (recvHeader key hs buf >>= fun hs =>
      recvName hs buf >>= fun hs => recvCount hs buf) :=
  (recvHeader_spec hkey hpre hk).bind fun _ hk hp =>
    (recvName_spec hk hp).bind fun _ hk hp => recvCount_spec hpre hk hp

end Phases

variable {x : Exchanging} {hello : Hello} {fs : List Bytes} {key : Option Bytes}

theorem entries_prefix (hpre : buf <+: hello.encode ++ more)
    (hlen : 44 + hello.name.length ≤ buf.length) :
    buf.drop (44 + hello.name.length) <+: encodePeers hello.peers ++ more := by
  have hfront : (hello.header ++ (hello.name ++ beEncode 2 hello.peers.length)).length =
      44 + hello.name.length := by
    simp only [length_append, hello.length_header, length_beEncode]
    omega
  have henc : hello.encode ++ more = (hello.header ++ (hello.name ++
      beEncode 2 hello.peers.length)) ++ (encodePeers hello.peers ++ more) := by
    simp [Hello.encode]
  obtain ⟨tail, rfl, htail⟩ := prefix_split (henc ▸ hpre) (by omega)
  rwa [drop_left' hfront]

/-- A prefix of a stream that starts with a valid handshake is accepted if it holds the whole
handshake, and waited on otherwise. -/
theorem driveHsRecv_spec {hs : HsRecv} (hkey : ∀ k ∈ key, hello.keyHash = k)
    (hpre : buf <+: hello.encode ++ more) (hk : Known hello hs buf) :
    ∃ hs', Known hello hs' buf ∧ driveHsRecv key hs buf =
      if hello.encode.length ≤ buf.length then .complete hs' (buf.drop hello.encode.length)
      else .incomplete hs' := by
  have hlen := hello.length_encode
  rw [driveHsRecv]
  rcases recvPhases_spec hkey hpre hk with ⟨hs', heq, hk', hp⟩ | ⟨hs', heq, hk', hlt⟩
  · obtain ⟨hcount, hle⟩ := hk'.peerCount hp
    have hname := hk'.nameLen (by omega)
    have hpeers := recvPeers_spec hello.peers hello.peer_lt more _ ( entries_prefix hpre hle) 0
      hs'.advertised
    rw [drop_drop, length_drop, ← hlen] at hpeers
    rcases hrec : recvPeers hello.peers.length 0 (buf.drop (44 + hello.name.length))
      hs'.advertised with ⟨found, advertised⟩
    rw [hrec] at hpeers
    by_cases hall : hello.encode.length ≤ buf.length
    · rw [if_pos (by omega)] at hpeers
      simp only at hpeers
      subst hpeers
      refine ⟨{ hs' with advertised, recvPhase := 5 }, ⟨fun _ => hname, fun _ => ⟨hcount, hle⟩⟩, ?_⟩
      simp only [heq, hcount, hname, hrec, if_pos hall]
    · rw [if_neg (by omega)] at hpeers
      simp only at hpeers
      subst hpeers
      refine ⟨{ hs' with advertised }, ⟨fun _ => hname, fun _ => ⟨hcount, hle⟩⟩, ?_⟩
      simp only [heq, hcount, hname, hrec, if_neg hall]
  · exact ⟨hs', hk', by rw [heq, if_neg (by omega)]⟩

/-! ### A connection from its first byte on -/

def hsBufCap : Nat := 4096

/-- A connection in `CONN_STATE_HS_EXCHANGE`. -/
structure Exchanging where
  sock : List Bytes
  eof : Bool
  buf : Bytes
  hs : HsRecv
  sendDone : Bool
  /-- `recv_done`, with the length of the handshake that was found -/
  recvDone : Option Nat
  arrived : Bytes
deriving DecidableEq

def Exchanging.initial : Exchanging := ⟨[], false, [], .initial, false, none, []⟩

inductive Peering where
  | exchange (x : Exchanging)
  | frames (c : Conn)
  | aborted
deriving DecidableEq

/-- Until the socket would block or the buffer is full. `drained` says that `on_writable` has sent
the rest of this node's own handshake. -/
def Exchanging.fill (x : Exchanging) (drained : Bool) : Exchanging :=
  let d := drain (hsBufCap - x.buf.length) x.sock
  { x with sock := d.2, buf := x.buf ++ d.1, sendDone := x.sendDone || drained }

/-- The reader starts with an empty buffer, behind all that was read; the frames start behind the
`n` bytes of the handshake. -/
def Exchanging.finalize (x : Exchanging) (n : Nat) : Conn :=
  { Conn.initial with
    sock := x.sock, eof := x.eof, base := x.buf.length - n, arrived := x.arrived.drop n }

def Exchanging.conclude (x : Exchanging) : Peering :=
  match x.sendDone, x.recvDone with
  | true, some n => .frames (x.finalize n)
  | _, _ => .exchange x

def Exchanging.drive (key : Option Bytes) (x : Exchanging) : Peering :=
  -- a read at the end of the stream returns 0, even if the handshake is there
  if x.eof ∧ x.buf.length < hsBufCap then .aborted
  else
    match driveHsRecv key x.hs x.buf with
    | .protocolError => .aborted
    | .authFailure => .aborted
    | .incomplete hs => { x with hs }.conclude
    | .complete hs rest => { x with hs, recvDone := some (x.buf.length - rest.length) }.conclude

def driveHandshake (key : Option Bytes) (x : Exchanging) (drained : Bool) : Peering :=
  (x.fill drained).drive key

inductive PeeringEvent where
  | arrive (chunk : Bytes)
  | hangup
  | callback (drained read : Bool)   -- `read`: with `EV_READ`
  | finish                           -- the handler of a request returns

def peeringStep (key : Option Bytes) : Peering → PeeringEvent → Peering
  | .exchange x, .arrive chunk =>
    .exchange { x with sock := x.sock ++ [chunk], arrived := x.arrived ++ chunk }
  | .exchange x, .hangup => .exchange { x with eof := true }
  | .exchange x, .callback drained read =>
    match driveHandshake key x drained with
    | .frames c => .frames (if read then onInboundData c false else c)
    | p => p
  | .exchange x, .finish => .exchange x
  | .frames c, .arrive chunk => .frames (connStep c (.arrive chunk))
  | .frames c, .hangup => .frames (connStep c .hangup)
  | .frames c, .callback _ read => .frames (if read then connStep c (.ready false) else c)
  | .frames c, .finish => .frames (connStep c .finish)
  | .aborted, _ => .aborted

/-! ### Statement -/

/-- The peer sends `hello` and then the frames `fs`, in pieces, and stays. -/
def Sending (hello : Hello) (fs : List Bytes) : Peering → PeeringEvent → Prop
  | .exchange x, .arrive chunk => chunk ≠ [] ∧ x.arrived ++ chunk <+: hello.encode ++ fs.flatten
  | .exchange x, .callback _ read => read = true → x.sock.flatten ≠ []
  | .frames c, .arrive chunk => chunk ≠ [] ∧ c.arrived ++ chunk <+: fs.flatten
  | .frames c, .callback _ read => read = true → Enabled c (.ready false)
  | .frames c, .finish => Enabled c .finish
  | _, _ => False

instance (hello : Hello) (fs : List Bytes) (p : Peering) (e : PeeringEvent) :
    Decidable (Sending hello fs p e) := by
  cases p <;> cases e <;> simp only [Sending] <;> infer_instance

/-- Before the switch, a callback does not find more than the handshake. -/
def NoOverread (hello : Hello) : Peering → PeeringEvent → Prop
  | .exchange x, .callback _ _ => min x.arrived.length hsBufCap ≤ hello.encode.length
  | _, _ => True

instance (hello : Hello) (p : Peering) (e : PeeringEvent) : Decidable (NoOverread hello p e) := by
  cases p <;> cases e <;> simp only [NoOverread] <;> infer_instance

/-- The frames dispatched are the first of those sent, and all of them once everything has
arrived and nothing is left to do. Before that, the handshake is not over only because
there is more of it to come. -/
def Delivered (hello : Hello) (fs : List Bytes) : Peering → Prop
  | .exchange x => x.sendDone = true → (x.sock.flatten = [] ∨ hsBufCap ≤ x.buf.length) →
      x.arrived.length < hello.encode.length
  | .frames c => (∀ i ∈ c.log, i.meaning = .request) ∧ c.log.map Interp.frame <+: fs ∧
      (c.Settled → c.arrived = fs.flatten → c.log.map Interp.frame = fs)
  | .aborted => False

/-! ### The invariant -/

/-- The buffer holds the start of the stream, up to its capacity. -/
structure Exchanging.Reads (x : Exchanging) (hello : Hello) (fs : List Bytes) : Prop where
  eof : x.eof = false
  arrived : x.arrived = x.buf ++ x.sock.flatten
  stream : x.arrived <+: hello.encode ++ fs.flatten
  known : Known hello x.hs x.buf
  cap : x.buf.length ≤ hsBufCap

/-- What has been read is a part of the handshake. -/
structure Exchanging.Fits (x : Exchanging) (hello : Hello) (fs : List Bytes) : Prop
    extends x.Reads hello fs where
  within : x.buf.length ≤ hello.encode.length
  found : ∀ n, x.recvDone = some n → n = hello.encode.length ∧ n ≤ x.buf.length

def Peered (hello : Hello) (fs : List Bytes) : Peering → Prop
  | .exchange x => x.Fits hello fs ∧ (x.sendDone = true → x.buf.length < hello.encode.length)
  | .frames c => Tracks c ∧ Served c ∧ c.arrived <+: fs.flatten
  | .aborted => False

theorem reads_initial (hello : Hello) (fs : List Bytes) : Exchanging.initial.Reads hello fs :=
  ⟨rfl, rfl, nil_prefix, known_initial hello _, Nat.zero_le _⟩

theorem peered_initial (hello : Hello) (fs : List Bytes) :
    Peered hello fs (.exchange .initial) :=
  ⟨⟨reads_initial hello fs, Nat.zero_le _, fun n h => by cases h⟩, fun h => by cases h⟩

/-- The frames of a stream that was read to its end are all there. -/
theorem delivered_of_peered (hcap : hello.encode.length ≤ hsBufCap)
    (hfs : ∀ f ∈ fs, nodeFormat.IsFrame f) {p : Peering}
    (h : Peered hello fs p) : Delivered hello fs p := by
  cases p with
  | aborted => exact h
  | exchange x =>
    obtain ⟨hx, hsend⟩ := h
    intro hdone hstall
    have hshort := hsend hdone
    rcases hstall with hempty | hfull
    · rwa [hx.arrived, hempty, append_nil]
    · omega
  | frames c =>
    obtain ⟨ht, hs, hstream⟩ := h
    obtain ⟨pre, rest, harr, hcov, hreq, -, hsettled⟩ := readsExactly_of_served ht hs
    have hlog : c.log.map Interp.frame <+: fs := by
      obtain ⟨hall, rfl⟩ := hcov.frames
      have hpre : (c.log.map Interp.frame).flatten <+: c.arrived := ⟨rest, harr.symm⟩
      exact nodeFormat.prefix_of_flatten_prefix hall hfs (hpre.trans hstream)
    refine ⟨hreq, hlog, fun hset hwhole => ?_⟩
    obtain ⟨more, rfl⟩ := hlog
    have hrest : rest = more.flatten := by
      rw [hwhole, flatten_append, ← hcov.frames.2] at harr
      exact (append_cancel_left harr).symm
    cases more with
    | nil => rw [append_nil]
    | cons g more =>
      have hg := hfs g (by simp)
      have hhead : nodeFormat.head rest = .frame g more.flatten := by
        rw [hrest, flatten_cons, nodeFormat.head_append hg]
      rcases hsettled hset with ⟨h, -⟩ | ⟨h, -⟩ <;> rw [hhead] at h <;> cases h

/-! ### Steps -/

open Exchanging

theorem Exchanging.Reads.fill (hx : x.Reads hello fs) (drained : Bool) :
    (x.fill drained).Reads hello fs ∧
      (x.fill drained).buf.length = min x.arrived.length hsBufCap := by
  obtain ⟨hread, hleft⟩ := drain_spec (hsBufCap - x.buf.length) x.sock
  have hlen : (x.fill drained).buf.length = min x.arrived.length hsBufCap := by
    have := hx.cap
    simp only [Exchanging.fill]
    rw [hread, hx.arrived, length_append, length_append, length_take]
    omega
  refine ⟨⟨hx.eof, ?_, hx.stream, hx.known.append _, hlen.trans_le (min_le_right _ _)⟩, hlen⟩
  simp only [Exchanging.fill]
  rw [hread, hleft, append_assoc, take_append_drop, hx.arrived]

theorem Exchanging.Reads.arrive (hx : x.Reads hello fs) {chunk : Bytes}
    (h : x.arrived ++ chunk <+: hello.encode ++ fs.flatten) :
    Exchanging.Reads { x with sock := x.sock ++ [chunk], arrived := x.arrived ++ chunk } hello fs :=
  ⟨hx.eof, by simp [hx.arrived], h, hx.known, hx.cap⟩

theorem Exchanging.Reads.parse (hkey : ∀ k ∈ key, hello.keyHash = k) (hx : x.Reads hello fs) :
    ∃ hs, Exchanging.Reads { x with hs } hello fs ∧ driveHsRecv key x.hs x.buf =
      if hello.encode.length ≤ x.buf.length then .complete hs (x.buf.drop hello.encode.length)
      else .incomplete hs := by
  have hpre : x.buf <+: hello.encode ++ fs.flatten :=
    (hx.arrived ▸ prefix_append _ _).trans hx.stream
  obtain ⟨hs, hk, hparse⟩ := driveHsRecv_spec hkey hpre hx.known
  exact ⟨hs, ⟨hx.eof, hx.arrived, hx.stream, hk, hx.cap⟩, hparse⟩

theorem Exchanging.Fits.fill (hx : x.Fits hello fs)
    (hno : min x.arrived.length hsBufCap ≤ hello.encode.length)
    (drained : Bool) : (x.fill drained).Fits hello fs := by
  obtain ⟨hreads, hlen⟩ := hx.toReads.fill drained
  refine ⟨hreads, hlen.trans_le hno, fun n h => ?_⟩
  obtain ⟨hn, hle⟩ := hx.found n h
  exact ⟨hn, hle.trans (by simp [Exchanging.fill])⟩

/-- The switch at the end of the handshake, with nothing read behind it. -/
theorem Exchanging.Fits.finalize (hx : x.Fits hello fs)
    (hall : x.buf.length = hello.encode.length) :
    Peered hello fs (.frames (x.finalize hello.encode.length)) := by
  have hstream : x.arrived.drop hello.encode.length = x.sock.flatten := by
    rw [hx.arrived, ← hall, drop_left]
  refine ⟨⟨[], .nil, nil_prefix, fun _ => .inl ⟨Rx.waiting_empty, ?_, ?_, ?_⟩⟩,
    ⟨rfl, hx.eof, ?_, .inl rfl, .inl rfl⟩, ?_⟩
  · simp [Exchanging.finalize, hall]
  · simp [Exchanging.finalize, Conn.initial, Rx.empty, hstream]
  · simp [Exchanging.finalize, Conn.initial]
  · simp [Exchanging.finalize, Conn.initial]
  have hle : hello.encode.length ≤ x.arrived.length := by
    rw [hx.arrived, length_append]
    omega
  obtain ⟨tail, harr, htail⟩ := prefix_split hx.stream hle
  simpa [Exchanging.finalize, harr] using htail

theorem Exchanging.conclude_of_none (h : x.recvDone = none) :
    x.conclude = .exchange x := by
  rw [conclude.eq_def]
  split
  · rename_i hn
    rw [h] at hn
    cases hn
  · rfl

theorem Exchanging.Fits.conclude (hx : x.Fits hello fs)
    (hmissing : x.recvDone = none → x.buf.length < hello.encode.length) :
    Peered hello fs x.conclude := by
  rw [conclude.eq_def]
  split
  · rename_i n _ hn
    obtain ⟨rfl, hle⟩ := hx.found n hn
    exact hx.finalize (le_antisymm hx.within hle)
  rename_i hnot
  refine ⟨hx, fun hdone => hmissing ?_⟩
  cases hrecv : x.recvDone with
  | none => rfl
  | some n => exact (hnot n hdone hrecv).elim

/-- The buffer never gets longer than the handshake, so that when the handshake is whole
there is nothing else in it. -/
theorem Exchanging.Fits.drive (hkey : ∀ k ∈ key, hello.keyHash = k) (hx : x.Fits hello fs) :
    Peered hello fs (x.drive key) := by
  obtain ⟨hs, hreads, hparse⟩ := hx.toReads.parse hkey
  rw [Exchanging.drive, if_neg (by simp [hx.eof]), hparse]
  by_cases hall : hello.encode.length ≤ x.buf.length
  · rw [if_pos hall]
    refine Exchanging.Fits.conclude ⟨⟨hreads.eof, hreads.arrived, hreads.stream, hreads.known,
      hreads.cap⟩, hx.within, ?_⟩ nofun
    intro n hn
    injection hn with hn
    rw [length_drop] at hn
    exact ⟨by omega, hn ▸ Nat.sub_le _ _⟩
  · rw [if_neg hall]
    exact Exchanging.Fits.conclude ⟨hreads, hx.within, hx.found⟩ fun _ => not_le.mp hall

theorem between_of_drive {c : Conn}
    (h : x.drive key = .frames c) : c.Between := by
  have hconclude : ∀ y : Exchanging, y.conclude = .frames c → c.Between := by
    intro y hy
    rw [conclude.eq_def] at hy
    split at hy
    · cases hy
      exact ⟨rfl, rfl, rfl, rfl⟩
    · cases hy
  rw [drive] at h
  split at h
  · cases h
  split at h
  · cases h
  · cases h
  · exact hconclude _ h
  · exact hconclude _ h

/-- The callback goes on with the reader, whether or not there is something to read. -/
theorem Conn.Between.fallThrough {c : Conn} (hb : c.Between) (ht : Tracks c) (hs : Served c)
    (hret : HandlersReturn c.arrived) :
    Tracks (onInboundData c false) ∧ Served (onInboundData c false) := by
  have hheld : ¬ c.Held := fun h => h.1 (by rw [hb.rx]; rfl)
  exact ⟨ht.ready hb.link hheld false, hs.ready ht hb.link (by rw [hb.stack]; rfl) hheld hret⟩

theorem peered_step (hkey : ∀ k ∈ key, hello.keyHash = k) (hret : HandlersReturn fs.flatten)
    (hlast : TunnelsLast fs.flatten) (p : Peering) (e : PeeringEvent) (hp : Peered hello fs p)
    (he : Sending hello fs p e ∧ NoOverread hello p e) :
    Peered hello fs (peeringStep key p e) := by
  obtain ⟨hsend, hno⟩ := he
  cases p with
  | aborted => exact hp
  | exchange x =>
    obtain ⟨hx, hshort⟩ := hp
    cases e with
    | arrive chunk =>
      exact ⟨⟨hx.toReads.arrive hsend.2, hx.within, hx.found⟩, hshort⟩
    | callback drained read =>
      have hdrive := (hx.fill hno drained).drive hkey
      rw [peeringStep, driveHandshake]
      cases hd : (x.fill drained).drive key with
      | aborted | exchange y =>
        rw [hd] at hdrive
        exact hdrive
      | frames c =>
        rw [hd] at hdrive
        obtain ⟨ht, hs, harr⟩ := hdrive
        cases read with
        | false => exact ⟨ht, hs, harr⟩
        | true =>
          obtain ⟨ht', hs'⟩ := (between_of_drive hd).fallThrough ht hs (hret.of_prefix harr)
          exact ⟨ht', hs', (arrived_ready c false).symm ▸ harr⟩
    | hangup | finish => exact hsend.elim
  | frames c =>
    obtain ⟨ht, hs, harr⟩ := hp
    have hstep : ∀ e, QuietStep c e → (connStep c e).arrived <+: fs.flatten →
        Peered hello fs (.frames (connStep c e)) := by
      intro e hq harr'
      obtain ⟨ht', hs'⟩ := served_step hret hlast ht hs hq harr'
      exact ⟨ht', hs', harr'⟩
    cases e with
    | arrive chunk => exact hstep (.arrive chunk) ⟨⟨hsend.1, hs.eof⟩, trivial⟩ hsend.2
    | callback drained read =>
      cases read with
      | false => exact ⟨ht, hs, harr⟩
      | true =>
        exact hstep (.ready false) ⟨hsend rfl, rfl⟩ ((arrived_ready c false).symm ▸ harr)
    | hangup => exact hsend.elim
    | finish => exact hstep .finish ⟨hsend, trivial⟩ harr

/-! ### Results -/

/-- For every valid handshake that fits the buffer and all frames after it, however the stream is
cut: if no callback before the switch finds more than the handshake, the frames dispatched are the
frames sent. -/
theorem peering_exact (hello : Hello) (fs : List Bytes) (key : Option Bytes)
    (hkey : ∀ k ∈ key, hello.keyHash = k) (hcap : hello.encode.length ≤ hsBufCap)
    (hfs : ∀ f ∈ fs, nodeFormat.IsFrame f) (hret : HandlersReturn fs.flatten)
    (hlast : TunnelsLast fs.flatten) (es : List PeeringEvent)
    (hrun : Along (peeringStep key) (Sending hello fs) (.exchange .initial) es)
    (hno : Along (peeringStep key) (NoOverread hello) (.exchange .initial) es) :
    Delivered hello fs (run (peeringStep key) (.exchange .initial) es) :=
  delivered_of_peered hcap hfs
    (Along.invariant (peered_step hkey hret hlast) (peered_initial hello fs) (hrun.and hno))

def bareHello : Hello where
  keyHash := List.replicate 32 0
  name := (CStr.lit "b").bytes
  peers := []
  keyHash_len := by decide
  name_lt := by decide
  count_lt := by decide
  peer_lt := by simp

theorem handlersReturn_plainFrame : HandlersReturn [plainFrame].flatten := by
  intro f rest h
  rw [(streamFrame_single isFrame_plainFrame nodeFormat.head_nil h).1]
  decide +kernel

theorem tunnelsLast_plainFrame : TunnelsLast [plainFrame].flatten := by
  intro f rest h _
  exact (streamFrame_single isFrame_plainFrame nodeFormat.head_nil h).2

/-- The handshake in two pieces, then a frame, each with a callback of its own. -/
theorem peering_exact_separateReads :
    let es := [.arrive (bareHello.encode.take 30), .callback true true,
      .arrive (bareHello.encode.drop 30), .callback false true, .arrive plainFrame,
      .callback false true, .finish]
    Along (peeringStep none) (Sending bareHello [plainFrame]) (.exchange .initial) es ∧
      Along (peeringStep none) (NoOverread bareHello) (.exchange .initial) es ∧
      Delivered bareHello [plainFrame] (run (peeringStep none) (.exchange .initial) es) := by
  intro es
  have hrun : Along (peeringStep none) (Sending bareHello [plainFrame])
      (.exchange .initial) es := by decide +kernel
  have hno : Along (peeringStep none) (NoOverread bareHello) (.exchange .initial) es := by
    decide +kernel
  exact ⟨hrun, hno, peering_exact bareHello [plainFrame] none nofun (by decide)
    (forall_mem_singleton.mpr isFrame_plainFrame) handlersReturn_plainFrame
    tunnelsLast_plainFrame es hrun hno⟩

/-- The handshake and a frame in one read: the frame is never dispatched. -/
theorem peering_exact_false :
    let es := [.arrive (bareHello.encode ++ plainFrame), .callback true true]
    HandlersReturn [plainFrame].flatten ∧ TunnelsLast [plainFrame].flatten ∧
      Along (peeringStep none) (Sending bareHello [plainFrame]) (.exchange .initial) es ∧
      ¬ Delivered bareHello [plainFrame] (run (peeringStep none) (.exchange .initial) es) := by
  intro es
  -- the reader starts behind the frame, with nothing on the socket
  have hstate : run (peeringStep none) (.exchange .initial) es =
      .frames { Conn.initial with base := 24, arrived := plainFrame } := by
    decide +kernel
  refine ⟨handlersReturn_plainFrame, tunnelsLast_plainFrame, by decide +kernel, ?_⟩
  rw [hstate]
  rintro ⟨-, -, hall⟩
  exact absurd (hall ⟨rfl, .inr rfl⟩ (by simp)) (by simp [Conn.initial])

/-! ### Handshakes that do not fit the buffer -/

def Unfinished (hello : Hello) (fs : List Bytes) : Peering → Prop
  | .exchange x => x.Reads hello fs ∧ x.recvDone = none
  | _ => False

theorem unfinished_step (hkey : ∀ k ∈ key, hello.keyHash = k)
    (hlong : hsBufCap < hello.encode.length) (p : Peering) (e : PeeringEvent)
    (hp : Unfinished hello fs p) (hsend : Sending hello fs p e) :
    Unfinished hello fs (peeringStep key p e) := by
  cases p with
  | frames c | aborted => exact hp.elim
  | exchange x =>
    obtain ⟨hx, hnone⟩ := hp
    cases e with
    | arrive chunk => exact ⟨hx.arrive hsend.2, hnone⟩
    | callback drained read =>
      obtain ⟨hfill, -⟩ := hx.fill drained
      have hcap := hfill.cap
      obtain ⟨hs, hreads, hparse⟩ := hfill.parse hkey
      have hdrive : driveHandshake key x drained = .exchange { x.fill drained with hs } := by
        rw [driveHandshake, drive, if_neg (by simp [hfill.eof]), hparse,
          if_neg (by omega)]
        exact conclude_of_none hnone
      rw [peeringStep, hdrive]
      exact ⟨hreads, hnone⟩
    | hangup | finish => exact hsend.elim

theorem peering_stuck (hkey : ∀ k ∈ key, hello.keyHash = k) (hlong : hsBufCap < hello.encode.length)
    (es : List PeeringEvent)
    (hrun : Along (peeringStep key) (Sending hello fs) (.exchange .initial) es) :
    ∃ x, run (peeringStep key) (.exchange .initial) es = .exchange x := by
  have hinv : Unfinished hello fs (run (peeringStep key) (.exchange .initial) es) :=
    hrun.invariant (unfinished_step hkey hlong) ⟨reads_initial hello fs, rfl⟩
  generalize run (peeringStep key) (.exchange .initial) es = p at hinv ⊢
  cases p with
  | exchange x => exact ⟨x, rfl⟩
  | frames c | aborted => exact hinv.elim

/-- A node that advertises a peer with a name of 4096 bytes. -/
def longHello : Hello :=
  { bareHello with
    peers := [List.replicate 4096 98]
    count_lt := by decide
    peer_lt := by decide +kernel }

theorem peering_stuck_longHello :
    let es := [.arrive longHello.encode, .callback true true]
    Along (peeringStep none) (Sending longHello []) (.exchange .initial) es ∧
      ∃ x, run (peeringStep none) (.exchange .initial) es = .exchange x := by
  intro es
  have hrun : Along (peeringStep none) (Sending longHello []) (.exchange .initial) es := by
    decide +kernel
  exact ⟨hrun, peering_stuck (by simp) (by decide +kernel) es hrun⟩

end Portal
