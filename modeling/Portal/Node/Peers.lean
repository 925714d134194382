import Portal.Core.Auth
import Portal.Core.Path

/-!
The peer table of `modules/mod_node/mod_node.c`: the records of the peers, their connections in the
event loop, and the functions that attach, lose, sweep and reconnect them.

`g_peers` holds pointers, so a record has an address (`id`) besides its index. A descriptor is an
`Int`, `-1` for none. Only recorded are who is at the other end of a connection, when it was
opened, and when a record was last marked dead, in the logical time of `clock`.
-/

namespace Portal

inductive ConnState where
  | ready
  | tcpConnecting
  | tlsAccept
  | tlsConnect
  | hsExchange
deriving DecidableEq

structure Worker where
  fd : Int
  busy : Nat
deriving DecidableEq

/-- `node_peer_t`, without its counters, lock and TLS handles. -/
structure NodePeer where
  id : Nat
  name : CStr
  ctrlFd : Int
  isInbound : Bool
  isIndirect : Bool
  hubIdx : Nat
  ready : Bool
  dead : Bool
  cfgHost : CStr
  workers : List Worker
  nextWorker : Nat
  paths : List CStr
  connectedAt : Nat
  retryCount : Nat
  nextRetryUs : Nat
  resolvedUser : CStr
  resolvedLabels : PortalLabels
  identityExchanged : Bool
  lastDead : Nat
deriving DecidableEq

/-- A record as `calloc` leaves it, with its address and name. -/
def NodePeer.fresh (id : Nat) (name : CStr) : NodePeer where
  id := id
  name := name
  ctrlFd := -1
  isInbound := false
  isIndirect := false
  hubIdx := 0
  ready := false
  dead := false
  cfgHost := .lit ""
  workers := []
  nextWorker := 0
  paths := []
  connectedAt := 0
  retryCount := 0
  nextRetryUs := 0
  resolvedUser := .lit ""
  resolvedLabels := .empty
  identityExchanged := false
  lastDead := 0

/-- The descriptor is the record's control connection or one of its workers. -/
def NodePeer.hasFd (p : NodePeer) (fd : Int) : Bool :=
  p.ctrlFd = fd || p.workers.any fun w => w.fd = fd

/-- `hs_context_t`: the record an outbound handshake works for, what the other side
announced. -/
structure HsContext where
  peer : Option Nat
  peerName : CStr
  advertised : List CStr
deriving DecidableEq

/-- A connection in the event loop (`rx_state_t`), with who is at the other end. -/
structure NodeConn (P : Type) where
  fd : Int
  state : ConnState
  hs : Option HsContext
  principal : P
  openedAt : Nat
deriving DecidableEq

/-- A key of user `user` was received from `principal` on a connection opened then. -/
structure Exchange (P : Type) where
  principal : P
  user : CStr
  openedAt : Nat
deriving DecidableEq

structure NodeConfig where
  nodeName : CStr
  /-- Advertised peers are registered: no whitelist, or this node is on it. -/
  registersIndirect : Bool
  /-- `peer_outbound_key` of a peer name. -/
  outboundKey : CStr → CStr

structure NodeState (P : Type) where
  peers : List NodePeer
  conns : List (NodeConn P)
  tree : PortalPathTree
  auth : PortalAuthRegistry
  nextId : Nat
  clock : Nat
  exchanges : List (Exchange P)

variable {P : Type}

def nodeMaxPeers : Nat := 16384
def nodeMaxThreads : Nat := 16

def findPeerByName (peers : List NodePeer) (name : CStr) : Option NodePeer :=
  peers.find? fun p => p.name = name && p.ready

def findPeerByFd (peers : List NodePeer) (fd : Int) : Option NodePeer :=
  peers.find? fun p => p.hasFd fd

def findPeerAny (peers : List NodePeer) (name : CStr) : Option NodePeer :=
  peers.find? fun p => p.name = name

def NodeState.conn (s : NodeState P) (fd : Int) : Option (NodeConn P) :=
  s.conns.find? fun c => c.fd = fd

/-! ### Elementary updates -/

/-- A store through a pointer to the record with address `id`. -/
def NodeState.updPeer (s : NodeState P) (id : Nat) (f : NodePeer → NodePeer) : NodeState P :=
  { s with peers := s.peers.map fun p => if p.id = id then f p else p }

def NodeState.updConn (s : NodeState P) (fd : Int) (f : NodeConn P → NodeConn P) : NodeState P :=
  { s with conns := s.conns.map fun c => if c.fd = fd then f c else c }

/-- `node_fd_del_with_rx` and `close`. -/
def NodeState.closeFd (s : NodeState P) (fd : Int) : NodeState P :=
  { s with conns := s.conns.filter fun c => c.fd ≠ fd }

def NodeState.closeFds (s : NodeState P) (fds : List Int) : NodeState P :=
  { s with conns := s.conns.filter fun c => c.fd ∉ fds }

/-- `"/<name>/*"` -/
def peerPath (name : CStr) : CStr :=
  .ofBytes ((CStr.lit "/").bytes ++ name.bytes ++ (CStr.lit "/*").bytes)

def unregisterAll (tree : PortalPathTree) (paths : List CStr) : PortalPathTree :=
  paths.foldl (fun t p => (portalPathUnregister t p).1) tree

def NodeState.setTree (s : NodeState P) (tree : PortalPathTree) : NodeState P := { s with tree }

def NodeState.unregister (s : NodeState P) (paths : List CStr) : NodeState P :=
  s.setTree (unregisterAll s.tree paths)

/-- `peers_append` and the assignments of its caller; nothing when the table is full. -/
def NodeState.append (s : NodeState P) (mk : Nat → NodePeer) : NodeState P :=
  if s.peers.length < nodeMaxPeers then
    { s with peers := s.peers ++ [mk s.nextId], nextId := s.nextId + 1 }
  else s

/-- `peers_remove_at`: the record goes, and hub indices behind it move down. -/
def NodeState.removeAt (s : NodeState P) (i : Nat) : NodeState P :=
  if i < s.peers.length then
    { s with
      peers := (s.peers.eraseIdx i).map fun p =>
        if p.isIndirect && i < p.hubIdx then { p with hubIdx := p.hubIdx - 1 } else p }
  else s

/-- The connection-lost assignments of `mark_peer_dead_by_fd`. -/
def NodePeer.lose (p : NodePeer) (now : Nat) : NodePeer :=
  { p with
    dead := true
    ready := false
    identityExchanged := false
    resolvedUser := .lit ""
    resolvedLabels := .empty
    paths := []
    lastDead := now }

def NodePeer.markDead (p : NodePeer) (now : Nat) : NodePeer :=
  { p with dead := true, ready := false, lastDead := now }

/-! ### Losing connections -/

/-- Without its control connection or first worker, the record at `i` and the indirect peers behind
it are dead, and their identities gone. -/
def NodeState.losePeerAt (s : NodeState P) (i : Nat) : NodeState P :=
  let lost := fun k (p : NodePeer) => decide (k = i) || (p.isIndirect && p.hubIdx = i)
  { s with
    peers := s.peers.mapIdx fun k p => if lost k p then p.lose s.clock else p
    tree := unregisterAll s.tree
      ((s.peers.mapIdx fun k p => if lost k p then p.paths else []).flatten) }

/-- A record without the worker `fd`; without its last connection it is dead, but the
identity stays. -/
def NodePeer.dropWorker (p : NodePeer) (fd : Int) (now : Nat) : NodePeer :=
  let workers := p.workers.eraseP fun w => w.fd = fd
  if workers = [] && p.ctrlFd < 0 then { (p.markDead now) with workers, paths := [] }
  else { p with workers }

section Operations

variable (cfg : NodeConfig) (s : NodeState P)

def markPeerDeadByFd (fd : Int) : NodeState P :=
  match s.peers.findIdx? fun p => p.hasFd fd with
  | none => s
  | some i =>
    match s.peers[i]? with
    | none => s
    | some p =>
      if p.ctrlFd = fd || p.workers.head?.map Worker.fd = some fd then
        if p.dead then s else s.losePeerAt i
      else
        { s with
          peers := s.peers.modify i fun p => p.dropWorker fd s.clock
          tree := if (p.dropWorker fd s.clock).paths = [] then unregisterAll s.tree p.paths
            else s.tree }

def retryBackoff (retry : Nat) : Nat := [1, 2, 5, 10, 30].getD (retry - 1) 30

def NodePeer.backOff (p : NodePeer) (now nowUs : Nat) : NodePeer :=
  { p with
    dead := true
    lastDead := now
    retryCount := p.retryCount + 1
    nextRetryUs := nowUs + retryBackoff (p.retryCount + 1) * 1000000 }

/-- `hs_abort`: the descriptor is closed; an outbound peer that is not connected yet
backs off. -/
def hsAbort (fd : Int) (nowUs : Nat) : NodeState P :=
  match (s.conn fd).bind fun c => c.hs.bind HsContext.peer with
  | none => s.closeFd fd
  | some id =>
    (s.closeFd fd).updPeer id fun p =>
      if p.ready = false && p.ctrlFd < 0 then p.backOff s.clock nowUs else p

/-! ### Attaching connections -/

def NodeState.connReady (fd : Int) : NodeState P :=
  s.updConn fd fun c => { c with state := .ready, hs := none }

def registerIndirectPeer (hubIdx now : Nat) (s : NodeState P) (name : CStr) : NodeState P :=
  if name = cfg.nodeName || (s.peers.any fun p => p.name = name) || !cfg.registersIndirect then s
  else if s.peers.length < nodeMaxPeers then
    let reg := portalPathRegister s.tree (peerPath name) (.lit "node")
    (s.append fun id =>
      { NodePeer.fresh id (name.truncate 63) with
        isIndirect := true
        hubIdx := hubIdx
        ready := true
        connectedAt := now
        paths := if reg.2 = 0 then [peerPath name] else [] }).setTree reg.1
  else s

def NodePeer.addWorker (p : NodePeer) (fd : Int) : NodePeer :=
  if p.workers.length < nodeMaxThreads then { p with workers := p.workers ++ [⟨fd, 0⟩] } else p

/-- `finalize_handshake` of an outbound connection, up to the identity exchange: the first worker
makes the peer ready. -/
def attachOutbound (fd : Int) (id now : Nat) : NodeState P :=
  match s.peers.find? fun p => p.id = id with
  | none => s
  | some p =>
    let s := s.updPeer id fun p => p.addWorker fd
    if p.ready then s
    else
      let reg := portalPathRegister s.tree (peerPath p.name) (.lit "node")
      (s.updPeer id fun p =>
        { p with
          ready := true
          dead := false
          connectedAt := now
          retryCount := 0
          nextRetryUs := 0
          paths := if reg.2 = 0 then [peerPath p.name] else p.paths }).setTree reg.1

def finishOutbound (fd : Int) (id now : Nat) (advertised : List CStr) : NodeState P :=
  match s.peers.findIdx? fun p => p.id = id with
  | none => s.connReady fd
  | some hubIdx => (advertised.foldl (registerIndirectPeer cfg hubIdx now) s).connReady fd

/-- A worker of the record that has no connection in the READY state. -/
def staleWorker (fd : Int) (w : Worker) : Bool :=
  decide (0 ≤ w.fd) && decide (w.fd ≠ fd) &&
    !((s.conn w.fd).any fun c => c.state = .ready)

/-- `finalize_handshake` of an inbound connection that announces the name of a ready record: stale
workers go, and it gets one more. -/
def attachInbound (existing : NodePeer) (fd : Int) : NodeState P :=
  let stale := (existing.workers.filter fun w => staleWorker s fd w).map Worker.fd
  let s := s.closeFds stale
  let s := s.updPeer existing.id fun p =>
    ({ p with workers := p.workers.filter fun w => decide (0 ≤ w.fd) && decide (w.fd ∉ stale) } :
      NodePeer).addWorker fd
  s.connReady fd

def NodePeer.inbound (fd : Int) (name : CStr) (now id : Nat) : NodePeer :=
  { NodePeer.fresh id name with
    ctrlFd := fd
    isInbound := true
    ready := true
    connectedAt := now
    paths := [peerPath name] }

/-- `finalize_handshake` of an inbound connection with a new name. -/
def newInbound (fd : Int) (name : CStr) (advertised : List CStr) (now nowUs : Nat) : NodeState P :=
  if s.peers.length < nodeMaxPeers then
    let reg := portalPathRegister s.tree (peerPath name) (.lit "node")
    let t := (s.append (NodePeer.inbound fd name now)).setTree reg.1
    (advertised.foldl (registerIndirectPeer cfg s.peers.length now) t).connReady fd
  else hsAbort s fd nowUs

/-- With an outbound key the first connection of an outbound peer now waits for the identity
exchange, and `finishOutbound` comes when that is over. -/
def finalizeHandshake (fd : Int) (name : CStr) (advertised : List CStr) (now nowUs : Nat) :
    NodeState P :=
  match s.conn fd with
  | none => s
  | some c =>
    if c.state ≠ .hsExchange then s
    else
      match c.hs.bind HsContext.peer with
      | none =>
        match findPeerByName s.peers name with
        | some existing => attachInbound s existing fd
        | none => newInbound cfg s fd name advertised now nowUs
      | some id =>
        match s.peers.find? fun p => p.id = id with
        | none => s
        | some p =>
          let t := attachOutbound s fd id now
          if p.ready then t.connReady fd
          else if (cfg.outboundKey p.name).bytes = [] then
            finishOutbound cfg t fd id now advertised
          else t

/-! ### Identities -/

/-- `auth_find_by_key` of the core interface, with a 64-byte buffer for the name. -/
def apiAuthFindByKey (auth : PortalAuthRegistry) (apiKey : CharPtr) :
    Option (CStr × PortalLabels) :=
  (portalAuthFindByKey auth apiKey).map fun u =>
    (u.username.truncate (portalMaxLabelLen - 1), u.labels)

def NodePeer.setIdentity (p : NodePeer) (user : CStr × PortalLabels) : NodePeer :=
  { p with resolvedUser := user.1, resolvedLabels := user.2, identityExchanged := true }

def NodeState.recordExchange (fd : Int) (user : CStr) : NodeState P :=
  match s.conn fd with
  | none => s
  | some c => { s with exchanges := ⟨c.principal, user, c.openedAt⟩ :: s.exchanges }

/-- The reply to our own exchange for the record with address `id`: its body is the other
side's key. -/
def exchangeReply (id : Nat) (fd : Int) (body : Bytes) : NodeState P :=
  match apiAuthFindByKey s.auth (some body) with
  | none => s
  | some user => (s.recordExchange fd user.1).updPeer id fun p => p.setIdentity user

/-- Received on the connection `fd`. The record is looked up by the name of the record of that
connection. -/
def identityProof (fd : Int) (claimedKey : CharPtr) : NodeState P :=
  if (s.conn fd).any fun c => c.state = .ready then
    match findPeerByFd s.peers fd with
    | none => s  -- no `source_node`
    | some srcPeer =>
      match apiAuthFindByKey s.auth claimedKey with
      | none => s
      | some user =>
        match findPeerAny s.peers srcPeer.name with
        | none => s
        | some peer => (s.recordExchange fd user.1).updPeer peer.id fun p => p.setIdentity user
  else s

/-! ### Opening, sweeping and reconnecting -/

/-- Connections that start to connect for the record with address `id`. -/
def NodeState.openOutbound (id : Nat) (started : List (Int × P)) : NodeState P :=
  { s with
    conns := s.conns ++ started.map fun f =>
      { fd := f.1
        state := .tcpConnecting
        hs := some ⟨some id, .lit "", []⟩
        principal := f.2
        openedAt := s.clock } }

/-- `connect_to_peer_async`; `started` are the sockets that could be opened. Without any
the record is marked dead and backs off. -/
def connectToPeerAsync (name host : CStr) (started : List (Int × P)) (nowUs : Nat) : NodeState P :=
  let settle := fun (p : NodePeer) => if started = [] then p.backOff s.clock nowUs else p
  match findPeerAny s.peers name with
  | some peer =>
    let s := s.updPeer peer.id fun p =>
      settle { p with ready := false, dead := false, ctrlFd := -1, workers := [] }
    s.openOutbound peer.id started
  | none =>
    if s.peers.length < nodeMaxPeers then
      let id := s.nextId
      let s := s.append fun id =>
        settle { NodePeer.fresh id (name.truncate 63) with cfgHost := host }
      s.openOutbound id started
    else s

def NodePeer.fds (p : NodePeer) : List Int := p.ctrlFd :: p.workers.map Worker.fd

/-- One iteration of the sweep of stale inbound peers in `reconnect_dead_peers`. -/
def sweepInboundAt (now : Nat) (s : NodeState P) (i : Nat) : NodeState P :=
  match s.peers[i]? with
  | none => s
  | some p =>
    if p.isInbound && (p.dead || (!p.ready && decide (0 < p.connectedAt) &&
        decide (60 < now - p.connectedAt))) then
      ((s.closeFds p.fds).unregister p.paths).removeAt i
    else s

/-- One iteration of the removal of the indirect peers behind hub `i`; the hub's own
index moves when a record in front of it goes. -/
def removeIndirectAt (st : NodeState P × Nat) (k : Nat) : NodeState P × Nat :=
  match st.1.peers[k]? with
  | none => st
  | some q =>
    if q.isIndirect && q.hubIdx = st.2 then
      ((st.1.unregister q.paths).removeAt k, if k < st.2 then st.2 - 1 else st.2)
    else st

def NodePeer.needsReconnect (p : NodePeer) (now nowUs : Nat) : Bool :=
  !p.isInbound && !p.isIndirect && decide (p.cfgHost.bytes ≠ []) && !(p.ready && !p.dead) &&
    !(!p.dead && !p.ready && decide (0 < p.connectedAt) && decide (now - p.connectedAt < 30)) &&
    !(decide (0 < p.nextRetryUs) && decide (nowUs < p.nextRetryUs))

/-- One iteration of the loop of `reconnect_dead_peers`; `started` are the sockets that could be
opened. -/
def reconnectOne (now nowUs : Nat) (started : List (Int × P)) (s : NodeState P) (id : Nat) :
    NodeState P :=
  match s.peers.findIdx? fun p => p.id = id with
  | none => s
  | some i =>
    match s.peers[i]? with
    | none => s
    | some p =>
      if p.needsReconnect now nowUs then
        let s := (s.closeFds p.fds).unregister p.paths
        let s := ((List.range s.peers.length).reverse.foldl removeIndirectAt (s, i)).1
        let s := s.updPeer id fun p =>
          { p with
            ctrlFd := -1
            workers := p.workers.map fun w => { w with fd := -1 }
            dead := false
            ready := false
            paths := []
            connectedAt := 0 }
        connectToPeerAsync s p.name p.cfgHost started nowUs
      else s

def usableWorker (p : NodePeer) : Option Nat :=
  ((List.range p.workers.length).map fun k => (p.nextWorker + k) % p.workers.length).find? fun i =>
    (p.workers[i]?).any fun w => decide (0 ≤ w.fd) && w.busy = 0

/-- When no worker is left alive the record is marked dead. The call of `reconnect_dead_peers` that
follows is not part of it. -/
def getWorker (id : Nat) : NodeState P :=
  match s.peers.find? fun p => p.id = id with
  | none => s
  | some p =>
    match usableWorker p with
    | some i => s.updPeer id fun p =>
      { p with
        workers := p.workers.modify i fun w => { w with busy := 1 }
        nextWorker := (i + 1) % p.workers.length }
    | none =>
      if (p.workers.any fun w => decide (0 ≤ w.fd)) || p.dead then s
      else s.updPeer id fun p => p.markDead s.clock

/-- A relay thread that ends leaves its worker slot empty. -/
def burnWorker (id i : Nat) : NodeState P :=
  s.updPeer id fun p =>
    { p with workers := p.workers.modify i fun w => { w with fd := -1, busy := 0 } }

end Operations

end Portal
