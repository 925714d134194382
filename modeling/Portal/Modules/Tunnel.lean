import Portal.Lib.Results
import Portal.Node.Dispatch

/-!
Port forwarding: `modules/mod_tunnel/mod_tunnel.c`, and the `/tunnel/pipe` switch of
`modules/mod_node/mod_node.c`. A peer reaches exported ports by `/tunnel/functions/stream` and
`/tunnel/functions/connect`, which look the number up among the active exports, and by
`/tunnel/pipe`, which looks nothing up. All three dial `127.0.0.1` on the low 16 bits of the
number.

* `checkExported_iff` — what the check establishes: an active export of that number.
-/

namespace Portal.Tunnel

open List Results Runs
open CStr (lit ofBytes)
open Option (mem_toList)

def tunnelMaxExports : Nat := 64
def tunnelMaxMaps : Nat := 64
def streamMaxSessions : Nat := 32
def streamChunkSize : Nat := 32768
def tunnelBufSize : Nat := 65536

structure TunnelExport where
  name : CStr
  port : Int
  proto : CStr
  active : Bool
deriving DecidableEq

/-- `tunnel_map_t`, without the descriptor and the thread of its listener. -/
structure TunnelMap where
  node : CStr
  service : CStr
  remotePort : Int
  listenPort : Int
  proto : CStr
  active : Bool
  running : Bool
deriving DecidableEq

/-- `stream_session_t`; the descriptor is known by the port it is connected to. -/
structure StreamSession where
  id : Int
  fd : UInt16
  active : Bool
deriving DecidableEq

/-- The globals of the module. Entries are only ever added behind the last one. -/
structure TunnelState where
  exports : List TunnelExport
  maps : List TunnelMap
  sessions : List StreamSession
  nextSessionId : Int
  tunnelDir : CStr
  exports_le : exports.length ≤ tunnelMaxExports
  maps_le : maps.length ≤ tunnelMaxMaps
  sessions_le : sessions.length ≤ streamMaxSessions

structure LocalHost where
  /-- `socket` succeeds -/
  socket : Bool
  /-- a service accepts connections to the port on 127.0.0.1 -/
  accepts : UInt16 → Bool
  /-- `start_listener` succeeds -/
  listens : Int → Bool
  /-- the body of the answer of a node to the query for its exports -/
  query : CStr → CharPtr
  /-- the next `read` of a connection: nothing on error, no bytes at its end -/
  read : Option Bytes

structure Outcome where
  state : TunnelState
  reply : Reply
  /-- the port on 127.0.0.1 that a connection was opened to -/
  opened : Option UInt16
  /-- what was written to a local service -/
  sent : Bytes

def TunnelState.reply (s : TunnelState) (r : Reply) : Outcome := ⟨s, r, none, []⟩

/-! ### Exports -/

def findExport (s : TunnelState) (name : CStr) : Option Nat :=
  s.exports.findIdx? fun e => e.active && e.name = name

def checkExported (s : TunnelState) (port : Int) : Bool :=
  s.exports.any fun e => e.active && e.port = port

/-- `&g_exports[g_export_count++]`, filled in. -/
def TunnelState.addExport (s : TunnelState) (name : CStr) (port : Int) (proto : CStr)
    (h : s.exports.length < tunnelMaxExports) : TunnelState where
  exports := s.exports ++ [⟨name.truncate 63, port, proto.truncate 7, true⟩]
  maps := s.maps
  sessions := s.sessions
  nextSessionId := s.nextSessionId
  tunnelDir := s.tunnelDir
  exports_le := by
    rw [List.length_append]
    exact h
  maps_le := s.maps_le
  sessions_le := s.sessions_le

def TunnelState.deactivateExport (s : TunnelState) (i : Nat) : TunnelState :=
  { s with
    exports := s.exports.modify i fun e => { e with active := false }
    exports_le := by
      rw [List.length_modify]
      exact s.exports_le }

def exportedText (name proto : CStr) (port : Int) : Bytes :=
  (lit "Exported '").bytes ++ name.bytes ++ (lit "' (").bytes ++ proto.bytes ++
    (lit ":").bytes ++ decimalBytes port ++ (lit ")\n").bytes

def handleExport (s : TunnelState) (hs : List PortalHeader) : Option Outcome := do
  let name ← getHdr (.lit "name") hs
  let portStr ← getHdr (.lit "port") hs
  let proto ← getHdr (.lit "proto") hs
  match name, portStr with
  | some name, some portStr =>
    let name := ofBytes name
    if (findExport s name).isSome then
      some (s.reply ⟨.conflict, -1, (lit "Export '").bytes ++ name.bytes ++
        (lit "' already exists\n").bytes⟩)
    else if h : s.exports.length < tunnelMaxExports then
      let proto := (proto.map ofBytes).getD (.lit "tcp")
      some ((s.addExport name (atoi portStr) proto h).reply
        ⟨.created, 0, exportedText name (proto.truncate 7) (atoi portStr)⟩)
    else some (s.reply (.fail .unavailable))
  | _, _ =>
    some (s.reply ⟨.badRequest, -1,
      (lit "Need: name, port. Optional: proto (default tcp)\n").bytes⟩)

def handleUnexport (s : TunnelState) (hs : List PortalHeader) : Option Outcome := do
  let name ← getHdr (.lit "name") hs
  match name with
  | none => some (s.reply (.fail .badRequest))
  | some name =>
    match findExport s (.ofBytes name) with
    | none => some (s.reply (.fail .notFound))
    | some i =>
      some ((s.deactivateExport i).reply
        ⟨.ok, 0, (lit "Unexported '").bytes ++ cText name ++ (lit "'\n").bytes⟩)

/-! ### Connections to exported ports -/

/-- `(uint16_t)port`, as `start_pipe`, `handle_stream_open` and `handle_connect` put it
into the address they dial. -/
def sinPort (port : Int) : UInt16 := .ofInt port

/-- `socket` and `connect` to 127.0.0.1 succeed. -/
def LocalHost.reaches (host : LocalHost) (p : UInt16) : Bool := host.socket && host.accepts p

section Handlers

variable (host : LocalHost) (s : TunnelState)

/-- `handle_stream_open` and `handle_connect` up to the connection; the argument is what follows on
it. -/
def connectExported (hs : List PortalHeader) (connected : UInt16 → Outcome) : Option Outcome := do
  let portStr ← getHdr (.lit "port") hs
  match portStr with
  | none => some (s.reply (.fail .badRequest))
  | some portStr =>
    if !checkExported s (atoi portStr) then some (s.reply (.fail .forbidden))
    else if !host.reaches (sinPort (atoi portStr)) then some (s.reply (.fail .unavailable))
    else
      some { connected (sinPort (atoi portStr)) with opened := some (sinPort (atoi portStr)) }

def TunnelState.addSession (fd : UInt16) (h : s.sessions.length < streamMaxSessions) :
    TunnelState where
  exports := s.exports
  maps := s.maps
  sessions := s.sessions ++ [⟨s.nextSessionId, fd, true⟩]
  nextSessionId := s.nextSessionId + 1
  tunnelDir := s.tunnelDir
  exports_le := s.exports_le
  maps_le := s.maps_le
  sessions_le := by
    rw [List.length_append]
    exact h

def handleStreamOpen (hs : List PortalHeader) : Option Outcome :=
  connectExported host s hs fun p =>
    if h : s.sessions.length < streamMaxSessions then
      (s.addSession p h).reply ⟨.ok, 0, decimalBytes s.nextSessionId⟩
    else s.reply (.fail .unavailable)  -- the connection is closed again

def handleConnect (msg : PortalMsg) : Option Outcome :=
  connectExported host s msg.headerList fun _ =>
    { s.reply ⟨.ok, 0, (host.read.getD []).take tunnelBufSize⟩ with sent := msg.body }

def findSession (id : Int) : Option Nat :=
  s.sessions.findIdx? fun x => x.active && x.id = id

def handleStreamData (msg : PortalMsg) : Option Outcome := do
  let sid ← getHdr (.lit "session") msg.headerList
  let action ← getHdr (.lit "action") msg.headerList
  match sid with
  | none => some (s.reply (.fail .badRequest))
  | some sid =>
    match findSession s (atoi sid) with
    | none => some (s.reply (.fail .notFound))
    | some _ =>
      let sent := if action.map ofBytes = some (.lit "write") then msg.body else []
      let r : Reply := match host.read with
        | some [] => ⟨.gone, 0, []⟩       -- closed by the local service
        | some bytes => ⟨.ok, 0, bytes.take streamChunkSize⟩
        | none => ⟨.ok, 0, []⟩            -- nothing yet
      some { s.reply r with sent := sent }

def TunnelState.closeSession (i : Nat) : TunnelState :=
  { s with
    sessions := s.sessions.modify i fun x => { x with active := false }
    sessions_le := by
      rw [List.length_modify]
      exact s.sessions_le }

def handleStreamClose (hs : List PortalHeader) : Option Outcome := do
  let sid ← getHdr (.lit "session") hs
  match sid with
  | none => some (s.reply (.fail .badRequest))
  | some sid =>
    match findSession s (atoi sid) with
    | none => some (s.reply (.fail .notFound))
    | some i => some ((s.closeSession i).reply ⟨.ok, 0, []⟩)

/-! ### Maps -/

def findMapByPort (port : Int) : Option Nat :=
  s.maps.findIdx? fun m => m.active && m.listenPort = port

/-- `sscanf(line, "%63s %d", …) == 2`. -/
def scanNamePort (line : Bytes) : Option (CStr × Int) :=
  let line := line.dropWhile isSpace
  let name := (line.takeWhile fun c => !isSpace c).take 63
  let rest := (line.drop name.length).dropWhile isSpace
  let digits := match rest with
    | 45 :: t => t
    | 43 :: t => t
    | t => t
  if name ≠ [] && (digits.head?.map isDigit).getD false then some (.ofBytes name, atoi rest)
  else none

/-- The port of the first line of an export list that names the service, else 0. -/
def servicePort (service : CStr) (body : Bytes) : Int :=
  ((((cText body).splitOn 10).filterMap scanNamePort).find? fun e => e.1 = service).elim 0 Prod.snd

def TunnelState.addMap (m : TunnelMap) (h : s.maps.length < tunnelMaxMaps) : TunnelState where
  exports := s.exports
  maps := s.maps ++ [m]
  sessions := s.sessions
  nextSessionId := s.nextSessionId
  tunnelDir := s.tunnelDir
  exports_le := s.exports_le
  maps_le := by
    rw [List.length_append]
    exact h
  sessions_le := s.sessions_le

/-- `"Mapped %s:%s (:%d) → localhost:%d\n"`; the arrow is three bytes. -/
def mappedText (node service : CStr) (remotePort listenPort : Int) : Bytes :=
  (lit "Mapped ").bytes ++ node.bytes ++ (lit ":").bytes ++ service.bytes ++
    (lit " (:").bytes ++ decimalBytes remotePort ++ (lit ") ").bytes ++
    [0xe2, 0x86, 0x92] ++ (lit " localhost:").bytes ++ decimalBytes listenPort ++ [10]

/-- The remote port a map is made for: that of the node's export list, else the number the
service text stands for. -/
def mapPort (node service : CStr) : Int :=
  let listed := (host.query node).elim 0 (servicePort service)
  if listed = 0 then atoi service.bytes else listed

def handleMap (hs : List PortalHeader) : Option Outcome := do
  let node ← getHdr (.lit "node") hs
  let service ← getHdr (.lit "service") hs
  let listen ← getHdr (.lit "listen") hs
  match node, service, listen with
  | some node, some service, some listen =>
    let node := ofBytes node
    let service := ofBytes service
    let listenPort := atoi listen
    let listed := (host.query node).elim 0 (servicePort service)
    let remotePort := mapPort host node service
    if (findMapByPort s listenPort).isSome then
      some (s.reply ⟨.conflict, -1, (lit "Port ").bytes ++ decimalBytes listenPort ++
        (lit " already mapped\n").bytes⟩)
    else if listed = 0 ∧ remotePort ≤ 0 then
      some (s.reply ⟨.notFound, -1, (lit "Service '").bytes ++ service.bytes ++
        (lit "' not found on node '").bytes ++ node.bytes ++ (lit "'\n").bytes⟩)
    else if h : s.maps.length < tunnelMaxMaps then
      if host.listens listenPort then
        let m : TunnelMap :=
          ⟨node.truncate 63, service.truncate 63, remotePort, listenPort, .lit "tcp", true, true⟩
        some ((s.addMap m h).reply ⟨.created, 0, mappedText node service remotePort listenPort⟩)
      else
        -- the entry is taken back
        some (s.reply ⟨.unavailable, -1, (lit "Failed to listen on port ").bytes ++
          decimalBytes listenPort ++ [10]⟩)
    else some (s.reply (.fail .unavailable))
  | _, _, _ => some (s.reply ⟨.badRequest, -1, (lit "Need: node, service, listen\n").bytes⟩)

def TunnelState.dropMap (i : Nat) : TunnelState :=
  { s with
    maps := s.maps.modify i fun m => { m with active := false, running := false }
    maps_le := by
      rw [List.length_modify]
      exact s.maps_le }

def handleUnmap (hs : List PortalHeader) : Option Outcome := do
  let listen ← getHdr (.lit "listen") hs
  match listen with
  | none => some (s.reply (.fail .badRequest))
  | some listen =>
    match findMapByPort s (atoi listen) with
    | none => some (s.reply (.fail .notFound))
    | some i =>
      some ((s.dropMap i).reply ⟨.ok, 0, (lit "Unmapped localhost:").bytes ++
        decimalBytes (atoi listen) ++ [10]⟩)

/-! ### Listings -/

/-- `"%-ns"`. -/
def padRight (n : Nat) (text : Bytes) : Bytes := text ++ List.replicate (n - text.length) 32

def exportRow (name port proto : Bytes) : Bytes :=
  padRight 16 name ++ [32] ++ padRight 8 port ++ [32] ++ proto ++ [10]

def exportsBody : Bytes :=
  exportRow (lit "NAME").bytes (lit "PORT").bytes (lit "PROTO").bytes ++
    exportRow (lit "----").bytes (lit "----").bytes (lit "-----").bytes ++
    ((s.exports.filter TunnelExport.active).flatMap fun e =>
      exportRow e.name.bytes (decimalBytes e.port) e.proto.bytes) ++
    if s.exports = [] then (lit "(none)\n").bytes else []

def mapRow (node service remote loc status : Bytes) : Bytes :=
  padRight 12 node ++ [32] ++ padRight 12 service ++ [32] ++ padRight 8 remote ++ [32] ++
    padRight 8 loc ++ [32] ++ status ++ [10]

/-- The text of the map list; beyond 8191 bytes the source writes past its buffer. -/
def mapsBody : Bytes :=
  mapRow (lit "NODE").bytes (lit "SERVICE").bytes (lit "REMOTE").bytes
      (lit "LOCAL").bytes (lit "STATUS").bytes ++
    mapRow (lit "----").bytes (lit "-------").bytes (lit "------").bytes
      (lit "-----").bytes (lit "------").bytes ++
    ((s.maps.filter TunnelMap.active).flatMap fun m =>
      mapRow m.node.bytes m.service.bytes (decimalBytes m.remotePort) (decimalBytes m.listenPort)
        (lit (if m.running then "ACTIVE" else "STOPPED")).bytes) ++
    if s.maps = [] then (lit "(none)\n").bytes else []

def statusBody : Bytes :=
  (lit "Tunnel Port Forwarding\nExports: ").bytes ++ decimalBytes s.exports.length ++
    (lit " (max 64)\nMaps: ").bytes ++ decimalBytes s.maps.length ++
    (lit " (max 64)\nConfig: ").bytes ++
    (if s.tunnelDir.bytes = [] then (lit "(none)").bytes else s.tunnelDir.bytes) ++ [10]

/-! ### The handler -/

def functionsExport : CStr := .lit "/tunnel/functions/export"
def functionsUnexport : CStr := .lit "/tunnel/functions/unexport"
def functionsStream : CStr := .lit "/tunnel/functions/stream"
def functionsConnect : CStr := .lit "/tunnel/functions/connect"

/-- `portal_module_handle` for a path; without a result a NULL was dereferenced. -/
def handlePath (msg : PortalMsg) (path : CStr) : Option Outcome :=
  if path = .lit "/tunnel/resources/status" then some (s.reply ⟨.ok, 0, statusBody s⟩)
  else if path = .lit "/tunnel/resources/exports" then some (s.reply ⟨.ok, 0, exportsBody s⟩)
  else if path = .lit "/tunnel/resources/maps" then some (s.reply ⟨.ok, 0, mapsBody s⟩)
  else if path = functionsExport then handleExport s msg.headerList
  else if path = functionsUnexport then handleUnexport s msg.headerList
  else if path = .lit "/tunnel/functions/map" then handleMap host s msg.headerList
  else if path = .lit "/tunnel/functions/unmap" then handleUnmap s msg.headerList
  else if path = functionsStream then handleStreamOpen host s msg.headerList
  else if path = .lit "/tunnel/functions/data" then handleStreamData host s msg
  else if path = .lit "/tunnel/functions/close" then handleStreamClose s msg.headerList
  else if path = functionsConnect then handleConnect host s msg
  else some (s.reply (.fail .notFound))

def portalModuleHandle (msg : PortalMsg) : Option Outcome :=
  msg.path.bind fun p => handlePath host s msg (.ofBytes p)

end Handlers

/-! ### Loading and histories -/

/-- A file of the tunnel directory, as `tunnels_load_all` has read it. -/
structure SavedTunnel where
  type : CStr
  name : CStr
  node : CStr
  service : CStr
  proto : CStr
  port : Int
  remotePort : Int
  listenPort : Int
  enabled : Bool

def loadSaved (host : LocalHost) (s : TunnelState) (f : SavedTunnel) : TunnelState :=
  if !f.enabled then s
  else if f.type = .lit "export" ∧ f.name.bytes ≠ [] ∧ 0 < f.port then
    if h : s.exports.length < tunnelMaxExports then
      if (findExport s f.name).isSome then s else s.addExport f.name f.port f.proto h
    else s
  else if f.type = .lit "map" ∧ f.node.bytes ≠ [] ∧ f.service.bytes ≠ [] ∧ 0 < f.listenPort then
    if h : s.maps.length < tunnelMaxMaps then
      if (findMapByPort s f.listenPort).isSome then s
      else
        s.addMap ⟨f.node.truncate 63, f.service.truncate 63, f.remotePort, f.listenPort,
          f.proto.truncate 7, true, host.listens f.listenPort⟩ h
    else s
  else s

def TunnelState.init (tunnelDir : CStr) : TunnelState :=
  ⟨[], [], [], 1, tunnelDir, Nat.zero_le _, Nat.zero_le _, Nat.zero_le _⟩

/-- `portal_module_load`, with the files of the tunnel directory in the order of `readdir`. -/
def portalModuleLoad (host : LocalHost) (tunnelDir : CStr) (files : List SavedTunnel) :
    TunnelState :=
  if tunnelDir.bytes = [] then .init tunnelDir
  else files.foldl (loadSaved host) (.init tunnelDir)

/-- A request to the module, from whomever; a handler that crashes leaves the globals as
they were. -/
def requestStep (s : TunnelState) (r : LocalHost × PortalMsg) : TunnelState :=
  (portalModuleHandle r.1 s r.2).elim s Outcome.state

def TunnelState.Exported (s : TunnelState) (port : Int) : Prop :=
  ∃ e ∈ s.exports, e.active = true ∧ e.port = port

instance (s : TunnelState) (port : Int) : Decidable (s.Exported port) :=
  inferInstanceAs (Decidable (∃ e ∈ _, _))

theorem checkExported_iff (s : TunnelState) (port : Int) :
    checkExported s port = true ↔ s.Exported port := by
  simp [checkExported, TunnelState.Exported]

/-! ### What the answers say is exported -/

def TunnelState.activeExports (s : TunnelState) : List (CStr × Int) :=
  (s.exports.filter TunnelExport.active).map fun e => (e.name, e.port)

/-- A created export is added, and the first of a name that was unexported is gone. -/
def bookStep (book : List (CStr × Int)) (msg : PortalMsg) (r : Reply) : List (CStr × Int) :=
  if msg.path.map ofBytes = some functionsExport ∧ r.status = .created then
    match getHdr (.lit "name") msg.headerList, getHdr (.lit "port") msg.headerList with
    | some (some name), some (some portStr) =>
      book ++ [((ofBytes name).truncate 63, atoi portStr)]
    | _, _ => book
  else if msg.path.map ofBytes = some functionsUnexport ∧ r.status = .ok then
    match getHdr (.lit "name") msg.headerList with
    | some (some name) => book.eraseP fun e => e.1 = ofBytes name
    | _ => book
  else book

structure TunnelWorld where
  state : TunnelState
  book : List (CStr × Int)

def tunnelStep (w : TunnelWorld) (r : LocalHost × PortalMsg) : TunnelWorld :=
  ⟨requestStep w.state r,
    (portalModuleHandle r.1 w.state r.2).elim w.book fun o => bookStep w.book r.2 o.reply⟩

def tunnelInit (host : LocalHost) (tunnelDir : CStr) (files : List SavedTunnel) : TunnelWorld :=
  ⟨portalModuleLoad host tunnelDir files, (portalModuleLoad host tunnelDir files).activeExports⟩

/-- An export of that number is active, by what was requested and answered. -/
def TunnelWorld.Exported (w : TunnelWorld) (port : Int) : Prop := ∃ name, (name, port) ∈ w.book

/-! ### What a frame from a peer opens -/

structure NodeView where
  cfg : InboundConfig
  inst : PortalInstance
  srcPeer : Option NodePeer
  nextId : UInt64
  now : UInt64

/-- `start_pipe`, up to the connection. -/
def startPipe (host : LocalHost) (port : Int) : Option UInt16 :=
  if host.reaches (sinPort port) then some (sinPort port) else none

def openedBy (node : NodeView) (host : LocalHost) (s : TunnelState) : Action → Option UInt16
  | .startPipe port => startPipe host port
  | .send msg =>
    match apiSend node.inst node.nextId node.now msg with
    | (.handle modName, msg) =>
      if modName = .lit "tunnel" then (portalModuleHandle host s msg).bind Outcome.opened
      else none
    | _ => none
  | _ => none

def openedFor (node : NodeView) (host : LocalHost) (s : TunnelState) (pending : Bool)
    (frame : Bytes) : List UInt16 :=
  (onFrame node.cfg node.srcPeer pending frame).filterMap (openedBy node host s)

def stamped (node : NodeView) (msg : PortalMsg) : PortalMsg :=
  { msg with
    ctx := some (stampCtx node.cfg node.srcPeer msg.ctx)
    path := stripSelf node.cfg.nodeName msg.path }

/-- The message asks for a connection to `port`, by a pipe or, for a number that is exported, by
one of the functions of the module. -/
inductive Asks (node : NodeView) (exported : Int → Prop) (msg : PortalMsg) (port : Int) :
    Prop where
  | pipe (h : AsksPipe msg port)
  | function {msg' : PortalMsg} {path portStr : Bytes}
      (hpipe : msg.path.map ofBytes ≠ some tunnelPipe)
      (hshell : msg.path.map ofBytes ≠ some tunnelShell)
      (hsend : apiSend node.inst node.nextId node.now (stamped node msg)
        = (.handle (.lit "tunnel"), msg'))
      (hpath : msg'.path = some path)
      (hfun : ofBytes path = functionsStream ∨ ofBytes path = functionsConnect)
      (hport : getHdr (.lit "port") msg'.headerList = some (some portStr))
      (hatoi : atoi portStr = port)
      (hexported : exported port)

section Opened

variable {host : LocalHost} {s : TunnelState} {hs : List PortalHeader}

def Quiet (s : TunnelState) (o : Outcome) : Prop :=
  o.opened = none ∧ o.state.exports = s.exports

theorem quiet_reply (r : Reply) : Returns (Quiet s) (some (s.reply r)) :=
  returns_some.mpr ⟨rfl, rfl⟩

theorem handleExport_returns :
    Returns (fun o => o.opened = none ∧
      (o.reply.status ≠ .created ∧ o.state = s ∨
        o.reply.status = .created ∧ ∃ name portStr, getHdr (.lit "name") hs = some (some name) ∧
          getHdr (.lit "port") hs = some (some portStr) ∧
          ∃ proto h, o.state = s.addExport (.ofBytes name) (atoi portStr) proto h))
      (handleExport s hs) := by
  refine returns_bind fun name hname => returns_bind fun portStr hport => ?_
  refine returns_bind fun proto _ => ?_
  cases name with
  | none => exact returns_some.mpr ⟨rfl, .inl ⟨nofun, rfl⟩⟩
  | some name =>
    cases portStr with
    | none => exact returns_some.mpr ⟨rfl, .inl ⟨nofun, rfl⟩⟩
    | some portStr =>
      apply returns_ite
      · exact fun _ => returns_some.mpr ⟨rfl, .inl ⟨nofun, rfl⟩⟩
      intro _
      apply returns_dite
      · intro h
        exact returns_some.mpr ⟨rfl, .inr ⟨rfl, name, portStr, hname, hport, _, h, rfl⟩⟩
      · exact fun _ => returns_some.mpr ⟨rfl, .inl ⟨nofun, rfl⟩⟩

/-- An unexport request is refused, or deactivates the export of that name. -/
theorem handleUnexport_returns :
    Returns (fun o => o.opened = none ∧
      (o.reply.status ≠ .ok ∧ o.state = s ∨
        o.reply.status = .ok ∧ ∃ name i, getHdr (.lit "name") hs = some (some name) ∧
          findExport s (.ofBytes name) = some i ∧ o.state = s.deactivateExport i))
      (handleUnexport s hs) := by
  refine returns_bind fun name hname => ?_
  cases name with
  | none => exact returns_some.mpr ⟨rfl, .inl ⟨nofun, rfl⟩⟩
  | some name =>
    simp only
    cases hfind : findExport s (.ofBytes name) with
    | none => exact returns_some.mpr ⟨rfl, .inl ⟨nofun, rfl⟩⟩
    | some i => exact returns_some.mpr ⟨rfl, .inr ⟨rfl, name, i, hname, hfind, rfl⟩⟩

theorem handleMap_quiet : Returns (Quiet s) (handleMap host s hs) := by
  refine returns_bind fun node _ => returns_bind fun service _ => returns_bind fun listen _ => ?_
  split
  · apply returns_either (quiet_reply _)
    apply returns_either (quiet_reply _)
    apply returns_dite
    · exact fun _ => returns_either (returns_some.mpr ⟨rfl, rfl⟩) (quiet_reply _)
    · exact fun _ => quiet_reply _
  · exact quiet_reply _

theorem handleUnmap_quiet : Returns (Quiet s) (handleUnmap s hs) := by
  refine returns_bind fun listen _ => ?_
  cases listen with
  | none => exact quiet_reply _
  | some listen =>
    simp only
    cases findMapByPort s (atoi listen) with
    | none => exact quiet_reply _
    | some i => exact returns_some.mpr ⟨rfl, rfl⟩

theorem handleStreamClose_quiet : Returns (Quiet s) (handleStreamClose s hs) := by
  refine returns_bind fun sid _ => ?_
  cases sid with
  | none => exact quiet_reply _
  | some sid =>
    simp only
    cases findSession s (atoi sid) with
    | none => exact quiet_reply _
    | some i => exact returns_some.mpr ⟨rfl, rfl⟩

variable (msg : PortalMsg)

theorem handleStreamData_quiet :
    Returns (Quiet s) (handleStreamData host s msg) := by
  refine returns_bind fun sid _ => returns_bind fun action _ => ?_
  cases sid with
  | none => exact quiet_reply _
  | some sid =>
    simp only
    cases findSession s (atoi sid) with
    | none => exact quiet_reply _
    | some i => exact returns_some.mpr ⟨rfl, rfl⟩

theorem connectExported_exports {connected : UInt16 → Outcome}
    (h : ∀ p, (connected p).state.exports = s.exports) :
    Returns (fun o => o.state.exports = s.exports) (connectExported host s hs connected) := by
  refine returns_bind fun portStr _ => ?_
  cases portStr with
  | none => exact returns_some.mpr rfl
  | some portStr =>
    refine returns_branch ?_ (returns_branch ?_ (returns_some.mpr (h _)))
    · rfl
    · rfl

theorem handleStreamOpen_exports :
    Returns (fun o => o.state.exports = s.exports) (handleStreamOpen host s hs) := by
  apply connectExported_exports
  intro p
  split <;> rfl

theorem handleConnect_exports :
    Returns (fun o => o.state.exports = s.exports) (handleConnect host s msg) :=
  connectExported_exports fun _ => rfl

theorem connectExported_opened_iff {connected : UInt16 → Outcome} {p : UInt16} :
    (connectExported host s hs connected).bind Outcome.opened = some p ↔
      ∃ portStr, getHdr (.lit "port") hs = some (some portStr) ∧ s.Exported (atoi portStr) ∧
        host.reaches (sinPort (atoi portStr)) = true ∧ sinPort (atoi portStr) = p := by
  unfold connectExported
  cases hhdr : getHdr (.lit "port") hs with
  | none => simp
  | some portStr =>
    cases portStr with
    | none => simp [TunnelState.reply]
    | some portStr =>
      by_cases hexp : s.Exported (atoi portStr)
      · by_cases hreach : host.reaches (sinPort (atoi portStr)) = true
        · simp [(checkExported_iff s _).mpr hexp, hexp, hreach]
        · simp [(checkExported_iff s _).mpr hexp, hexp, hreach, TunnelState.reply]
      · have hcheck : checkExported s (atoi portStr) = false := by
          rw [← Bool.not_eq_true, checkExported_iff]
          exact hexp
        simp [hcheck, hexp, TunnelState.reply]

theorem handlePath_stream :
    handlePath host s msg functionsStream = handleStreamOpen host s msg.headerList := by
  iterate 7 apply (if_neg (lit_ne_lit (by decide +kernel))).trans
  exact if_pos rfl

theorem handlePath_connect :
    handlePath host s msg functionsConnect = handleConnect host s msg := by
  iterate 10 apply (if_neg (lit_ne_lit (by decide +kernel))).trans
  exact if_pos rfl

theorem handlePath_opened {path : CStr} (hs : path ≠ functionsStream)
    (hc : path ≠ functionsConnect) :
    Returns (fun o => o.opened = none) (handlePath host s msg path) := by
  refine returns_branch rfl ?_
  refine returns_branch rfl ?_
  refine returns_branch rfl ?_
  apply returns_either (handleExport_returns.mono fun _ h => h.1)
  apply returns_either (handleUnexport_returns.mono fun _ h => h.1)
  apply returns_either (handleMap_quiet.mono fun _ h => h.1)
  apply returns_either (handleUnmap_quiet.mono fun _ h => h.1)
  refine returns_ite (fun h => absurd h hs) fun _ => ?_
  apply returns_either ((handleStreamData_quiet msg).mono fun _ h => h.1)
  apply returns_either (handleStreamClose_quiet.mono fun _ h => h.1)
  exact returns_ite (fun h => absurd h hc) fun _ => returns_some.mpr rfl

theorem handlePath_exports {path : CStr} (he : path ≠ functionsExport)
    (hu : path ≠ functionsUnexport) :
    Returns (fun o => o.state.exports = s.exports) (handlePath host s msg path) := by
  refine returns_branch rfl ?_
  refine returns_branch rfl ?_
  refine returns_branch rfl ?_
  refine returns_ite (fun h => absurd h he) fun _ => ?_
  refine returns_ite (fun h => absurd h hu) fun _ => ?_
  apply returns_either (handleMap_quiet.mono fun _ h => h.2)
  apply returns_either (handleUnmap_quiet.mono fun _ h => h.2)
  apply returns_either handleStreamOpen_exports
  apply returns_either ((handleStreamData_quiet msg).mono fun _ h => h.2)
  apply returns_either (handleStreamClose_quiet.mono fun _ h => h.2)
  exact returns_either (handleConnect_exports msg) (returns_some.mpr rfl)

theorem portalModuleHandle_opened_iff (p : UInt16) :
    (portalModuleHandle host s msg).bind Outcome.opened = some p ↔
      ∃ path portStr, msg.path = some path ∧
        (ofBytes path = functionsStream ∨ ofBytes path = functionsConnect) ∧
        getHdr (.lit "port") msg.headerList = some (some portStr) ∧ s.Exported (atoi portStr) ∧
        host.reaches (sinPort (atoi portStr)) = true ∧ sinPort (atoi portStr) = p := by
  unfold portalModuleHandle
  cases msg.path with
  | none => simp
  | some path =>
    simp only [Option.bind_some, Option.some.injEq, exists_and_left, exists_eq_left']
    by_cases hstream : ofBytes path = functionsStream
    · rw [hstream, handlePath_stream, handleStreamOpen, connectExported_opened_iff]
      simp
    · by_cases hconnect : ofBytes path = functionsConnect
      · rw [hconnect, handlePath_connect, handleConnect, connectExported_opened_iff]
        simp
      · simp only [hstream, hconnect, or_self, false_and, iff_false]
        intro h
        obtain ⟨o, ho, hp⟩ := Option.bind_eq_some_iff.mp h
        rw [handlePath_opened msg hstream hconnect o ho] at hp
        cases hp

end Opened

section

variable (node : NodeView) (host : LocalHost) (s : TunnelState)

theorem openedFor_eq (frame : Bytes) :
    openedFor node host s false frame =
      match classify frame with
      | .pipe port => (startPipe host port).toList
      | .message msg => (openedBy node host s (.send (stamped node msg))).toList
      | _ => [] := by
  unfold openedFor onFrame
  rw [if_neg Bool.false_ne_true]
  have single : ∀ act, [act].filterMap (openedBy node host s)
      = (openedBy node host s act).toList := by
    intro act
    rw [filterMap_cons]
    cases openedBy node host s act <;> rfl
  cases classify frame with
  | pipe port => exact single (.startPipe port)
  | message msg => exact single (.send (stamped node msg))
  | shell rows cols | undecodable | crash | refused => rfl

theorem openedBy_send_iff (msg : PortalMsg) (p : UInt16) :
    openedBy node host s (.send msg) = some p ↔
      ∃ msg', apiSend node.inst node.nextId node.now msg = (.handle (.lit "tunnel"), msg') ∧
        (portalModuleHandle host s msg').bind Outcome.opened = some p := by
  rw [openedBy]
  generalize apiSend node.inst node.nextId node.now msg = sent
  obtain ⟨d, msg'⟩ := sent
  cases d with
  | handle modName =>
    by_cases hmod : modName = .lit "tunnel"
    · simp [hmod]
    · simp [hmod]
  | crash | notFound | forbidden | unavailable | coreHandle => simp

/-- A connection is opened for a frame exactly when it asks for one and the port can be
reached. -/
theorem mem_openedFor_iff (frame : Bytes) (p : UInt16) :
    p ∈ openedFor node host s false frame ↔
      ∃ msg port, decodeFrame frame = some msg ∧ Asks node s.Exported msg port ∧
        host.reaches (sinPort port) = true ∧ sinPort port = p := by
  rw [openedFor_eq, classify]
  cases hdec : decodeFrame frame with
  | none => simp
  | some msg =>
    simp only
    constructor
    · intro h
      cases hc : classifyMsg msg with
      | pipe port =>
        rw [hc] at h
        have hpipe : startPipe host port = some p := mem_toList.mp h
        unfold startPipe at hpipe
        split at hpipe
        · rename_i hreach
          exact ⟨msg, port, rfl, .pipe ((classifyMsg_eq_pipe_iff msg port).mp hc), hreach,
            Option.some.inj hpipe⟩
        · cases hpipe
      | message m =>
        obtain ⟨hpipe, hshell, rfl⟩ := (classifyMsg_eq_message_iff msg m).mp hc
        rw [hc] at h
        obtain ⟨msg', hsend, hopen⟩ :=
          (openedBy_send_iff node host s _ p).mp (mem_toList.mp h)
        obtain ⟨path, portStr, hpath, hfun, hport, hexp, hreach, hp⟩ :=
          (portalModuleHandle_opened_iff msg' p).mp hopen
        exact ⟨msg, _, rfl, .function hpipe hshell hsend hpath hfun hport rfl hexp, hreach, hp⟩
      | shell rows cols | undecodable | crash | refused => simp [hc] at h
    · rintro ⟨msg', port, hmsg, hasks, hreach, rfl⟩
      obtain rfl := Option.some.inj hmsg
      cases hasks with
      | pipe hpipe =>
        rw [(classifyMsg_eq_pipe_iff msg port).mpr hpipe]
        apply mem_toList.mpr
        rw [startPipe, if_pos hreach]
      | @function msg' path portStr hpipe hshell hsend hpath hfun hport hatoi hexp =>
        subst hatoi
        rw [(classifyMsg_eq_message_iff msg msg).mpr ⟨hpipe, hshell, rfl⟩]
        apply mem_toList.mpr
        apply (openedBy_send_iff node host s _ _).mpr
        refine ⟨msg', hsend, ?_⟩
        apply (portalModuleHandle_opened_iff msg' _).mpr
        exact ⟨path, portStr, hpath, hfun, hport, hexp, hreach, rfl⟩

end

/-! ### The table agrees with the answers -/

section Book

variable {host : LocalHost} {s : TunnelState} {msg : PortalMsg} {o : Outcome}

theorem exported_iff_activeExports {port : Int} :
    s.Exported port ↔ ∃ name, (name, port) ∈ s.activeExports := by
  simp only [TunnelState.Exported, TunnelState.activeExports, mem_map, mem_filter, Prod.mk.injEq]
  constructor
  · rintro ⟨e, hmem, hactive, rfl⟩
    exact ⟨e.name, e, ⟨hmem, hactive⟩, rfl, rfl⟩
  · rintro ⟨name, e, ⟨hmem, hactive⟩, -, rfl⟩
    exact ⟨e, hmem, hactive, rfl⟩

theorem activeExports_addExport (name : CStr) (port : Int) (proto : CStr)
    (h : s.exports.length < tunnelMaxExports) :
    (s.addExport name port proto h).activeExports
      = s.activeExports ++ [(name.truncate 63, port)] := by
  simp [TunnelState.activeExports, TunnelState.addExport]

/-- Deactivating the first active export of a name takes it off the list. -/
theorem activeExports_deactivate {name : CStr} {i : Nat} (h : findExport s name = some i) :
    (s.deactivateExport i).activeExports = s.activeExports.eraseP fun e => e.1 = name := by
  unfold findExport at h
  simp only [TunnelState.activeExports, TunnelState.deactivateExport]
  generalize s.exports = xs at h
  induction xs generalizing i with
  | nil => simp at h
  | cons e xs ih =>
    rw [findIdx?_cons] at h
    by_cases hhit : (e.active && decide (e.name = name)) = true
    · rw [if_pos hhit] at h
      obtain rfl := Option.some.inj h
      rw [Bool.and_eq_true, decide_eq_true_eq] at hhit
      simp [hhit.1, hhit.2]
    · rw [if_neg hhit] at h
      obtain ⟨j, hj, rfl⟩ := Option.map_eq_some_iff.mp h
      rw [modify_succ_cons]
      cases hactive : e.active with
      | false => simpa [filter_cons, hactive] using ih hj
      | true =>
        have hname : e.name ≠ name := by
          simpa [hactive] using hhit
        simpa [filter_cons, hactive, hname] using ih hj

theorem handlePath_export (host : LocalHost) (s : TunnelState) (msg : PortalMsg) :
    handlePath host s msg functionsExport = handleExport s msg.headerList := by
  iterate 3 apply (if_neg (lit_ne_lit (by decide +kernel))).trans
  exact if_pos rfl

theorem handlePath_unexport (host : LocalHost) (s : TunnelState) (msg : PortalMsg) :
    handlePath host s msg functionsUnexport = handleUnexport s msg.headerList := by
  iterate 4 apply (if_neg (lit_ne_lit (by decide +kernel))).trans
  exact if_pos rfl

theorem functionsExport_ne_functionsUnexport : functionsExport ≠ functionsUnexport :=
  lit_ne_lit (by decide +kernel)

theorem activeExports_handle (h : portalModuleHandle host s msg = some o) :
    o.state.activeExports = bookStep s.activeExports msg o.reply := by
  obtain ⟨path, hpath, h⟩ := Option.bind_eq_some_iff.mp h
  have hmap : msg.path.map ofBytes = some (ofBytes path) := by
    rw [hpath]
    rfl
  rw [bookStep, hmap]
  simp only [Option.some.injEq]
  by_cases he : ofBytes path = functionsExport
  · rw [he, handlePath_export] at h
    rcases (handleExport_returns o h).2 with
      ⟨hne, hs⟩ | ⟨hst, name, portStr, hname, hport, proto, hlt, hs⟩
    · simp [he, hne, functionsExport_ne_functionsUnexport, hs]
    · simp [he, hst, hname, hport, hs, activeExports_addExport]
  · by_cases hu : ofBytes path = functionsUnexport
    · rw [hu, handlePath_unexport] at h
      rcases (handleUnexport_returns o h).2 with ⟨hne, hs⟩ | ⟨hst, name, i, hname, hfind, hs⟩
      · simp [he, hne, hs]
      · simp [hu, hst, hname, hs, activeExports_deactivate hfind]
    · have hkeep := handlePath_exports msg he hu o h
      simp [he, hu, TunnelState.activeExports, hkeep]

end Book

/-- After any history of requests the active exports are those the answers tell. -/
theorem book_run (loadHost : LocalHost) (tunnelDir : CStr) (files : List SavedTunnel)
    (history : List (LocalHost × PortalMsg)) :
    (run tunnelStep (tunnelInit loadHost tunnelDir files) history).book
      = (run tunnelStep (tunnelInit loadHost tunnelDir files) history).state.activeExports := by
  have hstep : ∀ w r, w.book = w.state.activeExports →
      (tunnelStep w r).book = (tunnelStep w r).state.activeExports := by
    intro w r hw
    simp only [tunnelStep, requestStep]
    cases hh : portalModuleHandle r.1 w.state r.2 with
    | none => exact hw
    | some o =>
      simp only [Option.elim_some, hw]
      exact (activeExports_handle hh).symm
  exact run_invariant hstep rfl history

theorem exported_run_iff (loadHost : LocalHost) (tunnelDir : CStr) (files : List SavedTunnel)
    (history : List (LocalHost × PortalMsg)) (port : Int) :
    (run tunnelStep (tunnelInit loadHost tunnelDir files) history).Exported port ↔
      (run tunnelStep (tunnelInit loadHost tunnelDir files) history).state.Exported port := by
  rw [exported_iff_activeExports, TunnelWorld.Exported, book_run]

/-- After any history, the connections opened for a frame all go to exported ports exactly when it
answers a local request, or the low 16 bits of every number it asks for are exported, or cannot be
reached. -/
theorem openedFor_onlyExported_iff (loadHost : LocalHost) (tunnelDir : CStr)
    (files : List SavedTunnel) (history : List (LocalHost × PortalMsg)) (node : NodeView)
    (host : LocalHost) (pending : Bool) (frame : Bytes) :
    let w := run tunnelStep (tunnelInit loadHost tunnelDir files) history
    (∀ p ∈ openedFor node host w.state pending frame, w.Exported p.toNat) ↔
      pending = true ∨ ∀ msg port, decodeFrame frame = some msg → Asks node w.Exported msg port →
        host.reaches (sinPort port) = true → w.Exported (sinPort port).toNat := by
  intro w
  have hexported : w.state.Exported = w.Exported :=
    funext fun port => propext (exported_run_iff loadHost tunnelDir files history port).symm
  cases pending with
  | true => simp [openedFor, onFrame, openedBy]
  | false =>
    simp only [Bool.false_eq_true, false_or, mem_openedFor_iff, hexported]
    constructor
    · intro h msg port hdec hasks hreach
      exact h _ ⟨msg, port, hdec, hasks, hreach, rfl⟩
    · rintro h _ ⟨msg, port, hdec, hasks, hreach, rfl⟩
      exact h msg port hdec hasks hreach

def requestMsg (path : CStr) (headers : List (CStr × CStr)) : PortalMsg :=
  { PortalMsg.zero with
    path := some path.bytes
    headerCount := .ofNat headers.length
    headers := headers.map fun h => ⟨some h.1.bytes, some h.2.bytes⟩ }

def requestFrame (path : CStr) (key value : CStr) : Bytes :=
  writeU32 (22 + .ofNat (path.bytes.length + key.bytes.length + value.bytes.length)) ++
    writeU64 1 ++ writeU8 3 ++ writeStr path.bytes (.ofNat path.bytes.length) ++ writeU16 1 ++
    writeStr key.bytes (.ofNat key.bytes.length) ++
    writeStr value.bytes (.ofNat value.bytes.length) ++ writeU32 0 ++ writeU8 0

def openHost : LocalHost := ⟨true, fun _ => true, fun _ => true, fun _ => none, none⟩

/-- A node that knows the stream function of the module, and a peer without an identity. -/
def tunnelNode : NodeView where
  cfg := ⟨.lit "node", none⟩
  inst :=
    { paths := (portalPathRegister portalPathInit functionsStream (.lit "tunnel")).1
      modules := [⟨.lit "tunnel", true, false⟩]
      portalConfigGet := fun _ _ => none }
  srcPeer := some (NodePeer.fresh 0 (.lit "guest"))
  nextId := 1
  now := 1

def nothingExported : TunnelWorld := run tunnelStep (tunnelInit openHost (.lit "") []) []

def largeExported : TunnelWorld :=
  run tunnelStep (tunnelInit openHost (.lit "") [])
    [(openHost, requestMsg functionsExport
      [(.lit "name", .lit "ssh"), (.lit "port", .lit "65558")])]

/-- A pipe goes to port 22, although nothing was ever exported; and after an export of 65558, a
stream to that number goes to port 22 as well. -/
theorem openedFor_onlyExported_false :
    (openedFor tunnelNode openHost nothingExported.state false
        (requestFrame tunnelPipe (.lit "port") (.lit "22")) = [22] ∧
      ¬ nothingExported.Exported 22) ∧
    (openedFor tunnelNode openHost largeExported.state false
        (requestFrame functionsStream (.lit "port") (.lit "65558")) = [22] ∧
      ¬ largeExported.Exported 22) := by
  refine ⟨⟨?_, ?_⟩, ?_, ?_⟩
  · decide +kernel
  · rintro ⟨name, h⟩
    exact absurd h not_mem_nil
  · decide +kernel
  · rw [largeExported, exported_run_iff]
    decide +kernel

end Portal.Tunnel
