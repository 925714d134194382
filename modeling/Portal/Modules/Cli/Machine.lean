import Portal.Modules.Cli.Commands

/-!
The CLI server of `modules/mod_cli/mod_cli.c` as a state machine: the table of client records,
`on_new_connection`, `on_client_data`, `remove_client`, `editor_feed` and the timer of `top`.

While `send` waits for another node the event loop runs, so the callbacks that have begun are kept
on a stack (`Frame`). One event lets the uppermost go on by one byte, or hands it the reply that it
waits for; other events are possible only when it waits.

Connections are numbered in the order of their acceptance. The numbers, the owners of the records
and the log are bookkeeping that no step reads, but for the number beside a typed character.
-/

namespace Portal.Cli

def cliMaxClients : Nat := 16

/-- A callback that waits for a reply: the record it has a pointer to, what it will do, and
whether it is within `handle_command`. -/
structure Waiting where
  target : Option Nat
  pending : Pending
  inCommand : Bool
deriving DecidableEq

inductive Frame where
  | client (fd : Int) (slot conn : Nat) (rest : Bytes) (waiting : Option Waiting)
  | timer (next : Nat) (waiting : Bool)
deriving DecidableEq

def Frame.waits : Frame → Bool
  | .client _ _ _ _ waiting => waiting.isSome
  | .timer _ waiting => waiting

inductive LogEntry where
  | dispatched (conn : Nat) (sent : SentMsg)
  | loggedIn (conn : Nat)
  | loggedOut (conn : Nat)
deriving DecidableEq

/-- `conns` are the client descriptors in the event loop. -/
structure World where
  clients : List Client
  count : Nat
  conns : List (Int × Nat)
  frames : List Frame
  accepted : Nat
  owner : Nat → Option Nat
  log : List LogEntry

def cliInit : World where
  clients := List.replicate cliMaxClients .zero
  count := 0
  conns := []
  frames := []
  accepted := 0
  owner _ := none
  log := []

inductive CliEvent where
  | accept (fd : Int)
  | hangup (fd : Int)
  | data (fd : Int) (bytes : Bytes)  -- nothing at the end of the stream
  | timer
  | go (env : CliEnv)
  | reply (r : CliReply)
  | relayEnd (slot : Nat) (shellFd : Int)

namespace World

variable (w : World)

def idle : Bool := w.frames.head?.elim true Frame.waits

def setClient (i : Nat) (c : Client) : World := { w with clients := w.clients.set i c }

def modifyClient (i : Nat) (f : Client → Client) : World :=
  { w with clients := w.clients.modify i f }

def tell (e : LogEntry) : World := { w with log := w.log ++ [e] }

def push (f : Frame) (frames : List Frame) : World := { w with frames := f :: frames }

/-! ### The table -/

/-- `find_client`, as the index of the record. -/
def findClient (fd : Int) : Option Nat :=
  (w.clients.take w.count).findIdx? fun c => c.fd = fd && c.active

/-- `cmd_shell_exit`, without its output. -/
def closeShell (c : Client) : Client :=
  { c with shellFd := min c.shellFd (-1), shellPid := min c.shellPid 0, shellActive := false }

def closeFd (fd : Int) : World :=
  { w with
    clients := w.clients.map fun c => if c.fd = fd && c.shellActive then closeShell c else c
    conns := w.conns.filter fun x => x.1 ≠ fd }

/-- Everything else in the record stays. -/
def freeClient (c : Client) : Client := { c with active := false, topActive := false }

/-- The record is given back if it stands within the first `g_client_count`. -/
def removeClient (fd : Int) : World :=
  let w := w.closeFd fd
  match (w.clients.take w.count).findIdx? fun c => c.fd = fd with
  | none => w
  | some i => { w.modifyClient i freeClient with count := w.count - 1 }

def freeSlot : Option Nat := w.clients.findIdx? fun c => !c.active

def acceptedClient (fd : Int) (c : Client) : Client :=
  { c with fd, cwd := .lit "/", active := true, topActive := false }

def acceptInto (i : Nat) (fd : Int) : World :=
  { w.modifyClient i (acceptedClient fd) with
    count := w.count + 1
    conns := (fd, w.accepted) :: w.conns
    accepted := w.accepted + 1
    owner := Function.update w.owner i (some w.accepted) }

def onNewConnection (fd : Int) : World :=
  if cliMaxClients ≤ w.count then w
  else w.freeSlot.elim w fun i => w.acceptInto i fd

def onClientData (fd : Int) (conn : Nat) (bytes : Bytes) : World :=
  match w.findClient fd with
  | none => w.removeClient fd
  | some i =>
    if bytes = [] then w.removeClient fd
    else if 12 ≤ bytes.length ∧ (CStr.lit "__winsize ").bytes <+: bytes then
      let first := bytes.takeWhile (· ≠ 10)
      let w := w.modifyClient i fun c =>
        setWinsize c (((bytes.take (first.length + 1)).take 63).drop 10)
      w.push (.client fd i conn (bytes.drop (first.length + 1)) none) w.frames
    else w.push (.client fd i conn bytes none) w.frames

end World

/-! ### One byte -/

inductive FeedAction where
  | none
  | render
  | complete
  | submit

def feedTop (c : Client) (b : UInt8) : Client × FeedAction :=
  let esc := fun n => { c with editor := { c.editor with escState := n } }
  let scroll := fun (c : Client) (d : Int) =>
    ({ c with topScroll := c.topScroll + d }, FeedAction.render)
  if c.editor.escState = 1 ∧ b = 91 then (esc 2, .none)
  else if c.editor.escState = 2 then
    if b = 65 then scroll (esc 0) (-1)
    else if b = 66 then scroll (esc 0) 1
    else if b = 53 ∨ b = 54 then (esc 3, .none)
    else (esc 0, .none)
  else if c.editor.escState = 3 then (esc 0, .none)
  else if b = 113 ∨ b = 81 ∨ b = 3 then ({ c with topActive := false }, .none)
  else if b = 27 then (esc 1, .none)
  else if b = 107 then scroll c (-1)
  else if b = 106 then scroll c 1
  else (c, .none)

/-- `editor_feed`, up to the completion or the command. -/
def editorFeed (conn : Nat) (c : Client) (b : UInt8) : Client × FeedAction :=
  if c.shellActive then (if b = 29 then World.closeShell c else c, .none)
  else if c.topActive then feedTop c b
  else
    match c.editor.feedKey conn b with
    | (ed, .none) => ({ c with editor := ed }, .none)
    | (ed, .complete) => ({ c with editor := ed }, .complete)
    | (ed, .submit) => ({ c with editor := ed }, .submit)

def LineEditor.trimEnd (ed : LineEditor) : LineEditor :=
  let text := cellText ed.line
  let kept := (text.reverse.dropWhile fun c => c.byte = 10 ∨ c.byte = 13 ∨ c.byte = space).length
  { ed with
    line := ed.line.mapIdx fun i c => if kept ≤ i ∧ i < text.length then .nul else c
    size := List.length_mapIdx.trans ed.size }

namespace World

variable (w : World)

/-- The record of a slot; there are always sixteen. -/
def client (i : Nat) : Client := w.clients.getD i .zero

structure Running where
  fd : Int
  slot : Nat
  conn : Nat
  rest : Bytes
  below : List Frame

def proceed (f : Running) : World := w.push (.client f.fd f.slot f.conn f.rest none) f.below

def await (f : Running) (sent : SentMsg) (waiting : Waiting) : World :=
  (w.tell (.dispatched f.conn sent)).push
    (.client f.fd f.slot f.conn f.rest (some waiting)) f.below

def leaveCommand (f : Running) : World :=
  (w.modifyClient f.slot fun c => { c with editor := c.editor.submitted }).proceed f

/-- What a command does next: `target` is the record it works on. -/
def afterCommand (f : Running) (target : Option Nat) : Next → World
  | .done => w.leaveCommand f
  | .await sent pending => w.await f sent ⟨target, pending, true⟩
  | .foreign 0 => w.leaveCommand f
  | .foreign (sends + 1) =>
    w.push (.client f.fd f.slot f.conn f.rest (some ⟨target, .foreign sends, true⟩)) f.below
  | .quit => (w.removeClient f.fd).leaveCommand f

def store (target : Option Nat) (c : Option Client) : World :=
  match target, c with
  | some i, some c => w.setClient i c
  | _, _ => w

/-- The line of the editor is handed to `handle_command`. -/
def submit (f : Running) (env : CliEnv) : World :=
  let line := CStr.ofBytes (cellBytes (cellText (w.client f.slot).editor.line))
  let w := w.modifyClient f.slot fun c => { c with editor := c.editor.trimEnd }
  let target := w.findClient f.fd
  let step := handleCommand env f.fd (target.map w.client) line
  (w.store target step.1).afterCommand f target step.2

def completeWith (f : Running) : TabStep → World
  | .insert text last =>
    (w.modifyClient f.slot fun c => { c with editor := insertText c.editor text last }).proceed f
  | .ask msg query => w.await f (unsigned msg) ⟨some f.slot, .tab query, false⟩

def feed (f : Running) (env : CliEnv) (b : UInt8) : World :=
  let step := editorFeed f.conn (w.client f.slot) b
  let w := w.setClient f.slot step.1
  match step.2 with
  | .none => w.proceed f
  | .render => w.await f (unsigned topMsg) ⟨some f.slot, .render, false⟩
  | .complete =>
    let w := w.modifyClient f.slot fun c => { c with editor := c.editor.terminate }
    let c := w.client f.slot
    w.completeWith f (tabComplete c.cwd env.cliWords c.editor)
  | .submit => w.submit f env

def tellReply (conn : Nat) (pending : Pending) (r : CliReply) : World :=
  match pending with
  | .login _ => if (loginGranted r).isSome then w.tell (.loggedIn conn) else w
  | .logout => w.tell (.loggedOut conn)
  | _ => w

def resume (f : Running) (waiting : Waiting) (r : CliReply) : World :=
  match waiting.pending with
  | .tab query => w.completeWith f (tabReply (w.client f.slot).editor.line query r)
  | .foreign sends => w.afterCommand f waiting.target (.foreign sends)
  | pending =>
    match waiting.target with
    | none => w.leaveCommand f
    | some i =>
      let arg := CStr.ofBytes (cellBytes (cellText ((w.client f.slot).editor.line.drop 3)))
      let step := resumeCommand pending (w.client i) arg r
      let w := (w.setClient i step.1).tellReply f.conn pending r
      if waiting.inCommand then w.afterCommand f (some i) step.2 else w.proceed f

/-- The timer comes to record `next`. -/
def timerStep (next : Nat) (below : List Frame) : World :=
  if cliMaxClients ≤ next then { w with frames := below }
  else
    let c := w.client next
    if c.active && c.topActive then
      let w := (w.owner next).elim w fun conn => w.tell (.dispatched conn (unsigned topMsg))
      w.push (.timer next true) below
    else w.push (.timer (next + 1) false) below

end World

def cliStep (w : World) : CliEvent → World
  | .accept fd =>
    if w.idle ∧ (w.conns.lookup fd).isNone then w.onNewConnection fd else w
  | .hangup fd =>
    if w.idle ∧ (w.conns.lookup fd).isSome then w.removeClient fd else w
  | .data fd bytes =>
    if w.idle then (w.conns.lookup fd).elim w fun conn => w.onClientData fd conn bytes else w
  | .timer => if w.idle then w.push (.timer 0 false) w.frames else w
  | .go env =>
    match w.frames with
    | .client fd slot conn (b :: rest) none :: below => w.feed ⟨fd, slot, conn, rest, below⟩ env b
    | .client _ _ _ [] none :: below => { w with frames := below }
    | .timer next false :: below => w.timerStep next below
    | _ => w
  | .reply r =>
    match w.frames with
    | .client fd slot conn rest (some waiting) :: below =>
      w.resume ⟨fd, slot, conn, rest, below⟩ waiting r
    | .timer next true :: below =>
      (w.modifyClient next fun c => clampScroll c r).push (.timer (next + 1) false) below
    | _ => w
  | .relayEnd slot shellFd =>
    w.modifyClient slot fun c =>
      if c.active && c.shellActive && c.shellFd = shellFd then World.closeShell c else c

end Portal.Cli
