import Portal.Modules.Cli.Complete

/-!
The commands of `modules/mod_cli/mod_cli.c`: `handle_command` and the `cmd_*` functions, without
what they print. `handleCommand` is the part before the message of a command and `resumeCommand`
the part after its reply. Whatever of the record's user name and token goes into a message is
listed beside it (`Identity`).
-/

namespace Portal.Cli

/-- `cli_client_t`, without the thread handle and the settings of `top` that nothing reads. -/
structure Client where
  fd : Int
  cwd : CStr
  token : CStr
  username : CStr
  active : Bool
  topActive : Bool
  topScroll : Int
  shellActive : Bool
  shellFd : Int
  shellPid : Int
  termRows : Int
  termCols : Int
  editor : LineEditor
deriving DecidableEq

def Client.zero : Client where
  fd := 0
  cwd := .lit ""
  token := .lit ""
  username := .lit ""
  active := false
  topActive := false
  topScroll := 0
  shellActive := false
  shellFd := 0
  shellPid := 0
  termRows := 0
  termCols := 0
  editor := .zero

structure Identity where
  user : Option CStr
  token : Option CStr
deriving DecidableEq

def Identity.nobody : Identity := ⟨none, none⟩

abbrev SentMsg := PortalMsg × Identity

def unsigned (msg : PortalMsg) : SentMsg := (msg, .nobody)

def present (s : CStr) : Option CStr := if s.bytes = [] then none else some s

def identityCtx (who : Identity) : PortalCtx :=
  { PortalCtx.zero with auth := ⟨who.user.map CStr.bytes, who.token.map CStr.bytes, .empty⟩ }

def cliAttachAuth (c : Option Client) (msg : PortalMsg) : SentMsg :=
  match c with
  | none => unsigned msg
  | some c =>
    if c.token.bytes = [] then unsigned msg
    else
      let who : Identity := ⟨some c.username, some c.token⟩
      ({ msg with ctx := some (identityCtx who) }, who)

def addToken (c : Client) (msg : PortalMsg) : SentMsg :=
  match present c.token with
  | none => unsigned msg
  | some token => ((portalMsgAddHeader msg (.lit "token") token).1, ⟨none, some token⟩)

/-- The user name as the caller, unless it is empty, and the token if it is wanted. -/
def addUser (c : Client) (withToken : Bool) (msg : PortalMsg) : SentMsg :=
  match present c.username with
  | none => unsigned msg
  | some user =>
    let who : Identity := ⟨some user, if withToken then present c.token else none⟩
    ({ msg with ctx := some (identityCtx who) }, who)

/-- The commands that `portal_cli_find` may return: those of `mod_cli`, or of another module,
which sends some messages itself. -/
inductive CliHandler where
  | configGet
  | configSet
  | configList
  | foreign (sends : Nat)
deriving DecidableEq

/-- The command registry, the result of `forkpty` (descriptor and process), and what an array
on the stack holds before it is written. -/
structure CliEnv where
  cliFind : CStr → Option (CliHandler × CStr)
  cliWords : List CStr
  forkpty : Option (Int × Int)
  stack : CStr

inductive Pending where
  | done
  | login (user : CStr)
  | logout
  | cd
  | ls (fromArg : Bool)
  | shell
  | render
  | tab (query : TabQuery)
  | foreign (sends : Nat)
deriving DecidableEq

inductive Next where
  | done
  | await (sent : SentMsg) (pending : Pending)
  | foreign (sends : Nat)
  | quit

def Next.tell (sent : SentMsg) : Next := .await sent .done

/-- The record that `find_client` returned, as the command leaves it, and what it does next. -/
abbrev CommandStep := Option Client × Next

/-! ### Reading resources -/

/-- Blanks and slashes at the end go, but for a first character. -/
def trimPath : Nat → CStr → CStr
  | 0, s => s
  | n + 1, s =>
    if 1 < s.bytes.length ∧ (s.bytes.getLast? = some space ∨ s.bytes.getLast? = some slash) then
      trimPath n (s.truncate (s.bytes.length - 1))
    else s

/-- `key=value` pairs; a part without `=` is skipped. -/
def queryHeaders (query : CStr) : List (CStr × CStr) :=
  (((query.truncate 1023).bytes.splitOn 38).filter (· ≠ [])).filterMap fun pair =>
    if 61 ∈ pair then
      some (.ofBytes (pair.takeWhile (· ≠ 61)), .ofBytes ((pair.dropWhile (· ≠ 61)).drop 1))
    else none

section Handlers

variable (env : CliEnv) (fd : Int) (c : Option Client)

def coreGet (path : CStr) : SentMsg :=
  let clean := path.truncate (portalMaxPathLen - 1)
  let clean := trimPath clean.bytes.length clean
  match clean.bytes.idxOf? 63 with
  | none => cliAttachAuth c (newMsg clean portalMethodGet [])
  | some n =>
    cliAttachAuth c (newMsg (clean.truncate n) portalMethodCall
      (queryHeaders (clean.drop (n + 1))))

def fromCwd (target : CStr) : CStr :=
  match c with
  | some c =>
    if c.cwd = .lit "/" then ((CStr.lit "/").append target).truncate 2047
    else (CStr.concat [c.cwd, .lit "/", target]).truncate 2047
  | none => ((CStr.lit "/").append target).truncate 2047

/-- The listing asked for; with no record there is nothing to do. -/
def cmdLs (arg : CStr) : CommandStep :=
  match c with
  | none => (none, .done)
  | some r =>
    let pre := if arg.bytes = [] then r.cwd else arg
    if pre.bytes.head? = some slash ∧ 1 < pre.bytes.length then
      let (node, rest) := (remoteNode pre).getD (env.stack, .lit "/")
      (c, .await (unsigned (remoteLs node rest)) (.ls (arg.bytes ≠ [])))
    else (c, .tell (unsigned (localLs pre)))

def cmdCd (target : CStr) : CommandStep :=
  match c with
  | none => (none, .done)
  | some r =>
    (c, .await (unsigned (newMsg (.lit "/core/resolve") portalMethodGet
      [(.lit "cwd", r.cwd), (.lit "target", target)])) .cd)

/-! ### Sessions -/

def cmdLogin (args : CStr) : CommandStep :=
  match c, scanWord 63 args.bytes with
  | some _, some (user, rest) =>
    let pass := ((scanWord 127 rest).map Prod.fst).getD (.lit "")
    (c, .await (unsigned (newMsg (.lit "/auth/login") portalMethodCall
      [(.lit "username", user), (.lit "password", pass)])) (.login user))
  | _, _ => (c, .done)

def cmdLogout : CommandStep :=
  match c with
  | none => (none, .done)
  | some r =>
    if r.token.bytes = [] then (c, .done)
    else (c, .await (addToken r (newMsg (.lit "/auth/logout") portalMethodCall [])) .logout)

def askWithToken (path : CStr) (method : UInt8) : CommandStep :=
  match c with
  | none => (none, .done)
  | some r => (c, .tell (addToken r (newMsg path method [])))

def ownName : Option CStr := c.bind fun r => present r.username

def cmdPasswd (password : CStr) : CommandStep :=
  match ownName c with
  | none => (c, .done)
  | some user =>
    (c, .tell (newMsg ((CStr.concat [.lit "/users/", user, .lit "/password"]).truncate 255)
      portalMethodCall [(.lit "password", password)], ⟨some user, none⟩))

/-- `lock` and `unlock`: the owner is the user at this descriptor. -/
def cmdLock (path resource : CStr) : CommandStep :=
  let user := ownName c
  let owner := (CStr.concat [user.getD (.lit "?"), .lit "@cli:", .ofInt fd]).truncate 127
  (c, .tell (newMsg path portalMethodCall [(.lit "resource", resource), (.lit "owner", owner)],
    ⟨user, none⟩))

def cmdSubscribe (path : CStr) : CommandStep :=
  match c with
  | none => (none, .done)
  | some r =>
    (c, .tell (addUser r true (newMsg path portalMethodSub
      [(.lit "notify_fd", (CStr.ofInt fd).truncate 15)])))

def cmdUnsubscribe (path : CStr) : CommandStep :=
  match c with
  | none => (none, .done)
  | some r => (c, .tell (addUser r false (newMsg path portalMethodUnsub [])))

def administer (path : List CStr) (method : UInt8) (headers : List (CStr × CStr)) : CommandStep :=
  (c, .tell (unsigned (newMsg ((CStr.concat path).truncate 255) method headers)))

def cmdModule (name action : CStr) : CommandStep :=
  administer c [.lit "/core/modules/", name] portalMethodCall [(.lit "action", action)]

/-- `sscanf(args, "%63s %ns", …)`, the arrays being zeroed before. -/
def twoWords (n : Nat) (args : CStr) : CStr × CStr :=
  match scanWord 63 args.bytes with
  | none => (.lit "", .lit "")
  | some (first, rest) => (first, ((scanWord n rest).map Prod.fst).getD (.lit ""))

/-! ### `top`, shells and the rest -/

def topMsg : PortalMsg := newMsg (.lit "/process/resources/portal_top") portalMethodGet []

def cmdTopEnter : CommandStep :=
  match c with
  | none => (none, .done)
  | some r => (some { r with topActive := true, topScroll := 0 }, .await (unsigned topMsg) .render)

def openShell (r : Client) (fd pid : Int) : Client :=
  if 0 ≤ fd then { r with shellActive := true, shellFd := fd, shellPid := pid } else r

def cmdShell (peer : CStr) : CommandStep :=
  match c with
  | none => (none, .done)
  | some r =>
    let (rows, cols) : Int × Int :=
      if r.termRows ≤ 0 ∨ r.termCols ≤ 0 then (24, 80) else (r.termRows, r.termCols)
    if peer.bytes ≠ [] then
      (c, .await (cliAttachAuth c (newMsg (.lit "/shell/functions/open_remote") portalMethodCall
        [(.lit "peer", peer), (.lit "rows", (CStr.ofInt rows).truncate 15),
          (.lit "cols", (CStr.ofInt cols).truncate 15)])) .shell)
    else
      match env.forkpty with
      | none => (c, .done)
      | some (fd, pid) => (some (openShell r fd pid), .done)

/-- `%d`, skipping blanks: the number and what follows it. -/
def scanInt (s : Bytes) : Option (Int × Bytes) :=
  let s := s.dropWhile isSpace
  let sign := (s.takeWhile fun b => b = 45 || b = 43).take 1
  let digits := (s.drop sign.length).takeWhile isDigit
  if digits = [] then none
  else some (atoi (sign ++ digits), s.drop (sign.length + digits.length))

def setWinsize (r : Client) (text : Bytes) : Client :=
  let (rows, rest) := (scanInt text).getD (0, [])
  let (cols, _) := (scanInt rest).getD (0, [])
  { r with
    termRows := if 0 < rows ∧ rows < 1000 then rows else r.termRows
    termCols := if 0 < cols ∧ cols < 1000 then cols else r.termCols }

def cwdShortcuts : List (CStr × CStr) :=
  [(.lit "sysinfo", .lit "sysinfo/resources/all"), (.lit "uptime", .lit "sysinfo/resources/os"),
    (.lit "health", .lit "health/resources/checks"),
    (.lit "metrics", .lit "metrics/resources/system")]

def cliConfigGet (args : CStr) : CommandStep :=
  match scanWord 63 args.bytes with
  | none => (c, .done)
  | some (mod, rest) =>
    match scanWord 255 rest with
    | none => (c, .done)
    | some (key, _) =>
      (c, .tell (unsigned (newMsg (.lit "/core/config/get") portalMethodGet
        [(.lit "module", mod), (.lit "key", key)])))

def cliConfigSet (args : CStr) : CommandStep :=
  match scanWord 63 args.bytes with
  | none => (c, .done)
  | some (mod, rest) =>
    match scanWord 255 rest with
    | none => (c, .done)
    | some (key, rest) =>
      let value := ((rest.dropWhile isSpace).takeWhile (· ≠ 10)).take 4095
      if value = [] then (c, .done)
      else
        (c, .tell (unsigned (newMsg (.lit "/core/config/set") portalMethodCall
          [(.lit "module", mod), (.lit "key", key), (.lit "value", .ofBytes value)])))

def cliConfigList (args : CStr) : CommandStep :=
  (c, .tell (unsigned (newMsg (.lit "/core/config/list") portalMethodGet
    (if args.bytes = [] then [] else [(.lit "module", args)]))))

/-- A line that is no command of its own: a shortcut in the working directory, or a registered
command. -/
def cmdOther (line : CStr) : CommandStep :=
  let shortcut := (c.filter fun r => r.cwd.bytes ≠ [] ∧ r.cwd ≠ .lit "/").bind fun r =>
    (cwdShortcuts.find? fun s => s.1 = line).map fun s =>
      (CStr.concat [r.cwd, .lit "/", s.2]).truncate 2047
  match shortcut with
  | some path => (c, .tell (coreGet c path))
  | none =>
    match env.cliFind line with
    | some (.configGet, args) => cliConfigGet c args
    | some (.configSet, args) => cliConfigSet c args
    | some (.configList, args) => cliConfigList c args
    | some (.foreign sends, _) => (c, .foreign sends)
    | none => (c, .done)

end Handlers

/-! ### `handle_command` -/

/-- How a line is tested: `strcmp` with a word, or `strncmp` with a prefix. -/
inductive Pattern where
  | word (text : CStr)
  | args (start : CStr)

def Pattern.arg (line : CStr) : Pattern → Option CStr
  | .word text => if line = text then some (.lit "") else none
  | .args start => afterPrefix start line

abbrev CommandRow := Pattern × (CStr → CommandStep)

section Table

variable (env : CliEnv) (fd : Int) (c : Option Client)

def rowPrint (pattern : Pattern) : CommandRow := (pattern, fun _ => (c, .done))

def rowGet (word path : CStr) : CommandRow := (.word word, fun _ => (c, .tell (coreGet c path)))

def basicCommands : List CommandRow :=
  [rowPrint c (.word (.lit "help")),
    rowPrint c (.word (.lit "?")),
    rowPrint c (.args (.lit "help ")),
    rowGet c (.lit "status") (.lit "/core/status"),
    rowPrint c (.word (.lit "version")),
    rowPrint c (.word (.lit "pwd")),
    (.word (.lit "cd"), fun _ => cmdCd c (.lit "/")),
    (.args (.lit "cd "), cmdCd c),
    (.word (.lit "ls"), fun _ => cmdLs env c (.lit "")),
    (.args (.lit "ls "), cmdLs env c),
    (.args (.lit "login "), cmdLogin c),
    rowPrint c (.word (.lit "login")),
    (.word (.lit "logout"), fun _ => cmdLogout c),
    (.word (.lit "whoami"), fun _ => askWithToken c (.lit "/auth/whoami") portalMethodGet)]

def coreCommands : List CommandRow :=
  [rowGet c (.lit "module list") (.lit "/core/modules"),
    (.args (.lit "module load "), fun name => cmdModule c name (.lit "load")),
    (.args (.lit "module unload "), fun name =>
      if name = .lit "cli" then (c, .done) else cmdModule c name (.lit "unload")),
    (.args (.lit "module reload "), fun name => cmdModule c name (.lit "reload")),
    rowGet c (.lit "path list") (.lit "/core/paths"),
    (.args (.lit "get "), fun target =>
      let target := CStr.ofBytes (target.bytes.dropWhile (· = space))
      (c, .tell (coreGet c
        (if target.bytes.head? = some slash then target else fromCwd c target)))),
    rowGet c (.lit "storage") (.lit "/core/storage"),
    rowGet c (.lit "events") (.lit "/events"),
    rowGet c (.lit "locks") (.lit "/core/locks"),
    (.args (.lit "locks "), fun resource =>
      administer c [.lit "/core/locks"] portalMethodGet [(.lit "resource", resource)]),
    (.args (.lit "lock "), cmdLock fd c (.lit "/core/locks/lock")),
    (.args (.lit "unlock "), cmdLock fd c (.lit "/core/locks/unlock"))]

def sessionCommands : List CommandRow :=
  [(.word (.lit "top"), fun _ => cmdTopEnter c),
    rowPrint c (.args (.lit "verbose")),
    rowPrint c (.args (.lit "debug")),
    (.args (.lit "subscribe "), cmdSubscribe fd c),
    (.args (.lit "unsubscribe "), cmdUnsubscribe c),
    (.args (.lit "passwd "), cmdPasswd c),
    (.word (.lit "key"), fun _ => askWithToken c (.lit "/auth/key") portalMethodGet),
    (.word (.lit "key rotate"), fun _ =>
      askWithToken c (.lit "/auth/key/rotate") portalMethodCall)]

def userCommands : List CommandRow :=
  [rowGet c (.lit "user list") (.lit "/users"),
    (.args (.lit "user info "), fun name =>
      (c, .tell (coreGet c (((CStr.lit "/users/").append name).truncate 255)))),
    (.args (.lit "user create "), fun args =>
      administer c [.lit "/users/", (twoWords 127 args).1] portalMethodSet
        [(.lit "password", (twoWords 127 args).2)]),
    (.args (.lit "user passwd "), fun args =>
      administer c [.lit "/users/", (twoWords 127 args).1, .lit "/password"] portalMethodCall
        [(.lit "password", (twoWords 127 args).2)]),
    rowGet c (.lit "group list") (.lit "/groups"),
    (.args (.lit "group info "), fun name =>
      (c, .tell (coreGet c (((CStr.lit "/groups/").append name).truncate 255)))),
    (.args (.lit "group create "), fun name =>
      administer c [.lit "/groups/", name] portalMethodSet []),
    (.args (.lit "group adduser "), fun args =>
      administer c [.lit "/groups/", (twoWords 63 args).1, .lit "/add"] portalMethodCall
        [(.lit "user", (twoWords 63 args).2)]),
    (.args (.lit "group deluser "), fun args =>
      administer c [.lit "/groups/", (twoWords 63 args).1, .lit "/remove"] portalMethodCall
        [(.lit "user", (twoWords 63 args).2)])]

def shellCommands : List CommandRow :=
  [(.word (.lit "shell"), fun _ => cmdShell env c (.lit "")),
    (.args (.lit "shell "), cmdShell env c),
    (.word (.lit "quit"), fun _ => (c, .quit)),
    (.word (.lit "exit"), fun _ => (c, .quit))]

/-- The tests of `handle_command`, in their order. -/
def commandTable : List CommandRow :=
  basicCommands env c ++ coreCommands fd c ++ sessionCommands fd c ++ userCommands c ++
    shellCommands env c

end Table

def trimmedLength (line : Bytes) : Nat :=
  (line.reverse.dropWhile fun b => b = 10 ∨ b = 13 ∨ b = space).length

/-- `c` is what `find_client(fd)` returns. -/
def handleCommand (env : CliEnv) (fd : Int) (c : Option Client) (line : CStr) : CommandStep :=
  let line := line.truncate (trimmedLength line.bytes)
  if line.bytes = [] then (c, .done)
  else if let some size := afterPrefix (.lit "__winsize ") line then
    (c.map fun r => setWinsize r size.bytes, .done)
  else
    ((commandTable env fd c).findSome? fun row => (row.1.arg line).map row.2).getD
      (cmdOther env c line)

/-! ### After the reply -/

def loginGranted (r : CliReply) : Option CStr :=
  if r.rc = 0 ∧ r.status = .ok then
    r.body.map fun body =>
      let token := CStr.ofBytes body
      if token.bytes.getLast? = some 10 then token.truncate (token.bytes.length - 1) else token
  else none

def clampScroll (c : Client) (reply : CliReply) : Client :=
  match reply.body with
  | none => c
  | some [] => c
  | some body =>
    let rows := if 0 < c.termRows then c.termRows else 24
    let visible := max (rows - 2) 1
    let maxScroll := max ((body.count 10 : Int) - visible) 0
    { c with topScroll := max (min c.topScroll maxScroll) 0 }

/-- The rest of a command: `c` is the record it works on, `arg` what now stands in the line
where its argument was. -/
def resumeCommand (pending : Pending) (c : Client) (arg : CStr) (reply : CliReply) :
    Client × Next :=
  match pending with
  | .login user =>
    match loginGranted reply with
    | some token => ({ c with token := token.truncate 63, username := user.truncate 63 }, .done)
    | none => (c, .done)
  | .logout => ({ c with token := .lit "", username := .lit "" }, .done)
  | .cd =>
    match reply.status, reply.body with
    | .ok, some body =>
      ({ c with cwd := (CStr.ofBytes body).truncate (portalMaxPathLen - 1) }, .done)
    | _, _ => (c, .done)
  | .ls fromArg =>
    if reply.rc = 0 ∧ (reply.body.getD []).length ≠ 0 then (c, .done)
    else (c, .tell (unsigned (localLs (if fromArg then arg else c.cwd))))
  | .shell =>
    match reply.status, reply.body with
    | .ok, some (b :: body) => (openShell c (atoi (b :: body)) 0, .done)
    | _, _ => (c, .done)
  | .render => (clampScroll c reply, .done)
  | .done => (c, .done)
  | .tab _ | .foreign _ => (c, .done)

/-! ### What commands do to a record, and what their messages carry -/

/-- Descriptor, session and text of the record are as they were. -/
structure SameClient (r r' : Client) : Prop where
  fd : r'.fd = r.fd
  active : r'.active = r.active
  token : r'.token = r.token
  username : r'.username = r.username
  editor : r'.editor = r.editor

theorem SameClient.refl (r : Client) : SameClient r r := ⟨rfl, rfl, rfl, rfl, rfl⟩

def Client.HasSession (r : Client) : Prop := r.token.bytes ≠ [] ∨ r.username.bytes ≠ []

def SpeaksFor (sent : SentMsg) : Prop := sent.2 ≠ .nobody ∨ sent.1.ctx ≠ none

def Signs (c : Option Client) (sent : SentMsg) : Prop :=
  SpeaksFor sent → ∃ r, c = some r ∧ r.HasSession

/-- A command changes nothing of its record that is somebody's, and speaks only for the
record's user. -/
structure CommandOk (c : Option Client) (step : CommandStep) : Prop where
  record : ∀ r', step.1 = some r' → ∃ r, c = some r ∧ SameClient r r'
  signed : ∀ sent pending, step.2 = .await sent pending → Signs c sent

theorem present_eq_some {s t : CStr} (h : present s = some t) : s.bytes ≠ [] := by
  intro hempty
  rw [present, if_pos hempty] at h
  cases h

section Signs

variable {c : Option Client} {r : Client} {path : CStr} {method : UInt8}
  {headers : List (CStr × CStr)}

theorem signs_nobody {msg : PortalMsg} (h : msg.ctx = none) : Signs c (unsigned msg) := by
  rintro (hwho | hctx)
  · exact absurd rfl hwho
  · exact absurd h hctx

theorem signs_new : Signs c (unsigned (newMsg path method headers)) :=
  signs_nobody (ctx_newMsg path method headers)

theorem not_speaksFor_new (path : CStr) (method : UInt8) (headers : List (CStr × CStr)) :
    ¬ SpeaksFor (unsigned (newMsg path method headers)) := by
  intro hspeaks
  obtain ⟨_, hnone, -⟩ := (signs_new : Signs none _) hspeaks
  cases hnone

theorem signs_attach : Signs c (cliAttachAuth c (newMsg path method headers)) := by
  cases c with
  | none => exact signs_new
  | some r =>
    unfold cliAttachAuth
    simp only
    split
    · exact signs_new
    · rename_i htoken
      exact fun _ => ⟨r, rfl, .inl htoken⟩

theorem signs_addToken : Signs (some r) (addToken r (newMsg path method headers)) := by
  unfold addToken
  split
  · exact signs_new
  · rename_i htoken
    exact fun _ => ⟨r, rfl, .inl (present_eq_some htoken)⟩

theorem signs_addUser {withToken : Bool} :
    Signs (some r) (addUser r withToken (newMsg path method headers)) := by
  unfold addUser
  split
  · exact signs_new
  · rename_i huser
    exact fun _ => ⟨r, rfl, .inr (present_eq_some huser)⟩

theorem signs_ownName {user : CStr} (h : ownName c = some user) (sent : SentMsg) :
    Signs c sent := by
  obtain ⟨r, rfl, huser⟩ := Option.bind_eq_some_iff.mp h
  exact fun _ => ⟨r, rfl, .inr (present_eq_some huser)⟩

theorem signs_coreGet : Signs c (coreGet c path) := by
  unfold coreGet
  simp only
  split <;> exact signs_attach

end Signs

section Commands

variable {env : CliEnv} {fd : Int} {c : Option Client} {path : CStr}

theorem commandOk_same {next : Next}
    (h : ∀ sent pending, next = .await sent pending → Signs c sent) :
    CommandOk c (c, next) where
  record r' hr' := ⟨r', hr', .refl r'⟩
  signed := h

theorem commandOk_done : CommandOk c (c, .done) := by
  apply commandOk_same
  intro sent pending h
  cases h

theorem commandOk_quit : CommandOk c (c, .quit) := by
  apply commandOk_same
  intro sent pending h
  cases h

theorem commandOk_await {sent : SentMsg} {pending : Pending} (h : Signs c sent) :
    CommandOk c (c, .await sent pending) := by
  apply commandOk_same
  intro sent' pending' heq
  cases heq
  exact h

theorem commandOk_tell {sent : SentMsg} (h : Signs c sent) : CommandOk c (c, .tell sent) :=
  commandOk_await h

theorem commandOk_get : CommandOk c (c, .tell (coreGet c path)) :=
  commandOk_tell signs_coreGet

theorem commandOk_administer {path : List CStr} {method : UInt8} {headers : List (CStr × CStr)} :
    CommandOk c (administer c path method headers) :=
  commandOk_tell signs_new

theorem commandOk_cd {target : CStr} : CommandOk c (cmdCd c target) := by
  cases c with
  | none => exact commandOk_done
  | some r => exact commandOk_await signs_new

theorem commandOk_ls {arg : CStr} : CommandOk c (cmdLs env c arg) := by
  cases c with
  | none => exact commandOk_done
  | some r =>
    unfold cmdLs
    simp only
    generalize (if arg.bytes = [] then r.cwd else arg) = pre
    split
    · exact commandOk_await signs_new
    · exact commandOk_tell signs_new

theorem commandOk_login {args : CStr} : CommandOk c (cmdLogin c args) := by
  unfold cmdLogin
  split
  · exact commandOk_await signs_new
  · exact commandOk_done

theorem commandOk_logout : CommandOk c (cmdLogout c) := by
  cases c with
  | none => exact commandOk_done
  | some r =>
    unfold cmdLogout
    simp only
    split
    · exact commandOk_done
    · exact commandOk_await signs_addToken

theorem commandOk_askWithToken {method : UInt8} : CommandOk c (askWithToken c path method) := by
  cases c with
  | none => exact commandOk_done
  | some r => exact commandOk_tell signs_addToken

theorem commandOk_passwd {password : CStr} : CommandOk c (cmdPasswd c password) := by
  unfold cmdPasswd
  split
  · exact commandOk_done
  · rename_i huser
    exact commandOk_tell (signs_ownName huser _)

theorem commandOk_lock {resource : CStr} : CommandOk c (cmdLock fd c path resource) := by
  unfold cmdLock
  cases huser : ownName c with
  | none => exact commandOk_tell signs_new
  | some user => exact commandOk_tell (signs_ownName huser _)

theorem commandOk_subscribe : CommandOk c (cmdSubscribe fd c path) := by
  cases c with
  | none => exact commandOk_done
  | some r => exact commandOk_tell signs_addUser

theorem commandOk_unsubscribe : CommandOk c (cmdUnsubscribe c path) := by
  cases c with
  | none => exact commandOk_done
  | some r => exact commandOk_tell signs_addUser

theorem commandOk_topEnter : CommandOk c (cmdTopEnter c) := by
  cases c with
  | none => exact commandOk_done
  | some r =>
    constructor
    · rintro r' ⟨⟩
      exact ⟨r, rfl, rfl, rfl, rfl, rfl, rfl⟩
    · rintro sent pending ⟨⟩
      exact signs_new

theorem sameClient_openShell (r : Client) (fd pid : Int) : SameClient r (openShell r fd pid) := by
  unfold openShell
  split
  · exact ⟨rfl, rfl, rfl, rfl, rfl⟩
  · exact .refl r

theorem commandOk_shell {peer : CStr} : CommandOk c (cmdShell env c peer) := by
  cases c with
  | none => exact commandOk_done
  | some r =>
    unfold cmdShell
    simp only
    split
    · exact commandOk_await signs_attach
    split
    · exact commandOk_done
    rename_i sfd pid _
    constructor
    · rintro r' ⟨⟩
      exact ⟨r, rfl, sameClient_openShell r sfd pid⟩
    · intro sent pending h
      cases h

theorem commandOk_other {line : CStr} : CommandOk c (cmdOther env c line) := by
  unfold cmdOther
  simp only
  split
  · exact commandOk_get
  split
  · unfold cliConfigGet
    split
    · exact commandOk_done
    · split
      · exact commandOk_done
      · exact commandOk_tell signs_new
  · unfold cliConfigSet
    split
    · exact commandOk_done
    split
    · exact commandOk_done
    simp only
    split
    · exact commandOk_done
    · exact commandOk_tell signs_new
  · exact commandOk_tell signs_new
  · refine commandOk_same fun sent pending h => ?_
    cases h
  · exact commandOk_done

def RowsOk (c : Option Client) (rows : List CommandRow) : Prop :=
  ∀ row ∈ rows, ∀ arg, CommandOk c (row.2 arg)

theorem rowsOk_nil : RowsOk c [] := List.forall_mem_nil _

theorem ok_cons {row : CommandRow} {rows : List CommandRow}
    (hrow : ∀ arg, CommandOk c (row.2 arg)) (hrows : RowsOk c rows) : RowsOk c (row :: rows) :=
  List.forall_mem_cons.mpr ⟨hrow, hrows⟩

theorem rowsOk_append {rows rows' : List CommandRow} (h : RowsOk c rows) (h' : RowsOk c rows') :
    RowsOk c (rows ++ rows') :=
  List.forall_mem_append.mpr ⟨h, h'⟩

theorem rowsOk_basic : RowsOk c (basicCommands env c) := by
  iterate 3 apply ok_cons fun _ => commandOk_done
  apply ok_cons fun _ => commandOk_get
  iterate 2 apply ok_cons fun _ => commandOk_done
  iterate 2 apply ok_cons fun _ => commandOk_cd
  iterate 2 apply ok_cons fun _ => commandOk_ls
  apply ok_cons fun _ => commandOk_login
  apply ok_cons fun _ => commandOk_done
  apply ok_cons fun _ => commandOk_logout
  apply ok_cons fun _ => commandOk_askWithToken
  exact rowsOk_nil

theorem rowsOk_core : RowsOk c (coreCommands fd c) := by
  apply ok_cons fun _ => commandOk_get
  apply ok_cons fun _ => commandOk_administer
  apply ok_cons
  · intro name
    simp only
    split
    · exact commandOk_done
    · exact commandOk_administer
  apply ok_cons fun _ => commandOk_administer
  iterate 5 apply ok_cons fun _ => commandOk_get
  apply ok_cons fun _ => commandOk_administer
  iterate 2 apply ok_cons fun _ => commandOk_lock
  exact rowsOk_nil

theorem rowsOk_session : RowsOk c (sessionCommands fd c) := by
  apply ok_cons fun _ => commandOk_topEnter
  iterate 2 apply ok_cons fun _ => commandOk_done
  apply ok_cons fun _ => commandOk_subscribe
  apply ok_cons fun _ => commandOk_unsubscribe
  apply ok_cons fun _ => commandOk_passwd
  iterate 2 apply ok_cons fun _ => commandOk_askWithToken
  exact rowsOk_nil

theorem rowsOk_users : RowsOk c (userCommands c) := by
  iterate 2 apply ok_cons fun _ => commandOk_get
  iterate 2 apply ok_cons fun _ => commandOk_administer
  iterate 2 apply ok_cons fun _ => commandOk_get
  iterate 3 apply ok_cons fun _ => commandOk_administer
  exact rowsOk_nil

theorem rowsOk_shell : RowsOk c (shellCommands env c) := by
  iterate 2 apply ok_cons fun _ => commandOk_shell
  iterate 2 apply ok_cons fun _ => commandOk_quit
  exact rowsOk_nil

theorem rowsOk_commandTable : RowsOk c (commandTable env fd c) :=
  rowsOk_append (rowsOk_append (rowsOk_append (rowsOk_append rowsOk_basic rowsOk_core)
    rowsOk_session) rowsOk_users) rowsOk_shell

theorem sameClient_setWinsize (r : Client) (text : Bytes) : SameClient r (setWinsize r text) := by
  exact ⟨rfl, rfl, rfl, rfl, rfl⟩

/-- Whatever the line: the session and the text of the record stay, and the message speaks only for
the record's user. -/
theorem handleCommand_ok {line : CStr} : CommandOk c (handleCommand env fd c line) := by
  unfold handleCommand
  simp only
  split
  · exact commandOk_done
  split
  · rename_i size _
    constructor
    · intro r' hr'
      obtain ⟨r, rfl, rfl⟩ := Option.map_eq_some_iff.mp hr'
      exact ⟨r, rfl, sameClient_setWinsize r size.bytes⟩
    · intro sent pending h
      cases h
  cases hfind : (commandTable env fd c).findSome? fun row =>
    (row.1.arg (line.truncate (trimmedLength line.bytes))).map row.2 with
  | none => exact commandOk_other
  | some step =>
    obtain ⟨row, hrow, hstep⟩ := List.exists_of_findSome?_eq_some hfind
    obtain ⟨arg, -, rfl⟩ := Option.map_eq_some_iff.mp hstep
    exact rowsOk_commandTable row hrow arg

end Commands

theorem sameClient_clampScroll (r : Client) (reply : CliReply) :
    SameClient r (clampScroll r reply) := by
  unfold clampScroll
  split
  · exact .refl r
  · exact .refl r
  · exact ⟨rfl, rfl, rfl, rfl, rfl⟩

variable {pending : Pending} {reply : CliReply}

/-- After the reply only `login` and `logout` touch the session; the messages that follow
speak for nobody. -/
theorem resumeCommand_ok {r : Client} {arg : CStr}
    (hlogin : ∀ user, pending = .login user → loginGranted reply = none)
    (hlogout : pending ≠ .logout) :
    SameClient r (resumeCommand pending r arg reply).1 := by
  cases pending with
  | login user =>
    simp only [resumeCommand, hlogin user rfl]
    exact .refl r
  | logout => exact absurd rfl hlogout
  | cd =>
    unfold resumeCommand
    simp only
    split
    · exact ⟨rfl, rfl, rfl, rfl, rfl⟩
    · exact .refl r
  | ls fromArg =>
    unfold resumeCommand
    simp only
    split <;> exact .refl r
  | shell =>
    unfold resumeCommand
    simp only
    split
    · exact sameClient_openShell r _ 0
    · exact .refl r
  | render => exact sameClient_clampScroll r reply
  | done | tab query | foreign sends => exact .refl r

/-- Only a remote listing is followed by another message, which asks for the local one. -/
theorem resumeCommand_await {r : Client} {arg : CStr} {sent : SentMsg} {next : Pending}
    (h : (resumeCommand pending r arg reply).2 = .await sent next) :
    ∃ fromArg pre, pending = .ls fromArg ∧ sent = unsigned (localLs pre) := by
  cases pending with
  | ls fromArg =>
    unfold resumeCommand at h
    simp only at h
    split at h
    · cases h
    · cases h
      exact ⟨fromArg, _, rfl, rfl⟩
  | login user | cd | shell =>
    unfold resumeCommand at h
    simp only at h
    split at h <;> cases h
  | logout | render | done | tab query | foreign sends => cases h

theorem resumeCommand_signed {r : Client} {arg : CStr} {sent : SentMsg} {next : Pending}
    (h : (resumeCommand pending r arg reply).2 = .await sent next) : ¬ SpeaksFor sent := by
  obtain ⟨fromArg, pre, -, rfl⟩ := resumeCommand_await h
  exact not_speaksFor_new _ _ _

end Portal.Cli
