import Portal.Core.Handlers
import Portal.Modules.Cli.Editor

/-!
Tab completion of `modules/mod_cli/mod_cli.c`: `editor_tab_complete`, without the lists it
prints. It inserts text into the line, or first asks for the names to choose from; the
messages that ask carry no caller.
-/

namespace Portal.Cli

structure CliReply where
  rc : Int
  status : PortalStatus
  body : Option Bytes
deriving DecidableEq

def newMsg (path : CStr) (method : UInt8) (headers : List (CStr × CStr)) : PortalMsg :=
  headers.foldl (fun msg kv => (portalMsgAddHeader msg kv.1 kv.2).1)
    { PortalMsg.zero with path := some path.bytes, method }

theorem ctx_newMsg (path : CStr) (method : UInt8) (headers : List (CStr × CStr)) :
    (newMsg path method headers).ctx = none := by
  apply List.foldlRecOn (motive := fun m : PortalMsg => m.ctx = none)
  · rfl
  · intro msg hmsg kv _
    exact (ctx_portalMsgAddHeader msg kv.1 kv.2).trans hmsg

def tabMaxMatches : Nat := 64

inductive TabQuery where
  -- where the word begins in the line, from which it is read again
  | devices (start : Nat)
  | peers (start : Nat)
  -- the fallback is the parent to list locally
  | children (part : CStr) (fallback : Option CStr)
deriving DecidableEq

inductive TabStep where
  | insert (text : Bytes) (last : Option UInt8)
  | ask (msg : PortalMsg) (query : TabQuery)

/-! ### Choosing among matches -/

def commonLength : Bytes → Bytes → Nat
  | a :: s, b :: t => if a = b then commonLength s t + 1 else 0
  | _, _ => 0

/-- The rest of a single match and a last character, or what the matches have in common. -/
def chooseMatch (names : List CStr) (len : Nat) (last : Option UInt8) : TabStep :=
  match names with
  | [] => .insert [] none
  | [name] => .insert (name.bytes.drop len) last
  | name :: rest =>
    let common :=
      rest.foldl (fun n m => min n (commonLength name.bytes m.bytes)) name.bytes.length
    .insert ((name.bytes.take common).drop len) none

def space : UInt8 := 32

def lastSpace (line : Bytes) : Option Nat :=
  (List.range line.length).reverse.find? fun i => line.getD i 0 = space

def matching (word : CStr) (names : List CStr) : List CStr :=
  (names.filter fun n => decide (word.bytes <+: n.bytes)).take tabMaxMatches

/-- The first column of the lines of a table whose first character is not in `skip`. -/
def firstColumn (skip : Bytes) (body : Bytes) : List CStr :=
  ((cText body).splitOn 10).filterMap fun line =>
    let line := line.dropWhile (· = space)
    match line with
    | [] => none
    | c :: _ => if c ∈ skip then none
        else some ((CStr.ofBytes (line.takeWhile (· ≠ space))).truncate 63)

def listedNames (body : Bytes) : List (CStr × Bool) :=
  ((cText body).splitOn 10).filterMap fun line =>
    let line := line.dropWhile (· = space)
    match line with
    | [] => none
    | 40 :: _ => none
    | _ =>
      let name := (line.takeWhile fun c => c ≠ space ∧ c ≠ slash ∧ c ≠ 91).take 127
      some (.ofBytes name, ((line.drop name.length).dropWhile (· = space)).head? = some slash)

/-! ### Tables -/

def subcommands : List (CStr × List CStr) :=
  [(.lit "node", [.lit "peers", .lit "status", .lit "ping", .lit "trace", .lit "location",
      .lit "gps", .lit "geolocate"]),
    (.lit "iot", [.lit "devices", .lit "status", .lit "on", .lit "off", .lit "toggle",
      .lit "refresh", .lit "discover", .lit "add", .lit "remove"]),
    (.lit "module", [.lit "list", .lit "load", .lit "unload", .lit "reload"]),
    (.lit "cache", [.lit "get", .lit "set", .lit "del", .lit "keys", .lit "status", .lit "flush"]),
    (.lit "kv", [.lit "get", .lit "set", .lit "del", .lit "keys"]),
    (.lit "cron", [.lit "add", .lit "remove", .lit "trigger", .lit "jobs", .lit "status"]),
    (.lit "config", [.lit "get", .lit "set", .lit "list"]),
    (.lit "firewall", [.lit "deny", .lit "allow", .lit "check", .lit "rules"]),
    (.lit "backup", [.lit "create", .lit "list", .lit "restore", .lit "delete"]),
    (.lit "user", [.lit "list", .lit "info", .lit "create", .lit "passwd"]),
    (.lit "group", [.lit "list", .lit "info", .lit "create", .lit "adduser", .lit "deluser"]),
    (.lit "dns", [.lit "resolve", .lit "reverse"]),
    (.lit "schedule", [.lit "list"]),
    (.lit "validate", [.lit "email", .lit "ip", .lit "url", .lit "hostname"]),
    (.lit "compress", [.lit "gzip", .lit "xz"]),
    (.lit "key", [.lit "rotate"])]

def commandWords : List CStr :=
  [.lit "help", .lit "status", .lit "ls", .lit "cd", .lit "pwd", .lit "get", .lit "login",
    .lit "logout", .lit "whoami", .lit "passwd", .lit "key", .lit "events", .lit "subscribe",
    .lit "unsubscribe", .lit "storage", .lit "module", .lit "user", .lit "group", .lit "kv",
    .lit "firewall", .lit "backup", .lit "dns", .lit "schedule", .lit "process", .lit "validate",
    .lit "sysinfo", .lit "metrics", .lit "compress", .lit "quit", .lit "exit", .lit "iot",
    .lit "node", .lit "ping", .lit "tracert", .lit "cache", .lit "cron", .lit "config",
    .lit "health", .lit "json", .lit "curl", .lit "locks", .lit "lock", .lit "unlock",
    .lit "verbose", .lit "debug", .lit "top"]

/-- First words of registered commands, each once, as far as there is room. -/
def addFirstWords (word : CStr) (names registered : List CStr) : List CStr :=
  registered.foldl (fun names pattern =>
    let first := (CStr.ofBytes (pattern.bytes.takeWhile (· ≠ space))).truncate 127
    if ¬ word.bytes <+: first.bytes ∨ first ∈ names ∨ tabMaxMatches ≤ names.length then names
    else names ++ [first]) names

/-! ### `editor_tab_complete` -/

/-- After `cd`, `ls` and `get` a relative word is taken from the working directory. -/
def absoluteWord (cwd word : CStr) (command : Option CStr) : CStr :=
  match command with
  | none => word
  | some command =>
    if word.bytes.head? = some slash then word
    else if command ∈ [.lit "cd", .lit "ls", .lit "get"] then
      if cwd = .lit "/" then (CStr.lit "/").append (word.truncate 511)
      else CStr.concat [cwd.truncate 511, .lit "/", word.truncate 511]
    else word

/-- The node that the first segment may name, and the rest of the path; a segment of 64 bytes or
more with something behind it names none. -/
def remoteNode (path : CStr) : Option (CStr × CStr) :=
  let segment := path.drop 1
  match segment.bytes.idxOf? slash with
  | some n =>
    if n < 64 then some (segment.truncate n, segment.drop n) else none
  | none => some (segment.truncate 63, .lit "/")

def remoteLs (node pre : CStr) : PortalMsg :=
  newMsg ((CStr.concat [.lit "/", node, .lit "/core/ls"]).truncate (portalMaxPathLen - 1))
    portalMethodGet [(.lit "prefix", pre)]

def localLs (pre : CStr) : PortalMsg :=
  newMsg (.lit "/core/ls") portalMethodGet [(.lit "prefix", pre)]

def completePath (cwd word : CStr) : TabStep :=
  let (parent, part) :=
    match strrchrSlash word.bytes with
    | some (n + 1) => (word.truncate (n + 1), word.drop (n + 2))
    | _ => (if 1 < word.bytes.length then .lit "/" else cwd, word.drop 1)
  let part := part.truncate 127
  if parent.bytes.head? = some slash ∧ 1 < parent.bytes.length then
    match remoteNode parent with
    | some (node, pre) => .ask (remoteLs node pre) (.children part (some parent))
    | none => .ask (localLs parent) (.children part none)
  else .ask (localLs parent) (.children part none)

/-- The word is completed from a table: the second word of a known command, or a command. -/
def completeWord (registered : List CStr) (word : CStr) (command : Option CStr) : TabStep :=
  match (command.map (CStr.truncate 63)).bind fun c => subcommands.find? fun s => s.1 = c with
  | some (_, subs) => chooseMatch (matching word subs) word.bytes.length (some space)
  | none =>
    if word.bytes = [] then .insert [] none
    else
      chooseMatch (addFirstWords word (matching word commandWords) registered)
        word.bytes.length (some space)

def tabComplete (cwd : CStr) (registered : List CStr) (ed : LineEditor) : TabStep :=
  let line := CStr.ofBytes (cellBytes (cellText ed.terminate.line))
  let split := lastSpace line.bytes
  let command := split.map fun n => line.truncate n
  let start := (split.map (· + 1)).getD 0
  let word := absoluteWord cwd ((split.map fun n => line.drop (n + 1)).getD line) command
  if word.bytes.head? = some slash then completePath cwd word
  else if command ∈ [some (CStr.lit "iot on"), some (.lit "iot off"), some (.lit "iot status"),
      some (.lit "iot toggle")] then
    .ask (newMsg (.lit "/iot/resources/devices") portalMethodGet []) (.devices start)
  else if command ∈ [some (CStr.lit "ping"), some (.lit "node status"),
      some (.lit "node ping")] then
    .ask (newMsg (.lit "/node/resources/peers") portalMethodGet []) (.peers start)
  else completeWord registered word command

def tabReply (line : List Cell) (query : TabQuery) (reply : CliReply) : TabStep :=
  match query, reply.body with
  | .devices start, some body =>
    let word := CStr.ofBytes (cellBytes (cellText (line.drop start)))
    chooseMatch (matching word (firstColumn [45, 78, 40] body)) word.bytes.length none
  | .peers start, some body =>
    let word := CStr.ofBytes (cellBytes (cellText (line.drop start)))
    chooseMatch (matching word (.lit "all" :: firstColumn [67, 40] body)) word.bytes.length none
  | .children part (some parent), body =>
    if reply.rc = 0 ∧ 1 < (body.getD []).length then childrenStep part (body.getD [])
    else .ask (localLs parent) (.children part none)
  | .children part none, some body => childrenStep part body
  | _, none => .insert [] none
where
  /-- A directory gets a slash. -/
  childrenStep (part : CStr) (body : Bytes) : TabStep :=
    let names := ((listedNames body).filter fun n => decide (part.bytes <+: n.1.bytes)).take
      tabMaxMatches
    chooseMatch (names.map Prod.fst) part.bytes.length
      (match names with
        | [(_, true)] => some slash
        | _ => none)

def TabStep.Plain (step : TabStep) : Prop := ∀ msg query, step = .ask msg query → msg.ctx = none

section Plain

theorem plain_insert (text : Bytes) (last : Option UInt8) : (TabStep.insert text last).Plain := by
  intro msg query h
  cases h

theorem plain_ask (path : CStr) (method : UInt8) (headers : List (CStr × CStr)) (query : TabQuery) :
    (TabStep.ask (newMsg path method headers) query).Plain := by
  intro msg query' h
  cases h
  exact ctx_newMsg path method headers

theorem plain_chooseMatch (names : List CStr) (len : Nat) (last : Option UInt8) :
    (chooseMatch names len last).Plain := by
  unfold chooseMatch
  split <;> exact plain_insert _ _

theorem plain_completePath (cwd word : CStr) : (completePath cwd word).Plain := by
  unfold completePath
  simp only
  generalize (match strrchrSlash word.bytes with
    | some (n + 1) => (word.truncate (n + 1), word.drop (n + 2))
    | _ => (if 1 < word.bytes.length then .lit "/" else cwd, word.drop 1)) = split
  split
  · split <;> exact plain_ask _ _ _ _
  · exact plain_ask _ _ _ _

theorem plain_tabComplete (cwd : CStr) (registered : List CStr) (ed : LineEditor) :
    (tabComplete cwd registered ed).Plain := by
  unfold tabComplete
  refine iteInduction (fun _ => plain_completePath _ _) fun _ => ?_
  refine iteInduction (fun _ => plain_ask _ _ _ _) fun _ => ?_
  refine iteInduction (fun _ => plain_ask _ _ _ _) fun _ => ?_
  unfold completeWord
  split
  · exact plain_chooseMatch _ _ _
  · exact iteInduction (fun _ => plain_insert _ _) fun _ => plain_chooseMatch _ _ _

theorem plain_tabReply (line : List Cell) (query : TabQuery) (reply : CliReply) :
    (tabReply line query reply).Plain := by
  unfold tabReply
  split
  · exact plain_chooseMatch _ _ _
  · exact plain_chooseMatch _ _ _
  · split
    · exact plain_chooseMatch _ _ _
    · exact plain_ask _ _ _ _
  · exact plain_chooseMatch _ _ _
  · exact plain_insert _ _

end Plain

def insertPlain (ed : LineEditor) (b : UInt8) : LineEditor := ed.insertChar ⟨b, none⟩

/-- The text is inserted while the line has room for two more characters, the last
character while it has room for one. -/
def insertText (ed : LineEditor) (text : Bytes) (last : Option UInt8) : LineEditor :=
  last.elim (insertAll ed text) (insertPlain (insertAll ed text))
where
  insertAll (ed : LineEditor) (text : Bytes) : LineEditor :=
    text.foldl (fun ed b => if ed.len < cliMaxLine - 2 then insertPlain ed b else ed) ed

section Holds

variable {ed : LineEditor} {c : Cell}

theorem holds_insertPlain {b : UInt8} (h : (insertPlain ed b).Holds c) :
    ed.Holds c ∨ c.typedBy = none := by
  rcases LineEditor.holds_insertChar h with h | rfl
  · exact .inl h
  · exact .inr rfl

theorem holds_insertAll {text : Bytes} (h : (insertText.insertAll ed text).Holds c) :
    ed.Holds c ∨ c.typedBy = none := by
  induction text generalizing ed with
  | nil => exact .inl h
  | cons b text ih =>
    rcases ih h with h | h
    · simp only at h
      split at h
      · exact holds_insertPlain h
      · exact .inl h
    · exact .inr h

theorem holds_insertText {text : Bytes} {last : Option UInt8}
    (h : (insertText ed text last).Holds c) : ed.Holds c ∨ c.typedBy = none := by
  cases last with
  | none => exact holds_insertAll h
  | some b =>
    rcases holds_insertPlain h with h | h
    · exact holds_insertAll h
    · exact .inr h

end Holds

end Portal.Cli
