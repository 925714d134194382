import Portal.Core.Events
import Portal.Core.Locks
import Portal.Core.Users
import Portal.Lib.Results

/-!
The paths of the core itself: `core_handle_message` of `src/core/core_handlers.c`. Its sequence of
tests is a list of handlers in the same order (`coreHandlers`), one for each group of paths, that
take a message or leave it. The result is the state and the reply, or none if a NULL was
dereferenced. Replies that list something name what they list.
-/

namespace Portal

open CStr (ofBytes lit)

/-- What the handlers read and write of `portal_instance_t`. `writes` records what the
storage providers were given. -/
structure CoreState where
  paths : PortalPathTree
  modules : List PortalModuleEntry
  config : PortalHt CStr
  auth : AuthDb
  events : PortalEventRegistry
  locks : LockTable
  store : PortalStore
  storage : List StorageProvider
  writes : List StorageWrite

inductive ModuleAction where
  | load
  | unload
  | reload
deriving DecidableEq

/-- What the handlers ask of the world; loading runs the code of a module. -/
structure CoreEnv where
  now : UInt64
  sha256Hex : Bytes → CStr
  token : CStr
  key : GeneratedKey
  portalModuleDo : ModuleAction → CStr → CoreState → CoreState × Int
  userFile : Bool
  groupFile : Bool
  written : Nat → Bool

inductive Listing where
  | status
  | modules
  | paths
  | children (pathPrefix : CStr)
  | whoami (user : AuthUser)
  | key (user : AuthUser)
  | events
  | users
  | user (user : AuthUser)
  | groups
  | group (name : CStr)
  | config (module : Option CStr)
  | locks (filter : Option CStr)
  | backends
  | backend (name : CStr)

inductive CoreBody where
  | none
  | text (bytes : Bytes)
  | listing (what : Listing)

structure CoreReply where
  status : PortalStatus
  rc : Int
  body : CoreBody

def CoreReply.fail (status : PortalStatus) : CoreReply := ⟨status, -1, .none⟩

def CoreReply.list (what : Listing) : CoreReply := ⟨.ok, 0, .listing what⟩

def textz (s : CStr) : CoreBody := .text (s.bytes ++ [0])

/-- What a handler that takes the message does; nothing if it crashes. -/
abbrev CoreResult := Option (CoreState × CoreReply)

def CoreState.reply (s : CoreState) (r : CoreReply) : CoreResult := some (s, r)

def callerIsAdmin (msg : PortalMsg) : Bool :=
  match msg.ctx with
  | none => false
  | some ctx =>
    ctx.auth.user.map ofBytes = some portalRootUser ||
      portalLabelsHas ctx.auth.labels (.lit "hub-admin")

def PortalMsg.ctxUser (msg : PortalMsg) : CharPtr := msg.ctx.bind fun c => c.auth.user

def PortalMsg.ctxToken (msg : PortalMsg) : CharPtr := msg.ctx.bind fun c => c.auth.token

def afterPrefix (pre path : CStr) : Option CStr :=
  if pre.bytes <+: path.bytes then some (path.drop pre.bytes.length) else none

section Handlers

-- what every handler is given
variable (env : CoreEnv) (s : CoreState) (msg : PortalMsg)

/-! ### Navigation -/

def lsPrefix : List PortalHeader → Option CStr
  | [] => some (.lit "/")
  | h :: hs => do
      let k ← h.key
      if ofBytes k = .lit "prefix" then some ((h.value.map ofBytes).getD (.lit "(null)"))
      else lsPrefix hs

/-- Slashes at the end go, but for a first one. -/
def stripSlashes : Nat → CStr → CStr
  | 0, s => s
  | n + 1, s =>
    if 1 < s.bytes.length ∧ s.bytes.getLast? = some slash then
      stripSlashes n (s.truncate (s.bytes.length - 1))
    else s

def handleLs : CoreResult := do
  let pre ← lsPrefix msg.headerList
  let pre := pre.truncate (portalMaxPathLen - 1)
  s.reply (.list (.children (stripSlashes pre.bytes.length pre)))

def resolveHeader (args : CharPtr × CharPtr) (h : PortalHeader) : Option (CharPtr × CharPtr) := do
  let k ← h.key
  if ofBytes k = .lit "cwd" then some (h.value, args.2)
  else if ofBytes k = .lit "target" then some (args.1, h.value)
  else some args

/-- The target as seen from `cwd`; `"%s"` prints a NULL, `strcmp` does not survive it. -/
def joinPath (cwd : CharPtr) (target : CStr) : Option CStr :=
  let printed := ((cwd.map ofBytes).getD (.lit "(null)")).truncate (portalMaxPathLen - 1)
  if target.bytes.head? = some slash then some (target.truncate (portalMaxPathLen - 1))
  else if target = .lit ".." then
    match strrchrSlash printed.bytes with
    | some (off + 1) => some (printed.truncate (off + 1))
    | _ => some (.lit "/")
  else if target.bytes = [] then some printed
  else do
    let cwd ← cwd
    if ofBytes cwd = .lit "/" then
      some (((lit "/").append target).truncate (portalMaxPathLen - 1))
    else
      some (((ofBytes cwd).append ((lit "/").append target)).truncate
        (portalMaxPathLen - 1))

def pathExists (tree : PortalPathTree) (path : CStr) : Bool :=
  (portalPathLookup tree path).isSome ||
    (portalHtIter tree.table).any fun e =>
      decide (path.bytes <+: e.1.bytes) &&
        (e.1.bytes.length = path.bytes.length ||
          (e.1.bytes.drop path.bytes.length).head? = some slash)

def handleResolve : CoreResult := do
  let args ← msg.headerList.foldlM resolveHeader (some (lit "/").bytes, some [])
  let target ← args.2
  let resolved ← joinPath args.1 (.ofBytes target)
  let resolved := stripSlashes 1 resolved
  if resolved = .lit "/" ∨ pathExists s.paths resolved = true then
    s.reply ⟨.ok, 0, textz resolved⟩
  else s.reply (.fail .notFound)

def handleNavigation (path : CStr) : Option CoreResult :=
  if path = .lit "/core/status" then some (s.reply (.list .status))
  else if path = .lit "/core/modules" ∧ msg.method = portalMethodGet then
    some (s.reply (.list .modules))
  else if path = .lit "/core/paths" ∧ msg.method = portalMethodGet then
    some (s.reply (.list .paths))
  else if path = .lit "/core/ls" then some (handleLs s msg)
  else if path = .lit "/core/resolve" then some (handleResolve s msg)
  else none

/-! ### Modules -/

def moduleAction (action : CStr) : Option ModuleAction :=
  if action = .lit "load" then some .load
  else if action = .lit "unload" then some .unload
  else if action = .lit "reload" then some .reload
  else none

def handleModuleAction (modName : CStr) (msg : PortalMsg) : CoreResult := do
  let action ← getHdr (.lit "action") msg.headerList
  match action.map ofBytes with
  | none => s.reply ⟨.badRequest, -1, textz (.lit "Missing 'action' header\n")⟩
  | some action =>
    match moduleAction action with
    | none =>
      s.reply ⟨.badRequest, -1,
        textz ((CStr.concat [.lit "Unknown action: ", action, .lit "\n"]).truncate 127)⟩
    | some act =>
      let done := env.portalModuleDo act modName s
      let text := fun (outcome : CStr) =>
        (CStr.concat [.lit "Module '", modName, .lit "': ", action, outcome]).truncate 127
      if done.2 = 0 then done.1.reply ⟨.ok, 0, .text (text (.lit " OK\n")).bytes⟩
      else done.1.reply ⟨.internalError, done.2, .text (text (.lit " failed\n")).bytes⟩

def handleModules (path : CStr) : Option CoreResult :=
  match afterPrefix (.lit "/core/modules/") path with
  | none => none
  | some modName =>
    if msg.method = portalMethodCall then
      if !callerIsAdmin msg then some (s.reply (.fail .forbidden))
      else if modName.bytes ≠ [] then some (handleModuleAction env s modName msg)
      else none
    else none

/-! ### Credentials -/

def handleAuthLoginEnhanced : CoreResult := do
  let username ← getHdr (.lit "username") msg.headerList
  let password ← getHdr (.lit "password") msg.headerList
  let apiKey ← getHdr (.lit "api_key") msg.headerList
  let finish := fun (r : AuthDb × Option CStr) =>
    let s := { s with auth := r.1 }
    match r.2 with
    | none => s.reply ⟨.unauthorized, -1, textz (.lit "Authentication failed\n")⟩
    | some token => s.reply ⟨.ok, 0, textz (token.append (.lit "\n"))⟩
  if (apiKey.map cText).getD [] ≠ [] then
    finish (portalAuthLoginKey s.auth env.now env.token apiKey)
  else
    match username, password with
    | some username, some password =>
      finish (portalAuthLogin env.sha256Hex s.auth env.now env.token (.ofBytes username)
        (.ofBytes password))
    | _, _ => s.reply ⟨.badRequest, -1, textz (.lit "Provide username+password or api_key\n")⟩

def contextToken : Option CharPtr :=
  match msg.ctxToken with
  | some token => some (some token)
  | none => getHdr (.lit "token") msg.headerList

def headerToken : Option CharPtr := do
  let token ← getHdr (.lit "token") msg.headerList
  some (token.or msg.ctxToken)

def handleAuthLogout : CoreResult := do
  let token ← contextToken msg
  match token with
  | none => s.reply (.fail .badRequest)
  | some token =>
    let s := { s with auth := (portalAuthLogout s.auth (.ofBytes token)).1 }
    s.reply ⟨.ok, 0, textz (.lit "Logged out\n")⟩

def handleAuthWhoami : CoreResult := do
  let token ← contextToken msg
  match token with
  | none => s.reply ⟨.ok, 0, textz (.lit "anonymous (not logged in)\n")⟩
  | some token =>
    let r := s.auth.resolveToken env.now (some token)
    let s := { s with auth := r.2 }
    match r.1 with
    | none => s.reply ⟨.unauthorized, -1, textz (.lit "Invalid or expired token\n")⟩
    | some user => s.reply (.list (.whoami user))

def handleAuthKey : CoreResult := do
  let token ← headerToken msg
  match token with
  | none => s.reply (.fail .unauthorized)
  | some token =>
    let r := s.auth.resolveToken env.now (some token)
    match r.1 with
    | none => CoreState.reply { s with auth := r.2 } (.fail .unauthorized)
    | some user =>
      -- generated if there is none
      if user.apiKey.bytes = [] then
        let auth := r.2.modifyUser user.username fun u => u.setApiKey env.key
        CoreState.reply { s with auth := auth }
          (.list (.key { user with apiKey := env.key.key }))
      else CoreState.reply { s with auth := r.2 } (.list (.key user))

def handleAuthKeyRotate : CoreResult := do
  let token ← headerToken msg
  match token with
  | none => s.reply (.fail .unauthorized)
  | some token =>
    let r := s.auth.resolveToken env.now (some token)
    match r.1 with
    | none => CoreState.reply { s with auth := r.2 } (.fail .unauthorized)
    | some user =>
      let auth := (portalAuthRotateKey r.2 user.username env.key).1
      CoreState.reply { s with auth := auth }
        ⟨.ok, 0, textz (.concat [.lit "New API Key: ", env.key.key, .lit "\n"])⟩

def handleAuth (path : CStr) : Option CoreResult :=
  if path = .lit "/auth/login" then some (handleAuthLoginEnhanced env s msg)
  else if path = .lit "/auth/logout" then some (handleAuthLogout s msg)
  else if path = .lit "/auth/whoami" then some (handleAuthWhoami env s msg)
  else if path = .lit "/auth/key" ∧ msg.method = portalMethodGet then some (handleAuthKey env s msg)
  else if path = .lit "/auth/key/rotate" then some (handleAuthKeyRotate env s msg)
  else none

/-! ### Events -/

def subscriberOf : CStr :=
  (msg.ctxUser.map ofBytes).getD (.lit "anonymous")

def handleSubscribe (path : CStr) : CoreResult := do
  let fdStr ← getHdr (.lit "notify_fd") msg.headerList
  let notifyFd : Int := fdStr.elim (-1) atoi
  let labels := msg.ctx.elim .empty fun c => c.auth.labels
  let r :=
    if 0 ≤ notifyFd then
      portalEventsSubscribeFd s.events path (subscriberOf msg) (some labels) (.ofInt notifyFd)
    else portalEventsSubscribe s.events path (subscriberOf msg) (some labels) none 0
  let s := { s with events := r.1 }
  if r.2 = 0 then s.reply ⟨.ok, r.2, textz (.lit "Subscribed\n")⟩
  else s.reply ⟨.forbidden, r.2, textz (.lit "Subscribe denied\n")⟩

def handleUnsubscribe (path : CStr) : CoreResult :=
  let r := portalEventsUnsubscribe s.events path (subscriberOf msg)
  CoreState.reply { s with events := r.1 } ⟨if r.2 = 0 then .ok else .notFound, r.2, .none⟩

def handleEvents (path : CStr) : Option CoreResult :=
  if path = .lit "/events" ∧ msg.method = portalMethodGet then some (s.reply (.list .events))
  else if (afterPrefix (.lit "/events/") path).isSome ∧ msg.method = portalMethodSub then
    some (handleSubscribe s msg path)
  else if (afterPrefix (.lit "/events/") path).isSome ∧ msg.method = portalMethodUnsub then
    some (handleUnsubscribe s msg path)
  else none

/-! ### Users -/

def cutSegment (rest : CStr) : CStr × Option CStr :=
  let n := (rest.bytes.takeWhile (· ≠ slash)).length
  ((rest.truncate n).truncate (portalMaxLabelLen - 1),
    if n < rest.bytes.length then some (rest.drop n) else none)

def saveUserDual (username : CStr) : CoreState :=
  match findAccount s.auth username with
  | none => s
  | some u =>
    { s with
      store := if env.userFile then
          { s.store with users := Function.update s.store.users username (some u.stored) }
        else s.store
      writes := s.writes ++ portalStorageSaveUser s.storage u.stored }

def handlePassword (name : CStr) : CoreResult :=
  let isSelf : Bool := msg.ctxUser.map ofBytes = some name
  if !callerIsAdmin msg && !isSelf then s.reply (.fail .forbidden)
  else do
    let newpass ← getHdr (.lit "password") msg.headerList
    match newpass with
    | none => s.reply (.fail .badRequest)
    | some newpass =>
      match findAccount s.auth name with
      | none => s.reply (.fail .notFound)
      | some _ =>
        let auth := s.auth.modifyUser name fun u => u.setPassword (.ofBytes newpass)
        (saveUserDual env { s with auth := auth } name).reply
          ⟨.ok, 0, textz (.lit "Password changed\n")⟩

def handleUserInfo (name : CStr) : CoreResult :=
  match findAccount s.auth name with
  | none => s.reply (.fail .notFound)
  | some u => s.reply (.list (.user u.toAuthUser))

def parseGroups (text : CStr) : PortalLabels :=
  (((text.truncate 511).bytes.splitOn 44).filter (· ≠ [])).foldl
    (fun ls tok => (portalLabelsAdd ls (.ofBytes tok)).1) .empty

def handleUserSet (name : CStr) : CoreResult :=
  if !callerIsAdmin msg then s.reply (.fail .forbidden)
  else do
    let password ← getHdr (.lit "password") msg.headerList
    let groups ← getHdr (.lit "groups") msg.headerList
    let labels := parseGroups ((groups.map ofBytes).getD (.lit ""))
    let r := portalAuthAddUser s.auth name ((password.map ofBytes).getD (.lit "")) labels
    let s := { s with auth := r.1 }
    if r.2 = 0 then (saveUserDual env s name).reply ⟨.created, r.2, .none⟩
    else s.reply ⟨.conflict, r.2, .none⟩

def handleUsers (path : CStr) : Option CoreResult :=
  if path = .lit "/users" ∧ msg.method = portalMethodGet then some (s.reply (.list .users))
  else
    match afterPrefix (.lit "/users/") path with
    | none => none
    | some rest =>
      let name := (cutSegment rest).1
      if (cutSegment rest).2 = some (.lit "/password") ∧ msg.method = portalMethodCall then
        some (handlePassword env s msg name)
      else if msg.method = portalMethodGet then some (handleUserInfo s name)
      else if msg.method = portalMethodSet then some (handleUserSet env s msg name)
      else none

/-! ### Groups -/

/-- The end of `/groups/<name>/add` and `/groups/<name>/remove`: the labels of the user in
the header change, and the user is saved. -/
def handleMembership (change : PortalLabels → PortalLabels) (text : CStr → CStr) : CoreResult :=
  if !callerIsAdmin msg then s.reply (.fail .forbidden)
  else do
    let uname ← getHdr (.lit "user") msg.headerList
    match uname.map ofBytes with
    | none => s.reply (.fail .badRequest)
    | some uname =>
      match findAccount s.auth uname with
      | none => s.reply (.fail .notFound)
      | some _ =>
        let auth := s.auth.modifyUser uname fun u => u.setLabels (change u.labels)
        (saveUserDual env { s with auth := auth } uname).reply
          ⟨.ok, 0, textz ((text uname).truncate 127)⟩

def handleGroupAdd (gname : CStr) : CoreResult :=
  handleMembership env s msg (fun ls => (portalLabelsAdd ls gname).1) fun uname =>
    .concat [.lit "Added '", uname, .lit "' to group '", gname, .lit "'\n"]

def handleGroupRemove (gname : CStr) : CoreResult :=
  handleMembership env s msg (fun ls => (portalLabelsRemove ls gname).1) fun uname =>
    .concat [.lit "Removed '", uname, .lit "' from group '", gname, .lit "'\n"]

def handleGroupCreate (gname : CStr) : CoreResult :=
  if !callerIsAdmin msg then s.reply (.fail .forbidden)
  else do
    let desc ← getHdr (.lit "description") msg.headerList
    let desc := (desc.map ofBytes).getD (.lit "")
    let createdBy := (msg.ctxUser.map ofBytes).getD (.lit "cli")
    let store := if env.groupFile then
        (s.store.writeGroup gname (.lit "description") desc).writeGroup gname (.lit "created_by")
          createdBy
      else s.store
    CoreState.reply { s with store := store }
      ⟨.created, 0, textz ((CStr.concat [.lit "Group '", gname, .lit "' created\n"]).truncate 127)⟩

def handleGroups (path : CStr) : Option CoreResult :=
  if path = .lit "/groups" ∧ msg.method = portalMethodGet then some (s.reply (.list .groups))
  else
    match afterPrefix (.lit "/groups/") path with
    | none => none
    | some rest =>
      let gname := (cutSegment rest).1
      let action := (cutSegment rest).2.map (CStr.drop 1)
      if action = some (.lit "add") ∧ msg.method = portalMethodCall then
        some (handleGroupAdd env s msg gname)
      else if action = some (.lit "remove") ∧ msg.method = portalMethodCall then
        some (handleGroupRemove env s msg gname)
      else if action = none ∧ msg.method = portalMethodSet then
        some (handleGroupCreate env s msg gname)
      else if action = none ∧ msg.method = portalMethodGet then
        some (s.reply (.list (.group gname)))
      else none

/-! ### Configuration -/

/-- A text in a buffer of 256 bytes. What lies behind the buffer, which the source copies too, is
left out. -/
def printed (text : CStr) : CStr := text.truncate 255

def configKey (module key : CStr) : CStr :=
  (CStr.concat [.lit "mod_", module, .lit ".", key]).truncate 255

def portalConfigGet (config : PortalHt CStr) (module key : CStr) : Option CStr :=
  (portalHtGet config (configKey module key)).or
    (portalHtGet config ((CStr.concat [module, .lit ".", key]).truncate 255))

def dbModule (module : CStr) : CStr := ((lit "mod_").append module).truncate 127

def apiConfigGet (module key : CStr) : Option CStr :=
  (portalConfigGet s.config module key).or (portalStorageGetConfig s.storage (dbModule module) key)

def handleConfigGet : CoreResult := do
  let module ← lastHdr (.lit "module") msg.headerList
  let key ← lastHdr (.lit "key") msg.headerList
  match module.map ofBytes, key.map ofBytes with
  | some module, some key =>
    match apiConfigGet s module key with
    | some val => s.reply ⟨.ok, 0, textz val⟩
    | none =>
      s.reply ⟨.notFound, 0,
        textz (printed (.concat [.lit "Config not found: ", module, .lit ".", key, .lit "\n"]))⟩
  | _, _ => s.reply ⟨.badRequest, -1, textz (.lit "Need: module, key headers\n")⟩

def handleConfigSet : CoreResult :=
  if !callerIsAdmin msg then s.reply (.fail .forbidden)
  else do
    let module ← lastHdr (.lit "module") msg.headerList
    let key ← lastHdr (.lit "key") msg.headerList
    let val ← lastHdr (.lit "value") msg.headerList
    match module.map ofBytes, key.map ofBytes, val.map ofBytes with
    | some module, some key, some val =>
      let s := { s with
        config := (portalHtSet s.config (configKey module key) val).1
        writes := s.writes ++ portalStorageSaveConfig s.storage (dbModule module) key val
        events := (portalEventsEmit s.events (.lit "/events/config/set") env.written).registry }
      s.reply ⟨.ok, 0,
        textz (printed (.concat [.lit "Set ", module, .lit ".", key, .lit " = ", val, .lit "\n"]))⟩
    | _, _, _ => s.reply ⟨.badRequest, -1, textz (.lit "Need: module, key, value headers\n")⟩

def handleConfig (path : CStr) : Option CoreResult :=
  if path = .lit "/core/config/get" then some (handleConfigGet s msg)
  else if path = .lit "/core/config/set" then some (handleConfigSet env s msg)
  else if path = .lit "/core/config/list" then
    some do
      let module ← lastHdr (.lit "module") msg.headerList
      s.reply (.list (.config (module.map ofBytes)))
  else none

/-! ### Locks -/

def lockHeaders : Option (Option (CStr × CStr)) := do
  let resource ← lastHdr (.lit "resource") msg.headerList
  let owner ← lastHdr (.lit "owner") msg.headerList
  some do
    let resource ← resource
    let owner ← owner
    some (.ofBytes resource, .ofBytes owner)

def CoreEnv.lockTime (env : CoreEnv) : Int := env.now.toNat

def handleLock : CoreResult := do
  let args ← lockHeaders msg
  match args with
  | none => s.reply ⟨.badRequest, -1, .text (lit "Need: resource, owner headers\n").bytes⟩
  | some (resource, owner) =>
    let r := apiResourceLock env.lockTime s.locks resource owner
    let s := { s with locks := r.1 }
    if r.2 = 0 then
      s.reply ⟨.ok, 0, .text (printed (.concat
        [.lit "Locked: ", resource, .lit " (owner: ", owner, .lit ")\n"])).bytes⟩
    else
      let cur := ((findLock s.locks resource).map fun e => e.2.owner).getD (.lit "?")
      s.reply ⟨.conflict, 0, .text (printed (.concat
        [.lit "Already locked by: ", cur, .lit "\n"])).bytes⟩

def handleUnlock : CoreResult := do
  let args ← lockHeaders msg
  match args with
  | none => s.reply (.fail .badRequest)
  | some (resource, owner) =>
    let r := apiResourceUnlock s.locks resource owner
    let s := { s with locks := r.1 }
    if r.2 = 0 then
      s.reply ⟨.ok, 0, .text (printed (.concat [.lit "Unlocked: ", resource, .lit "\n"])).bytes⟩
    else if r.2 = -2 then s.reply ⟨.forbidden, 0, .text (lit "Not your lock\n").bytes⟩
    else s.reply ⟨.notFound, 0, .text (lit "Not locked\n").bytes⟩

def handleKeepalive : CoreResult := do
  let args ← lockHeaders msg
  match args with
  | none => s.reply (.fail .badRequest)
  | some (resource, owner) =>
    let r := apiResourceKeepalive env.lockTime s.locks resource owner
    CoreState.reply { s with locks := r.1 } ⟨if r.2 = 0 then .ok else .notFound, 0, .none⟩

def handleLocks (path : CStr) : Option CoreResult :=
  if path = .lit "/core/locks" ∧ msg.method = portalMethodGet then
    some do
      let filter ← lastHdr (.lit "resource") msg.headerList
      s.reply (.list (.locks (filter.map ofBytes)))
  else if path = .lit "/core/locks/lock" ∧ msg.method = portalMethodCall then
    some (handleLock env s msg)
  else if path = .lit "/core/locks/unlock" ∧ msg.method = portalMethodCall then
    some (handleUnlock s msg)
  else if path = .lit "/core/locks/keepalive" ∧ msg.method = portalMethodCall then
    some (handleKeepalive env s msg)
  else none

/-! ### Storage -/

/-- `/functions/sync`: the provider is given every user. Without `user_save` it is a call
through NULL. -/
def handleSync (prov : StorageProvider) : CoreResult :=
  match prov.userSave with
  | none => if s.auth.accounts = [] then
        s.reply ⟨.ok, 0, textz (.concat [.lit "Synced 0 users to ", prov.name, .lit "\n"])⟩
      else none
  | some save =>
    let rows := s.auth.accounts.map AuthAccount.stored
    let synced := rows.countP fun row => save row = 0
    CoreState.reply { s with writes := s.writes ++ rows.map (.user prov.name) }
      ⟨.ok, 0, textz (.concat [.lit "Synced ", .ofInt synced, .lit " users to ", prov.name,
        .lit "\n"])⟩

def handleStorage (path : CStr) : Option CoreResult :=
  if path = .lit "/core/storage" ∧ msg.method = portalMethodGet then
    some (s.reply (.list .backends))
  else
    match afterPrefix (.lit "/core/storage/") path with
    | none => none
    | some rest =>
      match (cutSegment rest).2 with
      | none => none
      | some sub =>
        match portalStorageFind s.storage (cutSegment rest).1 with
        | none => some (s.reply (.fail .notFound))
        | some prov =>
          if sub = .lit "/resources/status" then some (s.reply (.list (.backend prov.name)))
          else if sub = .lit "/functions/sync" then some (handleSync s prov)
          else none

/-- The groups of tests of `core_handle_message`, in its order. -/
def coreHandlers (path : CStr) : List (Option CoreResult) :=
  [handleNavigation s msg path, handleModules env s msg path, handleAuth env s msg path,
    handleEvents s msg path, handleUsers env s msg path, handleGroups env s msg path,
    handleConfig env s msg path, handleLocks env s msg path, handleStorage s msg path]

def coreHandleMessage : CoreResult :=
  match msg.path with
  | none => none
  | some path =>
    ((coreHandlers env s msg (.ofBytes path)).findSome? id).getD (s.reply (.fail .notFound))

end Handlers

/-! ### A message and its reply -/

def CoreState.inst (s : CoreState) : PortalInstance :=
  ⟨s.paths, s.modules, portalConfigGet s.config⟩

/-- What a call of `send` asks of the world: the counters for the trace, and what the handler
of a module answers. -/
structure SendEnv where
  core : CoreEnv
  nextId : UInt64
  nowUs : UInt64
  fnHandle : CStr → PortalMsg → Reply

def Reply.toCore (r : Reply) : CoreReply :=
  ⟨r.status, r.rc, if r.body = [] then .none else .text r.body⟩

/-- `core->send` for the sender: the message is routed and handled. The handler of a module
leaves the state of the core as it is. -/
def coreSend (env : SendEnv) (s : CoreState) (msg : PortalMsg) : CoreResult :=
  match apiSend s.inst env.nextId env.nowUs msg with
  | (.crash, _) => none
  | (.notFound, _) => s.reply (.fail .notFound)
  | (.forbidden, _) => s.reply (.fail .forbidden)
  | (.unavailable, _) => s.reply (.fail .unavailable)
  | (.coreHandle, msg) => coreHandleMessage env.core s msg
  | (.handle modName, msg) => s.reply (env.fnHandle modName msg).toCore

def plainEnv : CoreEnv where
  now := 1
  sha256Hex _ := .lit ""
  token := .lit ""
  key := ⟨.lit "", Nat.zero_le _⟩
  portalModuleDo _ _ s := (s, 0)
  userFile := true
  groupFile := true
  written _ := true

def plainState (auth : AuthDb) : CoreState where
  paths := portalPathInit
  modules := []
  config := portalHtInit htInitialCapacity
  auth := auth
  events := portalEventsInit
  locks := lockTableInit
  store := ⟨fun _ => none, fun _ => none⟩
  storage := []
  writes := []

def rootSends (path : CStr) (method : UInt8) (headers : List (CStr × CStr)) : PortalMsg :=
  { PortalMsg.zero with
    path := some path.bytes
    method := method
    headerCount := UInt16.ofNat headers.length
    headers := headers.map fun h => ⟨some h.1.bytes, some h.2.bytes⟩
    ctx := some { PortalCtx.zero with auth := ⟨some portalRootUser.bytes, none, .empty⟩ } }

end Portal
