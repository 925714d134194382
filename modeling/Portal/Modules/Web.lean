import Portal.Core.Handlers
import Portal.Modules.Http

/-!
The HTTP gateway of `modules/mod_web/mod_web.c`: `handle_http_request` up to the message it
sends, and `on_http_client` around it. What is written back is not modelled beyond its kind.
-/

namespace Portal.Web

open List Option
open CStr (ofBytes_bytes lit)

/-! ### The message of a request -/

def httpToPortalMethod (method : CStr) : UInt8 :=
  if method = .lit "GET" then portalMethodGet
  else if method = .lit "POST" then portalMethodSet
  else if method = .lit "PUT" then portalMethodCall
  else if method = .lit "DELETE" then portalMethodCall
  else portalMethodGet

def portalPath (apiPrefix path : CStr) : CStr :=
  let rest := (afterPrefix apiPrefix path).getD path
  let rest := if rest.bytes.head?.getD slash = slash then rest else path
  stripSlashes 1 (rest.truncate (portalMaxPathLen - 1))

def isIndex (path : CStr) : Bool := path.bytes = [] || path = .lit "/"

def hexDigit (c : UInt8) : Option Nat :=
  if 48 ≤ c ∧ c ≤ 57 then some (c.toNat - 48)
  else if 65 ≤ c ∧ c ≤ 70 then some (c.toNat - 55)
  else if 97 ≤ c ∧ c ≤ 102 then some (c.toNat - 87)
  else none

/-- `sscanf(s, "%2x", &ch)`, and `(char)ch`: a sign takes one of the two places. -/
def scanHex (s : Bytes) : Option UInt8 :=
  match s.dropWhile isSpace with
  | 43 :: c :: _ => (hexDigit c).map UInt8.ofNat
  | 45 :: c :: _ => (hexDigit c).map fun d => 0 - UInt8.ofNat d
  | a :: b :: _ =>
    (hexDigit a).map fun x => UInt8.ofNat ((hexDigit b).elim x fun y => 16 * x + y)
  | [a] => (hexDigit a).map UInt8.ofNat
  | [] => none

/-- `%XX` is a byte, `+` a space. -/
def urlDecode : Bytes → Bytes
  | [] => []
  | 43 :: s => 32 :: urlDecode s
  | 37 :: a :: b :: s =>
    match scanHex (a :: b :: s) with
    | some c => c :: urlDecode s
    | none => 37 :: urlDecode (a :: b :: s)
  | c :: s => c :: urlDecode s

/-- `key=value` pairs; a part without `=` is skipped. -/
def queryPairs (query : CStr) : List (CStr × CStr) :=
  ((query.bytes.splitOn 38).filter (· ≠ [])).filterMap fun pair =>
    if 61 ∈ pair then
      some (.ofBytes (urlDecode (pair.takeWhile (· ≠ 61))),
        .ofBytes (urlDecode ((pair.dropWhile (· ≠ 61)).drop 1)))
    else none

/-- What the calls of `send` do, the number of the message, the configured prefix and the address
of the peer (empty if it is not known). -/
structure WebEnv extends SendEnv where
  msgId : UInt64
  apiPrefix : CStr
  srcIp : CStr

def requestMsg (env : WebEnv) (req : HttpRequest) : PortalMsg :=
  let msg : PortalMsg :=
    { PortalMsg.zero with
      id := env.msgId
      path := some (portalPath env.apiPrefix req.path).bytes
      method :=
        if (strstr (CStr.lit "action=").bytes req.query.bytes).isSome then portalMethodCall
        else httpToPortalMethod req.method
      body := req.body }
  let msg := if env.srcIp.bytes = [] then msg
    else (portalMsgAddHeader msg (.lit "_source_ip") env.srcIp).1
  (queryPairs req.query).foldl (fun msg kv => (portalMsgAddHeader msg kv.1 kv.2).1) msg

def tokenCtx (token : CStr) : PortalCtx :=
  { PortalCtx.zero with auth := ⟨none, some token.bytes, .empty⟩ }

/-- Basic: the name as sent, and the token of the login. -/
def basicCtx (user token : CStr) : PortalCtx :=
  { PortalCtx.zero with auth := ⟨some user.bytes, some token.bytes, .empty⟩ }

/-- The number of the login is taken after that of the request's own message. -/
def loginMsg (env : WebEnv) (user pass : CStr) : PortalMsg :=
  { PortalMsg.zero with
    id := env.msgId + 1
    path := some (CStr.lit "/auth/login").bytes
    method := portalMethodCall
    headerCount := 2
    headers := [⟨some (CStr.lit "username").bytes, some user.bytes⟩,
      ⟨some (CStr.lit "password").bytes, some pass.bytes⟩] }

def loginToken (r : CoreReply) : Option CStr :=
  match r.status, r.body with
  | .ok, .text body =>
    let token := (CStr.ofBytes body).truncate 127
    some (token.truncate (token.bytes.reverse.dropWhile (· = 10)).length)
  | _, _ => none

/-! ### `handle_http_request` and `on_http_client` -/

inductive WebOutcome where
  | badRequest
  | cors           -- the answer to `OPTIONS`
  | unauthorized   -- the Basic login failed
  | index (msg : PortalMsg)     -- answered with the registered paths
  | dispatch (msg : PortalMsg)
deriving DecidableEq

def WebOutcome.sent : WebOutcome → Option PortalMsg
  | .index msg => some msg
  | .dispatch msg => some msg
  | _ => none

def indexMsg (env : WebEnv) : PortalMsg :=
  { PortalMsg.zero with
    id := env.msgId
    path := some (CStr.lit "/core/paths").bytes
    method := portalMethodGet }

def callerMsg (env : WebEnv) (req : HttpRequest) (ctx : PortalCtx) : PortalMsg :=
  { requestMsg env req with ctx := some ctx }

def handleHttpRequest (env : WebEnv) (s : CoreState) (req : HttpRequest) :
    Option (CoreState × WebOutcome) :=
  if req.method = .lit "OPTIONS" then some (s, .cors)
  else if isIndex (portalPath env.apiPrefix req.path) then
    some (s, .index (indexMsg env))
  else if req.authToken.bytes ≠ [] then
    some (s, .dispatch (callerMsg env req (tokenCtx req.authToken)))
  else if req.basicUser.bytes ≠ [] then do
    let (s, reply) ← coreSend env.toSendEnv s (loginMsg env req.basicUser req.basicPass)
    match loginToken reply with
    | some token => some (s, .dispatch (callerMsg env req (basicCtx req.basicUser token)))
    | none => some (s, .unauthorized)
  else some (s, .dispatch (requestMsg env req))

/-- `raw` is what one `read` returned, `left` what lies in memory behind it. -/
def onHttpClient (env : WebEnv) (left : Leftover) (s : CoreState) (raw : Bytes) :
    Option (CoreState × WebOutcome) :=
  match parseHttpRequest left raw with
  | none => some (s, .badRequest)
  | some req => handleHttpRequest env s req

/-! ### Who the request acts as -/

def userCtx (u : AuthUser) : PortalCtx :=
  { PortalCtx.zero with auth := ⟨some u.username.bytes, none, u.labels⟩ }

section Permits

variable (labels : PortalLabels)

theorem permits_none_iff : Permits labels none ↔ labels.labels = [] := by
  simp [Permits]

theorem permits_tokenCtx_iff (token : CStr) :
    Permits labels (some (tokenCtx token)) ↔ labels.labels = [] := by
  simp [Permits, tokenCtx, PortalCtx.userName]

theorem permits_basicCtx_iff (user token : CStr) :
    Permits labels (some (basicCtx user token)) ↔ user = portalRootUser ∨ labels.labels = [] := by
  simp [Permits, basicCtx, PortalCtx.userName, ofBytes_bytes, PortalLabels.empty]

theorem permits_userCtx_iff (u : AuthUser) :
    Permits labels (some (userCtx u)) ↔
      u.username = portalRootUser ∨ labels.labels = [] ∨
        portalLabelsIntersects labels u.labels = true := by
  simp [Permits, userCtx, PortalCtx.userName, ofBytes_bytes, portalLabelsIntersects_iff]

end Permits

/-- The decision on the message is the same with the other context. -/
def SameDecision (env : WebEnv) (s : CoreState) (msg : PortalMsg) (ctx : Option PortalCtx) : Prop :=
  (apiSend s.inst env.nextId env.nowUs msg).1 =
    (apiSend s.inst env.nextId env.nowUs { msg with ctx := ctx }).1

/-- A message is sent for the request, and the router decides on it as for the user. -/
def ActsAs (env : WebEnv) (left : Leftover) (s : CoreState) (raw : Bytes) (u : AuthUser) : Prop :=
  ∃ s' o msg, onHttpClient env left s raw = some (s', o) ∧ o.sent = some msg ∧
    SameDecision env s' msg (some (userCtx u))

/-- The request carries a good token, API key or Basic password of the user. -/
inductive Carries (env : WebEnv) (s : CoreState) (req : HttpRequest) : AuthUser → Prop where
  | token {u : AuthUser}
      (good : Resolves s.auth.registry env.core.now (some req.authToken.bytes) u) :
      Carries env s req u
  | basic {account : AuthAccount} (noToken : req.authToken.bytes = [])
      (named : req.basicUser.bytes ≠ []) (found : findAccount s.auth req.basicUser = some account)
      (good : portalAuthCheckPassword env.core.sha256Hex account.password req.basicPass = true) :
      Carries env s req account.toAuthUser

def target (env : WebEnv) (req : HttpRequest) : CStr :=
  let path := portalPath env.apiPrefix req.path
  if isIndex path then .lit "/core/paths" else path

def targetEntry (env : WebEnv) (s : CoreState) (req : HttpRequest) : Option PathEntry :=
  portalPathLookupEntry s.paths (.ofBytes (stripOwnName s.inst (target env req).bytes))

/-- The request is one for which `mod_web` logs in. -/
def NeedsLogin (env : WebEnv) (req : HttpRequest) : Prop :=
  isIndex (portalPath env.apiPrefix req.path) = false ∧ req.authToken.bytes = []

/-- The login is routed to the login handler of the core, or to a module that grants it. -/
def LoginServed (env : WebEnv) (s : CoreState) (req : HttpRequest) : Prop :=
  match apiSend s.inst env.nextId env.nowUs (loginMsg env req.basicUser req.basicPass) with
  | (.coreHandle, msg) => msg.path = some (CStr.lit "/auth/login").bytes
  | (.handle modName, msg) => (loginToken (env.fnHandle modName msg).toCore).isSome
  | _ => False

/-- The path has no labels, or the user is not root (if the name is lacking) and shares none of
them. -/
def Unaffected (named : Prop) (u : AuthUser) (e : PathEntry) : Prop :=
  e.labels.labels = [] ∨ named ∧ u.username = portalRootUser ∨
    u.username ≠ portalRootUser ∧ portalLabelsIntersects e.labels u.labels = false


/-! ### The login of a Basic request -/

theorem stripOwnName_login (inst : PortalInstance) :
    stripOwnName inst (CStr.lit "/auth/login").bytes ∈
      [(CStr.lit "/auth/login").bytes, (CStr.lit "/login").bytes, (CStr.lit "/").bytes] := by
  unfold stripOwnName
  cases ownName inst with
  | none => exact mem_cons_self
  | some own =>
    simp only
    split
    · rename_i hself
      simp only [selfReference, ofBytes_bytes, Bool.and_eq_true, decide_eq_true_eq] at hself
      obtain ⟨⟨⟨-, -⟩, hprefix⟩, hnext⟩ := hself
      -- only the length of the name matters, and it is at most ten
      have hle : own.bytes.length ≤ 10 := hprefix.length_le
      generalize own.bytes.length = n at hle hnext
      revert hnext
      revert n
      decide +kernel
    · exact mem_cons_self

theorem coreHandlers_notLogin (env : CoreEnv) (s : CoreState) (msg : PortalMsg) :
    (coreHandlers env s msg (.lit "/login")).findSome? id = none ∧
      (coreHandlers env s msg (.lit "/")).findSome? id = none :=
  ⟨rfl, rfl⟩

theorem coreHandlers_login (env : CoreEnv) (s : CoreState) (msg : PortalMsg) :
    (coreHandlers env s msg (.lit "/auth/login")).findSome? id =
      some (handleAuthLoginEnhanced env s msg) :=
  rfl

section Login

variable {env : WebEnv} {s : CoreState} {req : HttpRequest} {account : AuthAccount}

/-- What the login handler reads of the message does not depend on the routing. -/
theorem handleAuthLoginEnhanced_login {msg : PortalMsg}
    (hheaders : msg.toPortalHeaders = (loginMsg env req.basicUser req.basicPass).toPortalHeaders)
    (found : findAccount s.auth req.basicUser = some account)
    (good : portalAuthCheckPassword env.core.sha256Hex account.password req.basicPass = true) :
    handleAuthLoginEnhanced env.core s msg =
      CoreState.reply
        { s with auth := openSession s.auth env.core.now env.core.token req.basicUser }
        ⟨.ok, 0, textz (env.core.token.append (.lit "\n"))⟩ := by
  have hlist : msg.headerList = (loginMsg env req.basicUser req.basicPass).headerList := by
    unfold PortalMsg.headerList
    rw [hheaders]
  have huser : getHdr (.lit "username") msg.headerList = some (some req.basicUser.bytes) := by
    rw [hlist]
    rfl
  have hpass : getHdr (.lit "password") msg.headerList = some (some req.basicPass.bytes) := by
    rw [hlist]
    rfl
  have hkey : getHdr (.lit "api_key") msg.headerList = some none := by
    rw [hlist]
    rfl
  simp [handleAuthLoginEnhanced, huser, hpass, hkey, ofBytes_bytes, portalAuthLogin, found,
    good]

theorem loginToken_ok (token : CStr) :
    ∃ t, loginToken ⟨.ok, 0, textz token⟩ = some t :=
  ⟨_, rfl⟩

theorem apiSend_login (env : WebEnv) (s : CoreState) (user pass : CStr) :
    (apiSend s.inst env.nextId env.nowUs (loginMsg env user pass)).2 =
      { populateTrace env.nextId env.nowUs (loginMsg env user pass) with
        path := some (stripOwnName s.inst (lit "/auth/login").bytes) } :=
  rfl

/-- A good password is accepted where the login is served, and the registry of paths stays. -/
theorem coreSend_login_of_served
    (found : findAccount s.auth req.basicUser = some account)
    (good : portalAuthCheckPassword env.core.sha256Hex account.password req.basicPass = true)
    (hserved : LoginServed env s req) :
    ∃ s' r token,
      coreSend env.toSendEnv s (loginMsg env req.basicUser req.basicPass) = some (s', r) ∧
      loginToken r = some token ∧ s'.inst = s.inst := by
  have hmsg := apiSend_login env s req.basicUser req.basicPass
  unfold LoginServed at hserved
  unfold coreSend
  split at hserved
  · rename_i msg hsend
    rw [hsend] at hmsg ⊢
    simp only at hmsg
    have hcore : coreHandleMessage env.core s msg = handleAuthLoginEnhanced env.core s msg := by
      simp [coreHandleMessage, hserved, ofBytes_bytes, coreHandlers_login]
    have hheaders : msg.toPortalHeaders =
        (loginMsg env req.basicUser req.basicPass).toPortalHeaders := by
      rw [hmsg]
      rfl
    obtain ⟨t, ht⟩ := loginToken_ok (env.core.token.append (.lit "\n"))
    exact ⟨_, _, t, hcore.trans (handleAuthLoginEnhanced_login hheaders found good), ht, rfl⟩
  · rename_i modName msg hsend
    obtain ⟨t, ht⟩ := isSome_iff_exists.mp hserved
    rw [hsend]
    exact ⟨s, _, t, rfl, ht, rfl⟩
  · exact hserved.elim

theorem loginToken_of_not_served (hserved : ¬ LoginServed env s req) {s' : CoreState}
    {r : CoreReply}
    (hsend : coreSend env.toSendEnv s (loginMsg env req.basicUser req.basicPass) = some (s', r)) :
    loginToken r = none := by
  have hmsg := apiSend_login env s req.basicUser req.basicPass
  unfold LoginServed at hserved
  unfold coreSend at hsend
  split at hsend
  · cases hsend
  · cases hsend
    rfl
  · cases hsend
    rfl
  · cases hsend
    rfl
  · rename_i msg happ
    rw [happ] at hserved hmsg
    simp only at hserved hmsg
    have hpath : msg.path = some (stripOwnName s.inst (lit "/auth/login").bytes) := by
      rw [hmsg]
    have hnotFound : coreHandleMessage env.core s msg = s.reply (.fail .notFound) := by
      have hother := coreHandlers_notLogin env.core s msg
      have hmem := stripOwnName_login s.inst
      simp only [mem_cons, not_mem_nil, or_false] at hmem
      rcases hmem with h | h | h
      · exact absurd (hpath.trans (congrArg some h)) hserved
      · simp [coreHandleMessage, hpath, h, ofBytes_bytes, hother.1]
      · simp [coreHandleMessage, hpath, h, ofBytes_bytes, hother.2]
    rw [hnotFound] at hsend
    cases hsend
    rfl
  · rename_i modName msg happ
    rw [happ] at hserved
    cases hsend
    exact Option.not_isSome_iff_eq_none.mp hserved

end Login

/-! ### When the decision is the user's -/

theorem path_requestMsg (env : WebEnv) (req : HttpRequest) :
    (requestMsg env req).path = some (portalPath env.apiPrefix req.path).bytes := by
  unfold requestMsg
  apply foldlRecOn (motive := fun m : PortalMsg => m.path = _)
  · split
    · rfl
    · rw [path_portalMsgAddHeader]
  · intro m hm kv _
    exact (path_portalMsgAddHeader m kv.1 kv.2).trans hm

section Decision

variable {env : WebEnv} {s s' : CoreState} {req : HttpRequest} {msg : PortalMsg}

/-- The decision on a message to the target of the request, in terms of the entry there. -/
theorem sameDecision_iff (hinst : s'.inst = s.inst)
    (hpath : msg.path = some (target env req).bytes) (ctx : Option PortalCtx) :
    SameDecision env s' msg ctx ↔
      ∀ e, targetEntry env s req = some e → (Permits e.labels msg.ctx ↔ Permits e.labels ctx) := by
  unfold SameDecision targetEntry
  rw [hinst]
  exact apiSend_withCtx_eq_iff s.inst env.nextId env.nowUs hpath ctx

/-- Without a name the message is decided as the user's exactly if the lack of name and labels
makes no difference. -/
theorem permits_anonymous_iff (e : PathEntry) (u : AuthUser) :
    (e.labels.labels = [] ↔ Permits e.labels (some (userCtx u))) ↔ Unaffected False u e := by
  rw [permits_userCtx_iff, Unaffected]
  rw [← Bool.not_eq_true]
  tauto

theorem permits_named_iff (e : PathEntry) (u : AuthUser) :
    (u.username = portalRootUser ∨ e.labels.labels = [] ↔ Permits e.labels (some (userCtx u))) ↔
      Unaffected True u e := by
  rw [permits_userCtx_iff, Unaffected]
  rw [← Bool.not_eq_true]
  tauto

theorem target_eq_of_index (h : isIndex (portalPath env.apiPrefix req.path) = true) :
    target env req = .lit "/core/paths" := by
  exact if_pos h

theorem target_eq_of_not_index (h : isIndex (portalPath env.apiPrefix req.path) = false) :
    target env req = portalPath env.apiPrefix req.path := by
  unfold target
  simp [h]

/-- Where there is no login, the message of the request has no name and no labels. -/
theorem handleHttpRequest_anonymous (hmethod : req.method ≠ .lit "OPTIONS")
    (hlogin : ¬ NeedsLogin env req) :
    ∃ o msg, handleHttpRequest env s req = some (s, o) ∧ o.sent = some msg ∧
      msg.path = some (target env req).bytes ∧
      ∀ labels, Permits labels msg.ctx ↔ labels.labels = [] := by
  unfold handleHttpRequest
  rw [if_neg hmethod]
  cases hindex : isIndex (portalPath env.apiPrefix req.path) with
  | true =>
    rw [target_eq_of_index hindex]
    exact ⟨_, _, rfl, rfl, rfl, permits_none_iff⟩
  | false =>
    have htoken : req.authToken.bytes ≠ [] := fun h => hlogin ⟨hindex, h⟩
    simp only [Bool.false_eq_true, if_false, if_pos htoken]
    rw [target_eq_of_not_index hindex]
    exact ⟨_, _, rfl, rfl, path_requestMsg env req, fun labels => permits_tokenCtx_iff labels _⟩

theorem handleHttpRequest_login (hmethod : req.method ≠ .lit "OPTIONS")
    (hlogin : NeedsLogin env req) (named : req.basicUser.bytes ≠ []) :
    handleHttpRequest env s req =
      (coreSend env.toSendEnv s (loginMsg env req.basicUser req.basicPass)).bind fun x =>
        match loginToken x.2 with
        | some token => some (x.1, .dispatch (callerMsg env req (basicCtx req.basicUser token)))
        | none => some (x.1, .unauthorized) := by
  have htoken : ¬ req.authToken.bytes ≠ [] := not_not.mpr hlogin.2
  simp only [handleHttpRequest, if_neg hmethod, hlogin.1, Bool.false_eq_true, if_false,
    if_neg htoken, if_pos named]
  rfl

end Decision

theorem token_ne_nil_of_resolves {reg : PortalAuthRegistry} {now : UInt64} {token : CStr}
    {u : AuthUser} (h : Resolves reg now (some token.bytes) u) : token.bytes ≠ [] := by
  intro hempty
  have hread : (CStr.ofBytes []).bytes = [] := rfl
  simp [Resolves, portalAuthResolveToken, portalAuthFindByKey, hempty, hread] at h

section ActsAs

variable {env : WebEnv} {left : Leftover} {s s' : CoreState} {raw : Bytes} {req : HttpRequest}
  {u : AuthUser} {o : WebOutcome}

section

variable (hparse : parseHttpRequest left raw = some req)

include hparse

theorem actsAs_iff_of_sent {msg : PortalMsg}
    (hres : handleHttpRequest env s req = some (s', o)) (hsent : o.sent = some msg) :
    ActsAs env left s raw u ↔ SameDecision env s' msg (some (userCtx u)) := by
  have hclient : onHttpClient env left s raw = some (s', o) := by
    simp only [onHttpClient, hparse, hres]
  constructor
  · rintro ⟨s₂, o₂, msg₂, hclient₂, hsent₂, hsame⟩
    cases hclient.symm.trans hclient₂
    cases hsent.symm.trans hsent₂
    exact hsame
  · intro hsame
    exact ⟨s', o, msg, hclient, hsent, hsame⟩

theorem not_actsAs_of_sent
    (hsent : ∀ s' o, handleHttpRequest env s req = some (s', o) → o.sent = none) :
    ¬ ActsAs env left s raw u := by
  rintro ⟨s', o, msg, hclient, hmsg, -⟩
  simp only [onHttpClient, hparse] at hclient
  rw [hsent s' o hclient] at hmsg
  cases hmsg

theorem actsAs_anonymous_iff (hmethod : req.method ≠ .lit "OPTIONS")
    (hlogin : ¬ NeedsLogin env req) :
    ActsAs env left s raw u ↔ ∀ e, targetEntry env s req = some e → Unaffected False u e := by
  obtain ⟨o, msg, hres, hsent, hpath, hctx⟩ := handleHttpRequest_anonymous (s := s) hmethod hlogin
  rw [actsAs_iff_of_sent hparse hres hsent, sameDecision_iff rfl hpath]
  simp only [hctx, permits_anonymous_iff]

/-- A Basic request is decided like one of a user of that name without labels. -/
theorem actsAs_login_iff (hmethod : req.method ≠ .lit "OPTIONS") (hlogin : NeedsLogin env req)
    (named : req.basicUser.bytes ≠ []) {account : AuthAccount}
    (found : findAccount s.auth req.basicUser = some account)
    (good : portalAuthCheckPassword env.core.sha256Hex account.password req.basicPass = true) :
    ActsAs env left s raw account.toAuthUser ↔
      LoginServed env s req ∧
        ∀ e, targetEntry env s req = some e → Unaffected True account.toAuthUser e := by
  have hresult := handleHttpRequest_login (s := s) hmethod hlogin named
  have hname : req.basicUser = account.username := by
    have := find?_some found
    simpa [eq_comm] using this
  by_cases hserved : LoginServed env s req
  · obtain ⟨s', r, token, hsend, htoken, hinst⟩ := coreSend_login_of_served found good hserved
    have hres : handleHttpRequest env s req =
        some (s', .dispatch (callerMsg env req (basicCtx req.basicUser token))) := by
      rw [hresult, hsend]
      simp [htoken]
    have hpath : (callerMsg env req (basicCtx req.basicUser token)).path =
        some (target env req).bytes := by
      rw [target_eq_of_not_index hlogin.1]
      exact path_requestMsg env req
    rw [actsAs_iff_of_sent hparse hres rfl, sameDecision_iff hinst hpath]
    simp [callerMsg, permits_basicCtx_iff, hname, permits_named_iff, hserved]
  · have hnone : ¬ ActsAs env left s raw account.toAuthUser := by
      apply not_actsAs_of_sent hparse
      intro s' o hres
      rw [hresult] at hres
      obtain ⟨x, hsend, hx⟩ := bind_eq_some_iff.mp hres
      rw [loginToken_of_not_served hserved hsend] at hx
      cases hx
      rfl
    simp [hnone, hserved]

end

end ActsAs

/-- A request with a good credential of a user is decided on as the user's exactly if it is not
`OPTIONS`, its login (if it is a Basic request) is served, and the entry of its path does not look
at what the message lacks. A token that is good for nobody leaves the request anonymous. -/
theorem onHttpClient_actsAs_iff (env : WebEnv) (left : Leftover) (s : CoreState) (raw : Bytes)
    (req : HttpRequest) (hparse : parseHttpRequest left raw = some req) :
    (∀ u, Carries env s req u →
      (ActsAs env left s raw u ↔
        req.method ≠ .lit "OPTIONS" ∧ (NeedsLogin env req → LoginServed env s req) ∧
          ∀ e, targetEntry env s req = some e → Unaffected (NeedsLogin env req) u e)) ∧
    (req.authToken.bytes ≠ [] →
      (∀ u, ¬ Resolves s.auth.registry env.core.now (some req.authToken.bytes) u) →
      ∀ s' o msg, onHttpClient env left s raw = some (s', o) → o.sent = some msg →
        SameDecision env s' msg none) := by
  constructor
  · intro u hcarries
    by_cases hmethod : req.method = .lit "OPTIONS"
    · have hnone : ¬ ActsAs env left s raw u := by
        apply not_actsAs_of_sent hparse
        intro s' o hres
        rw [handleHttpRequest, if_pos hmethod] at hres
        cases hres
        rfl
      simp [hnone, hmethod]
    · by_cases hlogin : NeedsLogin env req
      · cases hcarries with
        | token good => exact absurd hlogin.2 (token_ne_nil_of_resolves good)
        | basic noToken named found good =>
          rw [actsAs_login_iff hparse hmethod hlogin named found good]
          simp [hmethod, hlogin]
      · rw [actsAs_anonymous_iff hparse hmethod hlogin]
        simp [hmethod, hlogin]
  intro htoken _ s' o msg hclient hsent
  simp only [onHttpClient, hparse] at hclient
  have hmethod : req.method ≠ .lit "OPTIONS" := by
    intro hoptions
    rw [handleHttpRequest, if_pos hoptions] at hclient
    cases hclient
    cases hsent
  have hlogin : ¬ NeedsLogin env req := fun h => htoken h.2
  obtain ⟨o₂, msg₂, hres, hsent₂, hpath, hctx⟩ :=
    handleHttpRequest_anonymous (s := s) hmethod hlogin
  cases hres.symm.trans hclient
  cases hsent₂.symm.trans hsent
  rw [sameDecision_iff rfl hpath]
  intro e _
  rw [hctx, permits_none_iff]

/-! ### Two requests -/

def apiEnv : WebEnv where
  core := plainEnv
  nextId := 1
  nowUs := 1
  fnHandle _ _ := .fail .notFound
  msgId := 1
  apiPrefix := .lit "/api"
  srcIp := .lit ""

def noLeftover : Leftover := ⟨[], [], fun _ => 0⟩

def staffLabels : PortalLabels := (portalLabelsAdd .empty (.lit "staff")).1

/-- `ann` has the label `staff`, a session, and a path `/a/x` that asks for the label. -/
def staffState : CoreState where
  paths := (portalPathAddLabel
    (portalPathRegister portalPathInit (.lit "/a/x") (.lit "m")).1 (.lit "/a/x") (.lit "staff")).1
  modules := [⟨.lit "m", true, false⟩]
  config := portalHtInit htInitialCapacity
  auth := ⟨[newAccount (.lit "root") (.lit "secret") .empty,
    newAccount (.lit "ann") (.lit "old") staffLabels], [⟨.lit "tok", .lit "ann", 0, true⟩], 3600⟩
  events := portalEventsInit
  locks := lockTableInit
  store := ⟨fun _ => none, fun _ => none⟩
  storage := []
  writes := []

def getRequest (authToken basicUser basicPass : CStr) : HttpRequest where
  method := .lit "GET"
  path := .lit "/api/a/x"
  query := .lit ""
  authToken
  basicUser
  basicPass
  contentType := .lit ""
  body := []

/-- Root logs in with Basic and is let through. -/
theorem onHttpClient_actsAs_root :
    ∃ root, findAccount staffState.auth (.lit "root") = some root ∧
      ActsAs apiEnv noLeftover staffState (CStr.lit
        "GET /api/a/x HTTP/1.1\r\nAuthorization: Basic cm9vdDpzZWNyZXQ=\r\n\r\n").bytes
        root.toAuthUser := by
  have hparse : parseHttpRequest noLeftover (lit
      "GET /api/a/x HTTP/1.1\r\nAuthorization: Basic cm9vdDpzZWNyZXQ=\r\n\r\n").bytes =
        some (getRequest (.lit "") (.lit "root") (.lit "secret")) := by
    decide +kernel
  have hcarries : Carries apiEnv staffState (getRequest (.lit "") (.lit "root") (.lit "secret"))
      (newAccount (.lit "root") (.lit "secret") .empty).toAuthUser :=
    .basic rfl (by decide +kernel) rfl (by decide +kernel)
  refine ⟨_, rfl, ((onHttpClient_actsAs_iff apiEnv noLeftover staffState _ _ hparse).1 _
    hcarries).mpr ⟨by decide +kernel, fun _ => ?_, fun e _ => ?_⟩⟩
  · rw [LoginServed]
    rfl
  · exact .inr (.inl ⟨⟨by decide +kernel, rfl⟩, by decide +kernel⟩)

/-- `ann` may use the path and has a good token, but the request is refused: the message carries
neither the name nor the label. -/
theorem onHttpClient_actsAs_false :
    ∃ req ann, parseHttpRequest noLeftover (CStr.lit
        "GET /api/a/x HTTP/1.1\r\nAuthorization: Bearer tok\r\n\r\n").bytes = some req ∧
      findAccount staffState.auth (.lit "ann") = some ann ∧
      Carries apiEnv staffState req ann.toAuthUser ∧
      ¬ ActsAs apiEnv noLeftover staffState (CStr.lit
        "GET /api/a/x HTTP/1.1\r\nAuthorization: Bearer tok\r\n\r\n").bytes ann.toAuthUser := by
  have hgood : Resolves staffState.auth.registry apiEnv.core.now (some (lit "tok").bytes)
      (newAccount (.lit "ann") (.lit "old") staffLabels).toAuthUser := by
    left
    decide +kernel
  refine ⟨getRequest (.lit "tok") (.lit "") (.lit ""), _, by decide +kernel, rfl, .token hgood, ?_⟩
  rintro ⟨s', o, msg, hclient, hsent, hsame⟩
  have hrun : (onHttpClient apiEnv noLeftover staffState (lit
      "GET /api/a/x HTTP/1.1\r\nAuthorization: Bearer tok\r\n\r\n").bytes).map (fun x =>
        x.2.sent.map fun msg => ((apiSend x.1.inst 1 1 msg).1,
          (apiSend x.1.inst 1 1 { msg with ctx := some (userCtx
            (newAccount (.lit "ann") (.lit "old") staffLabels).toAuthUser) }).1)) =
        some (some (.forbidden, .handle (.lit "m"))) := by
    decide +kernel
  rw [hclient, map_some, hsent, map_some] at hrun
  obtain ⟨hdenied, hallowed⟩ := Prod.mk.inj (some.inj (some.inj hrun))
  cases hdenied.symm.trans (hsame.trans hallowed)
end Portal.Web
