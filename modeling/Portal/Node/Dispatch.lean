import Portal.Core.Router
import Portal.Core.Wire
import Portal.Node.Peers

/-!
What `on_inbound_data` of `modules/mod_node/mod_node.c` does with one complete frame
(its fourth phase): the answer to a waiting request, a tunnel, or a message for the
router. `Action` lists the steps in the order of the source.
-/

namespace Portal

open CStr (ofBytes)

open Option List

variable (hs : List PortalHeader)

/-! ### Tunnel requests -/

def tunnelPipe : CStr := .lit "/tunnel/pipe"
def tunnelShell : CStr := .lit "/tunnel/shell"

/-- The value of the last `port` header, or NULL. Without a result the loop has passed a NULL key
to `strcmp`. -/
def pipePort (hs : List PortalHeader) : Option CharPtr :=
  hs.foldlM (fun port h => do
    let key ← h.key
    some (if ofBytes key = .lit "port" then h.value else port)) none

/-- One header of a shell request; without a result a NULL reached `strcmp` or `atoi`. -/
def shellHeader (size : Int × Int) (h : PortalHeader) : Option (Int × Int) := do
  let key ← h.key
  if ofBytes key = .lit "rows" then
    let value ← h.value
    some (atoi value, size.2)
  else if ofBytes key = .lit "cols" then
    let value ← h.value
    some (size.1, atoi value)
  else some size

/-- The loop over the headers of a shell request, from 24 rows and 80 columns. -/
def shellSize (hs : List PortalHeader) : Option (Int × Int) := hs.foldlM shellHeader (24, 80)

inductive Request where
  | undecodable
  | crash              -- a NULL is dereferenced
  | refused            -- a pipe without a usable port
  | pipe (port : Int)
  | shell (rows cols : Int)
  | message (msg : PortalMsg)
deriving DecidableEq

def Request.forTunnel : Request → Bool
  | .refused => true
  | .pipe _ => true
  | .shell _ _ => true
  | _ => false

def classifyMsg (msg : PortalMsg) : Request :=
  if msg.path.map ofBytes = some tunnelPipe then
    match pipePort msg.headerList with
    | none => .crash
    | some none => .refused
    | some (some portStr) => if 0 < atoi portStr then .pipe (atoi portStr) else .refused
  else if msg.path.map ofBytes = some tunnelShell then
    match shellSize msg.headerList with
    | none => .crash
    | some (rows, cols) => .shell rows cols
  else .message msg

def classify (frame : Bytes) : Request :=
  match decodeFrame frame with
  | none => .undecodable
  | some msg => classifyMsg msg

/-! ### Stamping and dispatch -/

structure InboundConfig where
  /-- `g_node_name` -/
  nodeName : CStr
  /-- `g_federation_inbound_default_user` and its labels, once resolved -/
  defaultIdentity : Option (CStr × PortalLabels)

/-- The identity written over whatever the frame said. -/
def stampAuth (cfg : InboundConfig) (srcPeer : Option NodePeer) : PortalAuth :=
  match srcPeer.filter fun p => p.identityExchanged with
  | some p => ⟨some p.resolvedUser.bytes, none, p.resolvedLabels⟩
  | none =>
    match cfg.defaultIdentity with
    | some d => ⟨some d.1.bytes, none, d.2⟩
    | none => ⟨none, none, .empty⟩

theorem stampAuth_user_iff (nodeName : CStr) (srcPeer : Option NodePeer) (user : Bytes) :
    (stampAuth ⟨nodeName, none⟩ srcPeer).user = some user ↔
      ∃ p, srcPeer = some p ∧ p.identityExchanged = true ∧ p.resolvedUser.bytes = user := by
  cases srcPeer with
  | none => simp [stampAuth]
  | some p => cases hid : p.identityExchanged <;> simp [stampAuth, Option.filter, hid]

def stampCtx (cfg : InboundConfig) (srcPeer : Option NodePeer) (ctx : Option PortalCtx) :
    PortalCtx :=
  let c := ctx.getD .zero
  { c with
    auth := stampAuth cfg srcPeer
    sourceNode := match srcPeer with
      | some p => some p.name.bytes
      | none => c.sourceNode }

/-- `/<own>/` at the front of the path is taken off, up to its second slash. -/
def stripSelf (nodeName : CStr) (path : CharPtr) : CharPtr :=
  path.map fun b =>
    let p := cText b
    let n := nodeName.bytes.length
    if p.head? = some slash && nodeName.bytes ≠ [] && decide (nodeName.bytes <+: p.drop 1) &&
        (p.drop (1 + n)).head? = some slash then p.drop (1 + n)
    else b

inductive Action where
  | answer (frame : Bytes)       -- decoded as the response of the first waiter
  | stamp (ctx : PortalCtx)
  | startPipe (port : Int)
  | startShell (rows cols : Int)
  | send (msg : PortalMsg)       -- to `api_send`
deriving DecidableEq

/-- Phase four of `on_inbound_data`; `pending` says whether a local request waits for a
response on this connection. -/
def onFrame (cfg : InboundConfig) (srcPeer : Option NodePeer) (pending : Bool) (frame : Bytes) :
    List Action :=
  if pending then [.answer frame]
  else
    match classify frame with
    | .pipe port => [.startPipe port]
    | .shell rows cols => [.startShell rows cols]
    | .message msg =>
      let ctx := stampCtx cfg srcPeer msg.ctx
      [.stamp ctx, .send { msg with ctx := some ctx, path := stripSelf cfg.nodeName msg.path }]
    | _ => []

def Action.tunnel : Action → Option CStr
  | .startPipe _ => some tunnelPipe
  | .startShell _ _ => some tunnelShell
  | _ => none

/-- The context carries the identity that was resolved for the peer. -/
def CarriesIdentity (srcPeer : Option NodePeer) (ctx : PortalCtx) : Prop :=
  ∃ p, srcPeer = some p ∧ p.identityExchanged = true ∧
    ctx.auth.user = some p.resolvedUser.bytes ∧ ctx.auth.labels = p.resolvedLabels

/-- Every tunnel is started after the request was stamped with the resolved identity of the peer,
which has access to its path. -/
def TunnelsAuthorised (tree : PortalPathTree) (srcPeer : Option NodePeer) (acts : List Action) :
    Prop :=
  ∀ before act after, acts = before ++ act :: after → ∀ path, act.tunnel = some path →
    ∃ ctx, Action.stamp ctx ∈ before ∧ CarriesIdentity srcPeer ctx ∧
      portalPathCheckAccess tree path (some ctx) = true

/-! ### The frames that ask for a tunnel -/

def PortalHeader.named (h : PortalHeader) (key : CStr) : Bool := h.key.map ofBytes = some key

def lastHeader (hs : List PortalHeader) (key : CStr) : Option PortalHeader :=
  hs.reverse.find? fun h => h.named key

/-- A pipe to a positive port, in headers that all have a name. -/
def AsksPipe (msg : PortalMsg) (port : Int) : Prop :=
  msg.path.map ofBytes = some tunnelPipe ∧ (∀ h ∈ msg.headerList, h.key ≠ none) ∧
    ∃ h v, lastHeader msg.headerList (.lit "port") = some h ∧ h.value = some v ∧
      atoi v = port ∧ 0 < port

/-- A shell, in headers that all have a name, where a size has a value. -/
def AsksShell (msg : PortalMsg) : Prop :=
  msg.path.map ofBytes = some tunnelShell ∧
    ∀ h ∈ msg.headerList, h.key ≠ none ∧
      (h.named (.lit "rows") || h.named (.lit "cols") → h.value ≠ none)

/-- The frame decodes to a request for a tunnel. -/
def AsksTunnel (frame : Bytes) : Prop :=
  ∃ msg, decodeFrame frame = some msg ∧ (AsksShell msg ∨ ∃ port, AsksPipe msg port)

theorem lastHeader_append_singleton (h : PortalHeader) (key : CStr) :
    lastHeader (hs ++ [h]) key = if h.named key then some h else lastHeader hs key := by
  cases hn : h.named key <;> simp [lastHeader, hn]

/-- The loop over the headers of a pipe request finds the last `port` header. -/
theorem pipePort_eq :
    pipePort hs = if ∀ h ∈ hs, h.key ≠ none then
      some ((lastHeader hs (.lit "port")).bind PortalHeader.value) else none := by
  -- the loop runs from the left, so the last header is split off
  induction hs using reverseRecOn with
  | nil => simp [pipePort, lastHeader]
  | append_singleton hs h ih =>
    have hstep : pipePort (hs ++ [h]) = (pipePort hs).bind fun port => h.key.bind fun key =>
        some (if ofBytes key = .lit "port" then h.value else port) := by
      simp only [pipePort, foldlM_append, foldlM_cons, foldlM_nil, bind_pure]
      rfl
    rw [hstep, ih, lastHeader_append_singleton]
    cases hk : h.key with
    | none => simp [hk]
    | some k =>
      by_cases hall : ∀ g ∈ hs, g.key ≠ none
      · have hall' : ∀ g ∈ hs ++ [h], g.key ≠ none := by
          intro g hg
          rcases mem_append.mp hg with hg | hg
          · exact hall g hg
          · simp [mem_singleton.mp hg, hk]
        rw [if_pos hall, if_pos hall']
        by_cases hport : ofBytes k = .lit "port" <;>
          simp [PortalHeader.named, hk, hport]
      · have hall' : ¬ ∀ g ∈ hs ++ [h], g.key ≠ none :=
          fun h' => hall fun g hg => h' g (mem_append_left _ hg)
        rw [if_neg hall, if_neg hall']
        rfl

theorem shellHeader_isSome (size : Int × Int) (h : PortalHeader) :
    (shellHeader size h).isSome ↔
      h.key ≠ none ∧ (h.named (.lit "rows") || h.named (.lit "cols") → h.value ≠ none) := by
  cases hk : h.key with
  | none => simp [shellHeader, hk]
  | some k =>
    by_cases hrows : ofBytes k = .lit "rows"
    · cases hv : h.value <;> simp [shellHeader, PortalHeader.named, hk, hrows, hv]
    · by_cases hcols : ofBytes k = .lit "cols"
      · have hne : CStr.lit "cols" ≠ CStr.lit "rows" := hcols ▸ hrows
        cases hv : h.value <;> simp [shellHeader, PortalHeader.named, hk, hcols, hne, hv]
      · simp [shellHeader, PortalHeader.named, hk, hrows, hcols]

/-- The loop over the headers of a shell request ends when no NULL is met. -/
theorem shellLoop_isSome (size : Int × Int) :
    (hs.foldlM shellHeader size).isSome ↔
      ∀ h ∈ hs, h.key ≠ none ∧
        (h.named (.lit "rows") || h.named (.lit "cols") → h.value ≠ none) := by
  induction hs generalizing size with
  | nil => simp
  | cons h hs ih =>
    rw [forall_mem_cons, ← shellHeader_isSome size h]
    cases hs' : shellHeader size h with
    | none => simp [hs']
    | some size' => simpa [hs'] using ih size'

theorem tunnelShell_ne_tunnelPipe : tunnelShell ≠ tunnelPipe := by decide +kernel

theorem classifyMsg_eq_pipe_iff (msg : PortalMsg) (port : Int) :
    classifyMsg msg = .pipe port ↔ AsksPipe msg port := by
  by_cases hp : msg.path.map ofBytes = some tunnelPipe
  · rw [classifyMsg, if_pos hp, AsksPipe, pipePort_eq]
    by_cases hall : ∀ h ∈ msg.headerList, h.key ≠ none
    · rw [if_pos hall]
      cases hl : lastHeader msg.headerList (.lit "port") with
      | none => simp
      | some h =>
        cases hv : h.value with
        | none => simp [hv]
        | some v =>
          by_cases hpos : 0 < atoi v
          · simp only [bind_some, hv, hpos, if_true, Request.pipe.injEq]
            constructor
            · rintro rfl
              exact ⟨hp, hall, h, v, rfl, hv, rfl, hpos⟩
            rintro ⟨-, -, h', v', hh, hv', ha, -⟩
            cases hh
            rw [hv] at hv'
            cases hv'
            exact ha
          · simp only [bind_some, hv, hpos, if_false, reduceCtorEq, false_iff]
            rintro ⟨-, -, h', v', hh, hv', ha, hpos'⟩
            cases hh
            rw [hv] at hv'
            cases hv'
            exact hpos (ha ▸ hpos')
    · rw [if_neg hall]
      simp [hall]
  · rw [classifyMsg, if_neg hp]
    constructor
    · intro h
      split at h
      · split at h <;> cases h
      · cases h
    · exact fun h => absurd h.1 hp

theorem classifyMsg_eq_shell_iff (msg : PortalMsg) :
    (∃ rows cols, classifyMsg msg = .shell rows cols) ↔ AsksShell msg := by
  by_cases hs : msg.path.map ofBytes = some tunnelShell
  · have hp : msg.path.map ofBytes ≠ some tunnelPipe := by
      rw [hs]
      exact fun h => tunnelShell_ne_tunnelPipe (some.inj h)
    rw [classifyMsg, if_neg hp, if_pos hs, AsksShell, ← shellLoop_isSome msg.headerList (24, 80)]
    change _ ↔ _ ∧ (shellSize msg.headerList).isSome
    cases shellSize msg.headerList with
    | none => simp
    | some size => simp [hs]
  · constructor
    · rintro ⟨rows, cols, h⟩
      rw [classifyMsg, if_neg hs] at h
      split at h
      · split at h
        · cases h
        · cases h
        · split at h <;> cases h
      · cases h
    · exact fun h => absurd h.1 hs

/-- Everything but the two tunnel paths is a message for the router. -/
theorem classifyMsg_eq_message_iff (msg m : PortalMsg) :
    classifyMsg msg = .message m ↔
      msg.path.map ofBytes ≠ some tunnelPipe ∧ msg.path.map ofBytes ≠ some tunnelShell ∧
        msg = m := by
  unfold classifyMsg
  split_ifs with hpipe hshell
  · cases pipePort msg.headerList with
    | none => simp [hpipe]
    | some port =>
      cases port with
      | none => simp [hpipe]
      | some portStr =>
        simp only [hpipe, ne_eq, not_true, false_and, iff_false]
        split <;> simp
  · cases shellSize msg.headerList <;> simp [hshell]
  · simp [hpipe, hshell]

theorem asksTunnel_iff (frame : Bytes) :
    AsksTunnel frame ↔
      (∃ port, classify frame = .pipe port) ∨ ∃ rows cols, classify frame = .shell rows cols := by
  rw [AsksTunnel, classify]
  cases decodeFrame frame with
  | none => simp
  | some msg =>
    simp only [some.injEq, exists_eq_left', classifyMsg_eq_pipe_iff, classifyMsg_eq_shell_iff]
    exact or_comm

/-! ### Authorisation -/

/-- The tunnels are authorised exactly when there are none: the frame answers a local
request, or asks for no tunnel. Who sent it plays no part. -/
theorem onFrame_tunnelsAuthorised_iff (cfg : InboundConfig) (tree : PortalPathTree)
    (srcPeer : Option NodePeer) (pending : Bool) (frame : Bytes) :
    TunnelsAuthorised tree srcPeer (onFrame cfg srcPeer pending frame) ↔
      pending = true ∨ ¬ AsksTunnel frame := by
  -- a start that comes first has no stamp before it
  have first : ∀ act path, Action.tunnel act = some path →
      ¬ TunnelsAuthorised tree srcPeer [act] := by
    intro act path ht h
    obtain ⟨ctx, hmem, -⟩ := h [] act [] rfl path ht
    cases hmem
  have none : ∀ acts : List Action, (∀ a ∈ acts, a.tunnel = none) →
      TunnelsAuthorised tree srcPeer acts := by
    rintro acts hnone before act after rfl path ht
    rw [hnone act (by simp)] at ht
    cases ht
  cases pending with
  | true => simpa [onFrame] using none [.answer frame] (by simp [Action.tunnel])
  | false =>
    rw [asksTunnel_iff]
    cases hc : classify frame with
    | pipe port => simpa [onFrame, hc] using first (.startPipe port) _ rfl
    | shell rows cols => simpa [onFrame, hc] using first (.startShell rows cols) _ rfl
    | message msg => simpa [onFrame, hc] using none _ (by simp [Action.tunnel])
    | undecodable | crash | refused => simpa [onFrame, hc] using none [] (by simp)

def shellFrame : Bytes :=
  writeU32 31 ++ writeU64 1 ++ writeU8 0 ++ writeStr tunnelShell.bytes 13 ++ writeU16 0 ++
    writeU32 0 ++ writeU8 0

/-- A peer that never proved an identity gets a shell, and no identity was stamped. -/
theorem onFrame_tunnelsAuthorised_false :
    let peer := NodePeer.fresh 0 (.lit "guest")
    let acts := onFrame ⟨.lit "node", none⟩ (some peer) false shellFrame
    peer.identityExchanged = false ∧ acts = [.startShell 24 80] ∧
      ¬ TunnelsAuthorised portalPathInit (some peer) acts := by
  have hacts : onFrame ⟨.lit "node", none⟩ (some (NodePeer.fresh 0 (.lit "guest"))) false
      shellFrame = [.startShell 24 80] := by
    decide +kernel
  refine ⟨rfl, hacts, ?_⟩
  intro h
  obtain ⟨ctx, hmem, -⟩ := h [] (.startShell 24 80) [] hacts _ rfl
  cases hmem

end Portal
