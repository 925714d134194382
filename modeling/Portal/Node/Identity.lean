import Portal.Node.Dispatch

/-!
Who a request is attributed to. The identity of a peer lives in its record, which all connections
attached to it share, so attribution is a property of whole runs.

`Attributed` ties every open connection to the identity of the record that lists it. Most steps
only take something away (`Narrows`); what is left are the steps that open a connection, attach one
to a record, or store an identity.
-/

namespace Portal

open List Runs Option NodeState

variable {P : Type} {s' t : NodeState P}

/-! ### Events -/

inductive NodeEvent (P : Type) where
  | accept (fd : Int) (principal : P)
  | connect (name host : CStr) (started : List (Int × P)) (nowUs : Nat)
  | advance (fd : Int) (state : ConnState)      -- TCP and TLS are done
  | handshake (fd : Int) (name : CStr) (advertised : List CStr) (now nowUs : Nat)
  | exchangeReply (id : Nat) (fd : Int) (body : Bytes)
  | exchangeEnd (fd : Int) (id : Nat) (advertised : List CStr) (now : Nat)
  | identityProof (fd : Int) (claimedKey : CharPtr)
  | lost (fd : Int)                             -- end of file, read error, bad length
  | writeError (fd : Int)
  | abort (fd : Int) (nowUs : Nat)
  | lend (id : Nat)
  | burn (id i : Nat)
  | sweep (now i : Nat)
  | reconnect (id now nowUs : Nat) (started : List (Int × P))
  | setAuth (auth : PortalAuthRegistry)

/-- An accepted connection. Without TLS it starts in the exchange at once. -/
def onNewPeer (s : NodeState P) (fd : Int) (principal : P) : NodeState P :=
  { s with
    conns := s.conns ++
      [{ fd := fd
         state := .hsExchange
         hs := some ⟨none, .lit "", []⟩
         principal := principal
         openedAt := s.clock }] }

def NodeConn.advance (c : NodeConn P) (state : ConnState) : NodeConn P :=
  if c.state = .ready ∨ state = .ready then c else { c with state }

def nodeApply (cfg : NodeConfig) (s : NodeState P) : NodeEvent P → NodeState P
  | .accept fd principal => onNewPeer s fd principal
  | .connect name host started nowUs => connectToPeerAsync s name host started nowUs
  | .advance fd state => s.updConn fd fun c => c.advance state
  | .handshake fd name advertised now nowUs => finalizeHandshake cfg s fd name advertised now nowUs
  | .exchangeReply id fd body => exchangeReply s id fd body
  | .exchangeEnd fd id advertised now => finishOutbound cfg s fd id now advertised
  | .identityProof fd claimedKey => identityProof s fd claimedKey
  | .lost fd => (markPeerDeadByFd s fd).closeFd fd
  | .writeError fd => markPeerDeadByFd s fd
  | .abort fd nowUs => hsAbort s fd nowUs
  | .lend id => getWorker s id
  | .burn id i => burnWorker s id i
  | .sweep now i => sweepInboundAt now s i
  | .reconnect id now nowUs started => reconnectOne now nowUs started s id
  | .setAuth auth => { s with auth }

def nodeStep (cfg : NodeConfig) (s : NodeState P) (e : NodeEvent P) : NodeState P :=
  { nodeApply cfg s e with clock := s.clock + 1 }

def NodeState.initial (tree : PortalPathTree) (auth : PortalAuthRegistry) : NodeState P where
  peers := []
  conns := []
  tree := tree
  auth := auth
  nextId := 0
  clock := 1
  exchanges := []

/-- `principal` has sent a key of the record's user, on a connection opened since the
record was last marked dead. -/
def Proved (s : NodeState P) (p : NodePeer) (principal : P) : Prop :=
  ∃ e ∈ s.exchanges, e.principal = principal ∧ e.user = p.resolvedUser ∧ p.lastDead ≤ e.openedAt

/-- A request on any connection would be stamped, if at all, with a user whose key the principal of
the connection has sent. No default user is configured. -/
def StampsProved (nodeName : CStr) (s : NodeState P) : Prop :=
  ∀ c ∈ s.conns, c.state = .ready → ∀ user,
    (stampAuth ⟨nodeName, none⟩ (findPeerByFd s.peers c.fd)).user = some user →
      ∃ p, findPeerByFd s.peers c.fd = some p ∧ p.resolvedUser.bytes = user ∧
        Proved s p c.principal

/-! ### The condition on steps -/

/-- The record's open connections are all of `principal`, and there is one if it has an identity.
-/
def MayAttach (s : NodeState P) (id : Nat) (principal : P) : Prop :=
  ∀ p ∈ s.peers, p.id = id →
    (∀ d ∈ s.conns, p.hasFd d.fd → d.principal = principal) ∧
    (p.identityExchanged = true → ∃ d ∈ s.conns, p.hasFd d.fd)

/-- The record lists the connection `fd`, which was opened since it was last marked dead. -/
def MayIdentify (s : NodeState P) (id : Nat) (fd : Int) : Prop :=
  ∃ c, s.conn fd = some c ∧ ∀ p ∈ s.peers, p.id = id → p.hasFd fd ∧ p.lastDead ≤ c.openedAt

def Idle (s : NodeState P) (p : NodePeer) : Prop := ∀ c ∈ s.conns, ¬ p.hasFd c.fd

/-- The record may be marked dead with its identity left in place: it has none, or no open
connection. -/
def MayMarkDead (s : NodeState P) (p : NodePeer) : Prop := p.identityExchanged = true → Idle s p

/-- Not open, and not listed in a record, except on connections that the record `own` lists, which
are closed first. -/
def NewFds (s : NodeState P) (own : Option Nat) (started : List (Int × P)) : Prop :=
  (started.map Prod.fst).Nodup ∧ ∀ f ∈ started, 0 ≤ f.1 ∧
    (∀ p ∈ s.peers, p.hasFd f.1 → own = some p.id) ∧
    ∀ c ∈ s.conns, c.fd = f.1 → ∃ id, own = some id ∧ ∀ p ∈ s.peers, p.id = id → p.hasFd f.1

/-- Records are not shared between principals in this step, and no identity outlives the
connections it was proved on. -/
def Attributable (s : NodeState P) : NodeEvent P → Prop
  | .accept fd principal => NewFds s none [(fd, principal)]
  | .connect _ _ started _ => NewFds s none started
  | .handshake fd name _ _ _ => ∀ c, s.conn fd = some c →
      match c.hs.bind HsContext.peer with
      | some id => MayAttach s id c.principal
      | none => ∀ p, findPeerByName s.peers name = some p → MayAttach s p.id c.principal
  | .exchangeReply id fd body =>
    (apiAuthFindByKey s.auth (some body)).isSome → MayIdentify s id fd
  | .identityProof fd claimedKey => (apiAuthFindByKey s.auth claimedKey).isSome →
      ∀ src, findPeerByFd s.peers fd = some src →
        ∀ p, findPeerAny s.peers src.name = some p → MayIdentify s p.id fd
  | .abort fd _ => ∀ c, s.conn fd = some c → ∀ id, c.hs.bind HsContext.peer = some id →
      ∀ p ∈ s.peers, p.id = id → p.ready = false → p.ctrlFd < 0 → MayMarkDead s p
  | .lend id => ∀ p, (s.peers.find? fun p => p.id = id) = some p → p.dead = false →
      (∀ w ∈ p.workers, w.fd < 0) → ∀ q ∈ s.peers, q.id = id → MayMarkDead s q
  | .reconnect id _ _ started => NewFds s (some id) started
  | _ => True

/-- Open connections, records and identities fit together. -/
structure Attributed (s : NodeState P) : Prop where
  opened : ∀ c ∈ s.conns, 0 ≤ c.fd
  functional : ∀ c ∈ s.conns, ∀ d ∈ s.conns, c.fd = d.fd → c.principal = d.principal
  onePrincipal : ∀ p ∈ s.peers, ∀ c ∈ s.conns, ∀ d ∈ s.conns,
    p.hasFd c.fd → p.hasFd d.fd → c.principal = d.principal
  exchanged : ∀ p ∈ s.peers, p.identityExchanged = true →
    ∀ c ∈ s.conns, p.hasFd c.fd → Proved s p c.principal

theorem attributed_initial (tree : PortalPathTree) (auth : PortalAuthRegistry) :
    Attributed (NodeState.initial tree auth : NodeState P) := by
  constructor <;> simp [initial]

variable {p : NodePeer} {s : NodeState P} {fd : Int} (cfg : NodeConfig)

/-- The invariant implies the property: only records with an identity stamp. -/
theorem Attributed.stampsProved (h : Attributed s) (nodeName : CStr) :
    StampsProved nodeName s := by
  intro c hc _ user huser
  obtain ⟨p, hp, hid, hu⟩ := (stampAuth_user_iff nodeName _ user).mp huser
  have hmem : p ∈ s.peers := mem_of_find?_eq_some hp
  have hfd : p.hasFd c.fd = true := by simpa using find?_some hp
  exact ⟨p, hp, hu, h.exchanged p hmem hid c hc hfd⟩

theorem NodeState.conn_mem {c : NodeConn P}
    (h : s.conn fd = some c) : c ∈ s.conns ∧ c.fd = fd :=
  ⟨mem_of_find?_eq_some h, by simpa using find?_some h⟩

/-! ### Steps that take away -/

/-- `p'` has no identity that `p` has not. -/
def NodePeer.KeepsIdentity (p p' : NodePeer) : Prop :=
  p'.identityExchanged = true → p.identityExchanged = true ∧ p'.resolvedUser = p.resolvedUser ∧
    p'.lastDead = p.lastDead

/-- `p'` lists only open connections that `p` lists, and has no identity of its own. -/
def Fits (s : NodeState P) (p p' : NodePeer) : Prop :=
  (∀ c ∈ s.conns, p'.hasFd c.fd → p.hasFd c.fd) ∧ p.KeepsIdentity p'

/-- `s'` has only connections of `s`, and each of its records is idle or fits one of `s`. -/
structure Narrows (s s' : NodeState P) : Prop where
  conns : ∀ c' ∈ s'.conns, ∃ c ∈ s.conns, c.fd = c'.fd ∧ c.principal = c'.principal
  exchanges : s.exchanges ⊆ s'.exchanges
  peers : ∀ p' ∈ s'.peers, Idle s' p' ∨ ∃ p ∈ s.peers, Fits s' p p'

theorem NodePeer.KeepsIdentity.rfl : p.KeepsIdentity p :=
  fun h => ⟨h, Eq.refl _, Eq.refl _⟩

theorem NodePeer.KeepsIdentity.trans {p q r : NodePeer} (h : p.KeepsIdentity q)
    (h' : q.KeepsIdentity r) : p.KeepsIdentity r := by
  intro hr
  obtain ⟨hq, huser, hdead⟩ := h' hr
  obtain ⟨hp, huser', hdead'⟩ := h hq
  exact ⟨hp, huser.trans huser', hdead.trans hdead'⟩

theorem Fits.refl (s : NodeState P) (p : NodePeer) : Fits s p p := ⟨fun _ _ h => h, .rfl⟩

theorem Narrows.refl (s : NodeState P) : Narrows s s :=
  ⟨fun c hc => ⟨c, hc, rfl, rfl⟩, fun _ h => h, fun p hp => .inr ⟨p, hp, .refl s p⟩⟩

theorem Narrows.trans {s u : NodeState P} (h : Narrows s t) (h' : Narrows t u) :
    Narrows s u where
  conns c hc := by
    obtain ⟨d, hd, hfd, hpr⟩ := h'.conns c hc
    obtain ⟨b, hb, hfd', hpr'⟩ := h.conns d hd
    exact ⟨b, hb, hfd'.trans hfd, hpr'.trans hpr⟩
  exchanges _ he := h'.exchanges (h.exchanges he)
  peers p hp := by
    rcases h'.peers p hp with hidle | ⟨q, hq, hfd, hid⟩
    · exact .inl hidle
    · rcases h.peers q hq with hidle | ⟨r, hr, hfd', hid'⟩
      · refine .inl fun c hc hlist => ?_
        obtain ⟨d, hd, hfdd, -⟩ := h'.conns c hc
        exact hidle d hd (hfdd ▸ hfd c hc hlist)
      · refine .inr ⟨r, hr, fun c hc hlist => ?_, hid'.trans hid⟩
        obtain ⟨d, hd, hfdd, -⟩ := h'.conns c hc
        exact hfdd ▸ hfd' d hd (hfdd ▸ hfd c hc hlist)

theorem Narrows.of_fields {s t' : NodeState P} (h : Narrows s t) (hc : t'.conns = t.conns)
    (hp : t'.peers = t.peers) (he : t'.exchanges = t.exchanges) : Narrows s t' where
  conns := hc ▸ h.conns
  exchanges := he ▸ h.exchanges
  peers := by
    rw [hp]
    simpa only [Idle, Fits, hc] using h.peers

theorem Narrows.opened {s : NodeState P} (h : Narrows s s') (ho : ∀ c ∈ s.conns, 0 ≤ c.fd) :
    ∀ c ∈ s'.conns, 0 ≤ c.fd := by
  intro c hc
  obtain ⟨d, hd, hfd, -⟩ := h.conns c hc
  exact hfd ▸ ho d hd

theorem Attributed.narrows {s : NodeState P} (h : Attributed s) (hn : Narrows s s') :
    Attributed s' where
  opened := hn.opened h.opened
  functional c hc d hd hfd := by
    obtain ⟨c₀, hc₀, hfc, hpc⟩ := hn.conns c hc
    obtain ⟨d₀, hd₀, hfd₀, hpd⟩ := hn.conns d hd
    rw [← hpc, ← hpd]
    exact h.functional c₀ hc₀ d₀ hd₀ (by rw [hfc, hfd₀, hfd])
  onePrincipal p hp c hc d hd hlc hld := by
    rcases hn.peers p hp with hidle | ⟨q, hq, hfds, -⟩
    · exact absurd hlc (hidle c hc)
    · obtain ⟨c₀, hc₀, hfc, hpc⟩ := hn.conns c hc
      obtain ⟨d₀, hd₀, hfd₀, hpd⟩ := hn.conns d hd
      rw [← hpc, ← hpd]
      exact h.onePrincipal q hq c₀ hc₀ d₀ hd₀ (hfc ▸ hfds c hc hlc) (hfd₀ ▸ hfds d hd hld)
  exchanged p hp hident c hc hlist := by
    rcases hn.peers p hp with hidle | ⟨q, hq, hfds, hid⟩
    · exact absurd hlist (hidle c hc)
    · obtain ⟨hqid, huser, hdead⟩ := hid hident
      obtain ⟨c₀, hc₀, hfc, hpc⟩ := hn.conns c hc
      obtain ⟨e, he, hpr, hu, hd⟩ := h.exchanged q hq hqid c₀ hc₀ (hfc ▸ hfds c hc hlist)
      exact ⟨e, hn.exchanges he, hpr.trans hpc, hu.trans huser.symm, hdead ▸ hd⟩

/-! ### The steps that take away, one by one -/

theorem NodePeer.hasFd_iff :
    p.hasFd fd = true ↔ p.ctrlFd = fd ∨ ∃ w ∈ p.workers, w.fd = fd := by
  simp [NodePeer.hasFd]

open NodePeer (hasFd_iff)

theorem Narrows.of_peers {s : NodeState P} (hc : s'.conns = s.conns)
    (he : s'.exchanges = s.exchanges)
    (hp : ∀ p' ∈ s'.peers, Idle s p' ∨ ∃ p ∈ s.peers, Fits s p p') : Narrows s s' where
  conns c hcm := ⟨c, hc ▸ hcm, rfl, rfl⟩
  exchanges := he ▸ fun _ h => h
  peers p' hp' := by
    simpa only [Idle, Fits, hc] using hp p' hp'

theorem narrows_updPeer (s : NodeState P) (id : Nat) (f : NodePeer → NodePeer)
    (hf : ∀ p ∈ s.peers, p.id = id → Idle s (f p) ∨ Fits s p (f p)) :
    Narrows s (s.updPeer id f) := by
  refine .of_peers rfl rfl fun p' hp' => ?_
  obtain ⟨p, hp, rfl⟩ := mem_map.mp hp'
  split
  · exact (hf p hp ‹_›).imp_right fun h => ⟨p, hp, h⟩
  · exact .inr ⟨p, hp, .refl s p⟩

theorem narrows_updConn (s : NodeState P) (fd : Int) (f : NodeConn P → NodeConn P)
    (hf : ∀ c, (f c).fd = c.fd ∧ (f c).principal = c.principal) : Narrows s (s.updConn fd f) where
  conns c' hc' := by
    obtain ⟨c, hc, rfl⟩ := mem_map.mp hc'
    refine ⟨c, hc, ?_⟩
    split
    · exact ⟨(hf c).1.symm, (hf c).2.symm⟩
    · exact ⟨rfl, rfl⟩
  exchanges _ h := h
  peers p hp := .inr ⟨p, hp, .refl _ p⟩

theorem narrows_closeFds (s : NodeState P) (fds : List Int) : Narrows s (s.closeFds fds) where
  conns c hc := ⟨c, (mem_filter.mp hc).1, rfl, rfl⟩
  exchanges _ h := h
  peers p hp := .inr ⟨p, hp, .refl _ p⟩

theorem narrows_closeFd (s : NodeState P) (fd : Int) : Narrows s (s.closeFd fd) where
  conns c hc := ⟨c, (mem_filter.mp hc).1, rfl, rfl⟩
  exchanges _ h := h
  peers p hp := .inr ⟨p, hp, .refl _ p⟩

theorem narrows_setTree (s : NodeState P) (tree : PortalPathTree) : Narrows s (s.setTree tree) :=
  (Narrows.refl s).of_fields rfl rfl rfl

theorem narrows_connReady (s : NodeState P) (fd : Int) : Narrows s (s.connReady fd) :=
  narrows_updConn s fd _ fun _ => ⟨rfl, rfl⟩

def NodePeer.NoFds (p : NodePeer) : Prop := p.ctrlFd < 0 ∧ ∀ w ∈ p.workers, w.fd < 0

theorem NodePeer.NoFds.not_hasFd (h : p.NoFds) {fd : Int} (hpos : 0 ≤ fd) :
    ¬ p.hasFd fd := by
  intro hlist
  rcases hasFd_iff.mp hlist with hc | ⟨w, hwm, hw⟩
  · have := h.1
    omega
  · have := h.2 w hwm
    omega

theorem NodePeer.NoFds.idle (h : p.NoFds) {s : NodeState P}
    (ho : ∀ c ∈ s.conns, 0 ≤ c.fd) : Idle s p :=
  fun c hc => h.not_hasFd (ho c hc)

theorem NodePeer.noFds_of_eq (hctrl : p.ctrlFd = -1) (hw : p.workers = []) :
    p.NoFds :=
  ⟨by omega, by simp [hw]⟩

theorem NodeState.mem_append {mk : Nat → NodePeer} {p : NodePeer}
    (h : p ∈ (s.append mk).peers) : p ∈ s.peers ∨ p = mk s.nextId := by
  rw [append] at h
  by_cases hroom : s.peers.length < nodeMaxPeers
  · rw [if_pos hroom] at h
    exact (List.mem_append.mp h).imp_right List.mem_singleton.mp
  · rw [if_neg hroom] at h
    exact .inl h

theorem NodeState.append_conns (s : NodeState P) (mk : Nat → NodePeer) :
    (s.append mk).conns = s.conns := by
  rw [append]
  split <;> rfl

theorem NodeState.append_exchanges (s : NodeState P) (mk : Nat → NodePeer) :
    (s.append mk).exchanges = s.exchanges := by
  rw [append]
  split <;> rfl

theorem narrows_append (s : NodeState P) (mk : Nat → NodePeer) (h : Idle s (mk s.nextId)) :
    Narrows s (s.append mk) := by
  refine .of_peers (s.append_conns mk) (s.append_exchanges mk) fun p hp => ?_
  rcases mem_append hp with hp | rfl
  · exact .inr ⟨p, hp, .refl s p⟩
  · exact .inl h

/-- Only records are removed; what is left has moved in the table. -/
structure Drops (s s' : NodeState P) : Prop where
  conns : s'.conns = s.conns
  exchanges : s'.exchanges = s.exchanges
  peers : ∀ p' ∈ s'.peers, ∃ p ∈ s.peers, p' = { p with hubIdx := p'.hubIdx }

theorem Drops.refl (s : NodeState P) : Drops s s := ⟨rfl, rfl, fun p hp => ⟨p, hp, rfl⟩⟩

theorem Drops.trans {s u : NodeState P} (h : Drops s t) (h' : Drops t u) : Drops s u where
  conns := h'.conns.trans h.conns
  exchanges := h'.exchanges.trans h.exchanges
  peers p hp := by
    obtain ⟨q, hq, hpq⟩ := h'.peers p hp
    obtain ⟨r, hr, hqr⟩ := h.peers q hq
    refine ⟨r, hr, ?_⟩
    rw [hpq, hqr]

theorem Drops.narrows {s : NodeState P} (h : Drops s s') : Narrows s s' := by
  refine .of_peers h.conns h.exchanges fun p' hp' => ?_
  obtain ⟨p, hp, heq⟩ := h.peers p' hp'
  rw [heq]
  exact .inr ⟨p, hp, fun _ _ hl => hl, fun hi => ⟨hi, rfl, rfl⟩⟩

theorem drops_removeAt (s : NodeState P) (i : Nat) : Drops s (s.removeAt i) := by
  rw [removeAt]
  split
  · refine ⟨rfl, rfl, fun p' hp' => ?_⟩
    obtain ⟨p, hp, rfl⟩ := mem_map.mp hp'
    refine ⟨p, mem_of_mem_eraseIdx hp, ?_⟩
    split <;> rfl
  · exact .refl s

theorem removeIndirect_induction {M : NodeState P → Prop} (ks : List Nat)
    {st : NodeState P × Nat} (h : M st.1)
    (hremove : ∀ s k q, M s → s.peers[k]? = some q → q.isIndirect = true →
      M ((s.unregister q.paths).removeAt k)) : M (ks.foldl removeIndirectAt st).1 := by
  induction ks generalizing st with
  | nil => exact h
  | cons k ks ih =>
    apply ih
    rw [removeIndirectAt]
    split
    · exact h
    rename_i q hq
    split
    · rename_i hcond
      exact hremove st.1 k q h hq (Bool.and_eq_true_iff.mp hcond).1
    · exact h

theorem drops_removeIndirect (ks : List Nat) (st : NodeState P × Nat) :
    Drops st.1 (ks.foldl removeIndirectAt st).1 := by
  apply removeIndirect_induction ks (.refl st.1)
  intro s k q h _ _
  have hunreg : Drops s (s.unregister q.paths) := ⟨rfl, rfl, fun p hp => ⟨p, hp, rfl⟩⟩
  exact (h.trans hunreg).trans (drops_removeAt _ k)

def NodePeer.cleared (p : NodePeer) : NodePeer :=
  { p with
    ctrlFd := -1
    workers := p.workers.map fun w => { w with fd := -1 }
    dead := false
    ready := false
    paths := []
    connectedAt := 0 }

/-- The record `p` at `i` has lost its connections, its paths and the peers behind it. -/
def NodeState.released (s : NodeState P) (i : Nat) (p : NodePeer) : NodeState P :=
  ((List.range s.peers.length).reverse.foldl removeIndirectAt
    ((s.closeFds p.fds).unregister p.paths, i)).1

theorem drops_released (s : NodeState P) (i : Nat) (p : NodePeer) :
    Drops (s.closeFds p.fds) (s.released i p) :=
  (⟨rfl, rfl, fun q hq => ⟨q, hq, rfl⟩⟩ :
    Drops (s.closeFds p.fds) ((s.closeFds p.fds).unregister p.paths)).trans
    (drops_removeIndirect _ (_, i))

theorem reconnectOne_cases (s : NodeState P) (id now nowUs : Nat) (started : List (Int × P)) :
    reconnectOne now nowUs started s id = s ∧
      (∀ p, (s.peers.find? fun p => p.id = id) = some p → ¬ p.needsReconnect now nowUs = true) ∨
    ∃ i p, s.peers[i]? = some p ∧ (s.peers.find? fun p => p.id = id) = some p ∧
      p.needsReconnect now nowUs = true ∧ reconnectOne now nowUs started s id =
        connectToPeerAsync ((s.released i p).updPeer id NodePeer.cleared) p.name p.cfgHost
          started nowUs := by
  have hfind := @List.find?_eq_bind_findIdx?_getElem? _ s.peers fun p => decide (p.id = id)
  rw [reconnectOne, hfind]
  split
  · rename_i hnone
    rw [hnone]
    exact .inl ⟨rfl, by rintro p ⟨⟩⟩
  rename_i i hi
  rw [hi, bind_some]
  split
  · rename_i hnone
    rw [hnone]
    exact .inl ⟨rfl, by rintro p ⟨⟩⟩
  rename_i p hp
  split
  · exact .inr ⟨i, p, hp, hp, ‹_›, rfl⟩
  · rename_i hidle
    rw [hp]
    exact .inl ⟨rfl, by rintro q ⟨⟩; exact hidle⟩

theorem narrows_sweepInboundAt (now : Nat) (s : NodeState P) (i : Nat) :
    Narrows s (sweepInboundAt now s i) := by
  rw [sweepInboundAt]
  split
  · exact .refl s
  rename_i p _
  split
  · exact ((narrows_closeFds s p.fds).trans (narrows_setTree _ _)).trans
      (drops_removeAt _ i).narrows
  · exact .refl s

theorem NodePeer.noFds_of_map (hctrl : p.ctrlFd = -1) {workers : List Worker}
    (hw : p.workers = workers.map fun w => { w with fd := -1 }) : p.NoFds := by
  refine ⟨by omega, fun w hmem => ?_⟩
  rw [hw] at hmem
  obtain ⟨v, -, rfl⟩ := mem_map.mp hmem
  exact Int.negSucc_lt_zero 0

theorem narrows_losePeerAt (s : NodeState P) (i : Nat) : Narrows s (s.losePeerAt i) := by
  refine .of_peers rfl rfl fun p' hp' => ?_
  obtain ⟨k, hk, rfl⟩ := mem_mapIdx.mp hp'
  refine .inr ⟨s.peers[k], getElem_mem hk, ?_⟩
  split
  · exact ⟨fun _ _ h => h, fun h => by cases h⟩
  · exact .refl s _

/-- Losing a worker: the record without its last connection is idle. -/
theorem dropWorker_narrows (ho : ∀ c ∈ s.conns, 0 ≤ c.fd) (p : NodePeer)
    (fd : Int) (now : Nat) : Idle s (p.dropWorker fd now) ∨ Fits s p (p.dropWorker fd now) := by
  rw [NodePeer.dropWorker]
  split
  · rename_i h
    simp only [Bool.and_eq_true, decide_eq_true_eq] at h
    have hno : NodePeer.NoFds { p.markDead now with
        workers := p.workers.eraseP fun w => w.fd = fd, paths := [] } :=
      ⟨h.2, by simp [h.1]⟩
    exact .inl (hno.idle ho)
  refine .inr ⟨fun c _ hlist => ?_, fun h => ⟨h, rfl, rfl⟩⟩
  rcases hasFd_iff.mp hlist with h | ⟨w, hw, h⟩
  · exact hasFd_iff.mpr (.inl h)
  · exact hasFd_iff.mpr (.inr ⟨w, mem_of_mem_eraseP hw, h⟩)

theorem narrows_markPeerDeadByFd (ho : ∀ c ∈ s.conns, 0 ≤ c.fd) (fd : Int) :
    Narrows s (markPeerDeadByFd s fd) := by
  rw [markPeerDeadByFd]
  split
  · exact .refl s
  rename_i i _
  split
  · exact .refl s
  split
  · split
    · exact .refl s
    · exact narrows_losePeerAt s i
  refine .of_peers rfl rfl fun p' hp' => ?_
  obtain ⟨k, hk⟩ := mem_iff_getElem?.mp hp'
  rw [getElem?_modify] at hk
  obtain ⟨p, hp, heq⟩ := map_eq_some_iff.mp hk
  have hmem : p ∈ s.peers := mem_of_getElem? hp
  split at heq
  · rw [← heq]
    exact (dropWorker_narrows ho p fd s.clock).imp_right fun h => ⟨p, hmem, h⟩
  · exact .inr ⟨p, hmem, heq ▸ .refl s p⟩

theorem narrows_hsAbort {nowUs : Nat}
    (h : Attributable s (.abort fd nowUs)) : Narrows s (hsAbort s fd nowUs) := by
  rw [hsAbort]
  split
  · exact narrows_closeFd s fd
  rename_i id hid
  obtain ⟨c, hc, hpeer⟩ := bind_eq_some_iff.mp hid
  refine (narrows_closeFd s fd).trans (narrows_updPeer _ id _ fun p hp hpid => ?_)
  split
  · rename_i hcond
    simp only [Bool.and_eq_true, decide_eq_true_eq] at hcond
    have hmay := h c hc id hpeer p hp hpid hcond.1 hcond.2
    cases hident : p.identityExchanged with
    | true => exact .inl fun d hd => hmay hident d (mem_filter.mp hd).1
    | false => exact .inr ⟨fun _ _ hl => hl, fun hx => absurd (hx.symm.trans hident) (by decide)⟩
  · exact .inr (.refl _ p)

theorem narrows_registerIndirectPeer (hubIdx now : Nat) {s : NodeState P}
    (ho : ∀ c ∈ s.conns, 0 ≤ c.fd) (name : CStr) :
    Narrows s (registerIndirectPeer cfg hubIdx now s name) := by
  rw [registerIndirectPeer]
  split
  · exact .refl s
  split
  · refine (narrows_append s _ ?_).trans (narrows_setTree _ _)
    exact (NodePeer.noFds_of_eq rfl rfl).idle ho
  · exact .refl s

theorem narrows_registerAll (hubIdx now : Nat) (names : List CStr)
    {s : NodeState P} (ho : ∀ c ∈ s.conns, 0 ≤ c.fd) :
    Narrows s (names.foldl (registerIndirectPeer cfg hubIdx now) s) := by
  induction names generalizing s with
  | nil => exact .refl s
  | cons name names ih =>
    have hstep := narrows_registerIndirectPeer cfg hubIdx now ho name
    exact hstep.trans (ih (hstep.opened ho))

theorem narrows_finishOutbound {s : NodeState P}
    (ho : ∀ c ∈ s.conns, 0 ≤ c.fd) (fd : Int) (id now : Nat) (advertised : List CStr) :
    Narrows s (finishOutbound cfg s fd id now advertised) := by
  rw [finishOutbound]
  split
  · exact narrows_connReady s fd
  · exact (narrows_registerAll cfg _ now advertised ho).trans (narrows_connReady _ fd)

theorem fits_modify_worker (ho : ∀ c ∈ s.conns, 0 ≤ c.fd) (p p' : NodePeer)
    (i : Nat) (f : Worker → Worker) (hf : ∀ w, (f w).fd = w.fd ∨ (f w).fd < 0)
    (hctrl : p'.ctrlFd = p.ctrlFd) (hw : p'.workers = p.workers.modify i f)
    (hid : p.KeepsIdentity p') : Fits s p p' := by
  refine ⟨fun c hc hlist => ?_, hid⟩
  rw [hasFd_iff, hctrl, hw] at hlist
  rw [hasFd_iff]
  refine hlist.imp_right ?_
  rintro ⟨w', hw', hfd⟩
  obtain ⟨k, hk⟩ := mem_iff_getElem?.mp hw'
  rw [getElem?_modify] at hk
  obtain ⟨w, hwk, heq⟩ := map_eq_some_iff.mp hk
  have hmem : w ∈ p.workers := mem_of_getElem? hwk
  have hpos := ho c hc
  split at heq
  · subst heq
    rcases hf w with h | h
    · exact ⟨w, hmem, h ▸ hfd⟩
    · omega
  · exact ⟨w, hmem, by rw [id heq, hfd]⟩

theorem narrows_burnWorker (ho : ∀ c ∈ s.conns, 0 ≤ c.fd) (id i : Nat) :
    Narrows s (burnWorker s id i) :=
  narrows_updPeer s id _ fun p _ _ => .inr <|
    fits_modify_worker ho p _ i _ (fun _ => .inr (by decide)) rfl rfl .rfl

variable {started : List (Int × P)} {id : Nat}

theorem narrows_getWorker (ho : ∀ c ∈ s.conns, 0 ≤ c.fd)
    (h : Attributable s (.lend id)) : Narrows s (getWorker s id) := by
  rw [getWorker]
  split
  · exact .refl s
  rename_i p hfind
  split
  · exact narrows_updPeer s id _ fun q _ _ => .inr <|
      fits_modify_worker ho q _ _ (fun w => { w with busy := 1 }) (fun _ => .inl rfl) rfl rfl .rfl
  split
  · exact .refl s
  rename_i hcond
  simp only [Bool.or_eq_true, List.any_eq_true, decide_eq_true_eq, not_or, not_exists,
    not_and, Bool.not_eq_true, not_le] at hcond
  refine narrows_updPeer s id _ fun q hq hqid => ?_
  have hmay := h p hfind hcond.2 hcond.1 q hq hqid
  cases hident : q.identityExchanged with
  | true => exact .inl (hmay hident)
  | false =>
    exact .inr ⟨fun _ _ hl => hl, fun hx => absurd (hx.symm.trans hident) (by decide)⟩

/-! ### Attaching a connection -/

/-- Like `Narrows`, but the record `id` may also list `fd` now. -/
structure Attaches (s s' : NodeState P) (id : Nat) (fd : Int) : Prop where
  conns : ∀ c' ∈ s'.conns, ∃ c ∈ s.conns, c.fd = c'.fd ∧ c.principal = c'.principal
  exchanges : s.exchanges ⊆ s'.exchanges
  peers : ∀ p' ∈ s'.peers, ∃ p ∈ s.peers, p.KeepsIdentity p' ∧
    ∀ x, p'.hasFd x → p.hasFd x ∨ p.id = id ∧ x = fd

theorem Attributed.attaches {s : NodeState P} {fd : Int} {principal : P} (h : Attributed s)
    (ha : Attaches s s' id fd) (hmay : MayAttach s id principal)
    (hfd : ∀ c ∈ s.conns, c.fd = fd → c.principal = principal) : Attributed s' where
  opened c hc := by
    obtain ⟨d, hd, hfdd, -⟩ := ha.conns c hc
    exact hfdd ▸ h.opened d hd
  functional c hc d hd heq := by
    obtain ⟨c₀, hc₀, hfc, hpc⟩ := ha.conns c hc
    obtain ⟨d₀, hd₀, hfd₀, hpd⟩ := ha.conns d hd
    rw [← hpc, ← hpd]
    exact h.functional c₀ hc₀ d₀ hd₀ (by rw [hfc, hfd₀, heq])
  onePrincipal p hp c hc d hd hlc hld := by
    obtain ⟨q, hq, -, hlist⟩ := ha.peers p hp
    obtain ⟨c₀, hc₀, hfc, hpc⟩ := ha.conns c hc
    obtain ⟨d₀, hd₀, hfd₀, hpd⟩ := ha.conns d hd
    rw [← hpc, ← hpd]
    rcases hlist _ hlc with hlc | ⟨hid, rfl⟩
    · rcases hlist _ hld with hld | ⟨hid, rfl⟩
      · exact h.onePrincipal q hq c₀ hc₀ d₀ hd₀ (hfc ▸ hlc) (hfd₀ ▸ hld)
      · rw [(hmay q hq hid).1 c₀ hc₀ (hfc ▸ hlc), hfd d₀ hd₀ hfd₀]
    · rw [hfd c₀ hc₀ hfc]
      rcases hlist _ hld with hld | ⟨-, hdc⟩
      · rw [(hmay q hq hid).1 d₀ hd₀ (hfd₀ ▸ hld)]
      · rw [hfd d₀ hd₀ (hfd₀.trans hdc)]
  exchanged p hp hident c hc hlc := by
    obtain ⟨q, hq, hkeep, hlist⟩ := ha.peers p hp
    obtain ⟨hqid, huser, hdead⟩ := hkeep hident
    obtain ⟨c₀, hc₀, hfc, hpc⟩ := ha.conns c hc
    -- a connection the record lists already has proved the identity
    have hproved : Proved s q c₀.principal := by
      rcases hlist _ hlc with hlc | ⟨hid, rfl⟩
      · exact h.exchanged q hq hqid c₀ hc₀ (hfc ▸ hlc)
      · obtain ⟨d, hd, hld⟩ := (hmay q hq hid).2 hqid
        rw [hfd c₀ hc₀ hfc, ← (hmay q hq hid).1 d hd hld]
        exact h.exchanged q hq hqid d hd hld
    obtain ⟨e, he, hpr, hu, hd⟩ := hproved
    exact ⟨e, ha.exchanges he, hpr.trans hpc, hu.trans huser.symm, hdead ▸ hd⟩

theorem hasFd_addWorker {fd x : Int} (h : (p.addWorker fd).hasFd x = true) :
    p.hasFd x ∨ x = fd := by
  rw [NodePeer.addWorker] at h
  split at h
  · rcases hasFd_iff.mp h with h | ⟨w, hw, h⟩
    · exact .inl (hasFd_iff.mpr (.inl h))
    · rcases mem_append.mp hw with hw | hw
      · exact .inl (hasFd_iff.mpr (.inr ⟨w, hw, h⟩))
      · rw [mem_singleton.mp hw] at h
        exact .inr h.symm
  · exact .inl h

theorem addWorker_keepsIdentity (p : NodePeer) (fd : Int) : p.KeepsIdentity (p.addWorker fd) := by
  rw [NodePeer.addWorker]
  split
  · exact .rfl
  · exact .rfl

theorem Attaches.updPeer_addWorker (s : NodeState P) (fd : Int) (id : Nat) :
    Attaches s (s.updPeer id fun p => p.addWorker fd) id fd where
  conns c hc := ⟨c, hc, rfl, rfl⟩
  exchanges _ h := h
  peers p' hp' := by
    obtain ⟨p, hp, rfl⟩ := mem_map.mp hp'
    refine ⟨p, hp, ?_⟩
    split
    · rename_i hid
      exact ⟨addWorker_keepsIdentity p fd,
        fun x hx => (hasFd_addWorker hx).imp_right fun h => ⟨hid, h⟩⟩
    · exact ⟨.rfl, fun _ h => .inl h⟩

theorem Attaches.of_map {s u : NodeState P} {fd : Int} (h : Attaches s t id fd)
    (g : NodePeer → NodePeer) (hg : ∀ p, p.KeepsIdentity (g p) ∧ ∀ x, (g p).hasFd x → p.hasFd x)
    (hc : u.conns = t.conns) (he : u.exchanges = t.exchanges) (hp : u.peers = t.peers.map g) :
    Attaches s u id fd where
  conns := hc ▸ h.conns
  exchanges := he ▸ h.exchanges
  peers p' hp' := by
    rw [hp] at hp'
    obtain ⟨q, hq, rfl⟩ := mem_map.mp hp'
    obtain ⟨p, hpm, hkeep, hlist⟩ := h.peers q hq
    exact ⟨p, hpm, hkeep.trans (hg q).1, fun x hx => hlist x ((hg q).2 x hx)⟩

theorem attachOutbound_attaches (s : NodeState P) (fd : Int) (id now : Nat) :
    Attaches s (attachOutbound s fd id now) id fd := by
  rw [attachOutbound]
  split
  · exact ⟨fun c hc => ⟨c, hc, rfl, rfl⟩, fun _ h => h,
      fun p hp => ⟨p, hp, .rfl, fun _ h => .inl h⟩⟩
  split
  · exact .updPeer_addWorker s fd id
  refine (Attaches.updPeer_addWorker s fd id).of_map _ (fun p => ?_) rfl rfl rfl
  split <;> exact ⟨.rfl, fun _ h => h⟩

/-- An inbound connection is attached to a record from which stale workers are removed. -/
theorem attachInbound_attaches (s : NodeState P) (existing : NodePeer) (fd : Int) :
    Attaches s (attachInbound s existing fd) existing.id fd where
  conns c' hc' := by
    obtain ⟨c, hc, hfd, hpr⟩ := (narrows_connReady _ fd).conns c' hc'
    exact ⟨c, (mem_filter.mp hc).1, hfd, hpr⟩
  exchanges _ h := h
  peers p' hp' := by
    obtain ⟨p, hp, rfl⟩ := mem_map.mp hp'
    refine ⟨p, hp, ?_⟩
    split
    · rename_i hid
      refine ⟨addWorker_keepsIdentity _ fd, fun x hx => ?_⟩
      refine (hasFd_addWorker hx).imp ?_ fun h => ⟨hid, h⟩
      intro h
      rcases hasFd_iff.mp h with h | ⟨w, hw, h⟩
      · exact hasFd_iff.mpr (.inl h)
      · exact hasFd_iff.mpr (.inr ⟨w, (mem_filter.mp hw).1, h⟩)
    · exact ⟨.rfl, fun _ h => .inl h⟩

/-! ### New connections, records and identities -/

theorem Attributed.append (h : Attributed s) (fd : Int) (mk : Nat → NodePeer)
    (hid : (mk s.nextId).identityExchanged = false)
    (hfd : ∀ x, (mk s.nextId).hasFd x → x = fd) : Attributed (s.append mk) where
  opened := by
    rw [s.append_conns]
    exact h.opened
  functional := by
    rw [s.append_conns]
    exact h.functional
  onePrincipal p hp := by
    rw [s.append_conns]
    intro c hc d hd hlc hld
    rcases mem_append hp with hp | rfl
    · exact h.onePrincipal p hp c hc d hd hlc hld
    · exact h.functional c hc d hd ((hfd _ hlc).trans (hfd _ hld).symm)
  exchanged p hp hident := by
    rw [s.append_conns]
    intro c hc hl
    rcases mem_append hp with hp | rfl
    · simpa only [Proved, s.append_exchanges] using h.exchanged p hp hident c hc hl
    · cases hident.symm.trans hid

theorem Attributed.open_conns {s : NodeState P} (h : Attributed s) (new : List (NodeConn P))
    (hnodup : (new.map NodeConn.fd).Nodup)
    (hnew : ∀ c ∈ new, 0 ≤ c.fd ∧ (∀ p ∈ s.peers, ¬ p.hasFd c.fd) ∧ ∀ d ∈ s.conns, d.fd ≠ c.fd)
    (hc : s'.conns = s.conns ++ new) (hp : s'.peers = s.peers) (he : s'.exchanges = s.exchanges) :
    Attributed s' := by
  have hold : ∀ c ∈ s'.conns, ∀ p ∈ s'.peers, p.hasFd c.fd → c ∈ s.conns := by
    intro c hcm p hpm hl
    rw [hc] at hcm
    rw [hp] at hpm
    exact (mem_append.mp hcm).resolve_right fun hn => (hnew c hn).2.1 p hpm hl
  constructor
  · intro c hcm
    rw [hc] at hcm
    exact (mem_append.mp hcm).elim (h.opened c) fun hn => (hnew c hn).1
  · intro c hcm d hdm hfd
    rw [hc] at hcm hdm
    rcases mem_append.mp hcm with hcm | hcm <;> rcases mem_append.mp hdm with hdm | hdm
    · exact h.functional c hcm d hdm hfd
    · exact absurd hfd ((hnew d hdm).2.2 c hcm)
    · exact absurd hfd.symm ((hnew c hcm).2.2 d hdm)
    · rw [inj_on_of_nodup_map hnodup hcm hdm hfd]
  · intro p hpm c hcm d hdm hlc hld
    exact h.onePrincipal p (hp ▸ hpm) c (hold c hcm p hpm hlc) d (hold d hdm p hpm hld) hlc hld
  · intro p hpm hident c hcm hl
    have := h.exchanged p (hp ▸ hpm) hident c (hold c hcm p hpm hl) hl
    simpa only [Proved, he] using this

theorem Attributed.identify (h : Attributed s) {fd : Int}
    (hmay : MayIdentify s id fd) (user : CStr × PortalLabels) :
    Attributed ((s.recordExchange fd user.1).updPeer id fun p => p.setIdentity user) := by
  obtain ⟨c, hc, hrec⟩ := hmay
  obtain ⟨hcm, hcfd⟩ := conn_mem hc
  simp only [recordExchange, hc]
  have hfds : ∀ p : NodePeer, ∀ x,
      (if p.id = id then p.setIdentity user else p).hasFd x = p.hasFd x := by
    intro p x
    split <;> rfl
  refine ⟨h.opened, h.functional, fun p hp d hd e he hld hle => ?_, fun p hp hident d hd hl => ?_⟩
  · obtain ⟨q, hq, rfl⟩ := mem_map.mp hp
    rw [hfds] at hld hle
    exact h.onePrincipal q hq d hd e he hld hle
  obtain ⟨q, hq, rfl⟩ := mem_map.mp hp
  rw [hfds] at hl
  by_cases hqid : q.id = id
  · -- all open connections of the record are of the principal that sent the key
    obtain ⟨hlist, hdead⟩ := hrec q hq hqid
    rw [if_pos hqid]
    refine ⟨_, mem_cons_self, ?_, rfl, hdead⟩
    exact h.onePrincipal q hq c hcm d hd (hcfd ▸ hlist) hl
  · rw [if_neg hqid] at hident ⊢
    obtain ⟨e, he, hpr, hu, hd'⟩ := h.exchanged q hq hident d hd hl
    exact ⟨e, mem_cons_of_mem _ he, hpr, hu, hd'⟩

theorem Attributed.openOutbound (h : Attributed s) (hnew : NewFds s none started) (id : Nat) :
    Attributed (s.openOutbound id started) := by
  refine h.open_conns _ ?_ ?_ rfl rfl rfl
  · rw [List.map_map]
    exact hnew.1
  intro c hc
  obtain ⟨f, hf, rfl⟩ := mem_map.mp hc
  obtain ⟨hpos, hpeers, hconns⟩ := hnew.2 f hf
  refine ⟨hpos, fun p hp hl => ?_, fun d hd hfd => ?_⟩
  · exact absurd (hpeers p hp hl) (by simp)
  · obtain ⟨id, hid, -⟩ := hconns d hd hfd
    cases hid

/-- What is known of new descriptors stays known when records without descriptors are
added or put in the place of others. -/
theorem NewFds.of_noFds {s : NodeState P} (h : NewFds s none started) (hc : s'.conns = s.conns)
    (hp : ∀ p' ∈ s'.peers, p' ∈ s.peers ∨ p'.NoFds) : NewFds s' none started := by
  refine ⟨h.1, fun f hf => ?_⟩
  obtain ⟨hpos, hpeers, hconns⟩ := h.2 f hf
  refine ⟨hpos, fun p hpm hl => ?_, fun c hcm hfd => ?_⟩
  · rcases hp p hpm with hpm | hno
    · exact hpeers p hpm hl
    · exact absurd hl (hno.not_hasFd hpos)
  · obtain ⟨id, hid, -⟩ := hconns c (hc ▸ hcm) hfd
    cases hid

theorem Attributed.connectToPeerAsync (h : Attributed s)
    (hnew : NewFds s none started) (name host : CStr) (nowUs : Nat) :
    Attributed (connectToPeerAsync s name host started nowUs) := by
  -- the record has no descriptors yet, marked dead or not
  have hsettle : ∀ p : NodePeer, p.ctrlFd = -1 → p.workers = [] →
      (if started = [] then p.backOff s.clock nowUs else p).NoFds := by
    intro p hctrl hw
    split <;> exact NodePeer.noFds_of_eq hctrl hw
  rw [Portal.connectToPeerAsync]
  split
  · refine (h.narrows (narrows_updPeer s _ _ fun p _ _ => .inl ?_)).openOutbound
      (hnew.of_noFds rfl fun p' hp' => ?_) _
    · exact (hsettle _ rfl rfl).idle h.opened
    · obtain ⟨p, hp, rfl⟩ := mem_map.mp hp'
      split
      · exact .inr (hsettle _ rfl rfl)
      · exact .inl hp
  split
  · refine (h.narrows (narrows_append s _ ?_)).openOutbound (hnew.of_noFds ?_ fun p hp => ?_) _
    · exact (hsettle _ rfl rfl).idle h.opened
    · exact s.append_conns _
    · refine (mem_append hp).imp_right ?_
      rintro rfl
      exact hsettle _ rfl rfl
  · exact h

theorem NodePeer.mem_fds : fd ∈ p.fds ↔ p.hasFd fd = true := by
  rw [fds, mem_cons, List.mem_map, hasFd_iff, eq_comm]

/-- After the old connections of a record are closed and its descriptors are cleared, the
new ones are new to everybody. -/
theorem NewFds.after_close {s s₂ s₃ : NodeState P} {p : NodePeer}
    (h : NewFds s (some p.id) started) (hpm : p ∈ s.peers) (hd : Drops (s.closeFds p.fds) s₂)
    (hc : s₃.conns = s₂.conns)
    (hp : ∀ q' ∈ s₃.peers, q'.NoFds ∨ q' ∈ s₂.peers ∧ q'.id ≠ p.id) : NewFds s₃ none started := by
  refine ⟨h.1, fun f hf => ?_⟩
  obtain ⟨hpos, hpeers, hconns⟩ := h.2 f hf
  refine ⟨hpos, fun q' hq' hl => ?_, fun c hcm hfd => ?_⟩
  · rcases hp q' hq' with hno | ⟨hq, hne⟩
    · exact absurd hl (hno.not_hasFd hpos)
    · obtain ⟨q, hqm, heq⟩ := hd.peers q' hq
      rw [heq] at hl hne
      exact absurd (some.inj (hpeers q hqm hl)).symm hne
  rw [hc, hd.conns] at hcm
  obtain ⟨hcs, hout⟩ := mem_filter.mp hcm
  obtain ⟨id, hid, hlist⟩ := hconns c hcs hfd
  have hin : f.1 ∈ p.fds := NodePeer.mem_fds.mpr (hlist p hpm (some.inj hid))
  exact absurd (hfd ▸ hin) (by simpa using hout)

/-- A reconnect closes what the record lists before it opens new connections. -/
theorem Attributed.reconnectOne (h : Attributed s)
    (hnew : NewFds s (some id) started) (now nowUs : Nat) :
    Attributed (reconnectOne now nowUs started s id) := by
  rcases reconnectOne_cases s id now nowUs started with ⟨heq, -⟩ | ⟨i, p, hp, hfind, -, heq⟩
  · rwa [heq]
  have hd := drops_released s i p
  have h₂ := (h.narrows (narrows_closeFds s p.fds)).narrows hd.narrows
  obtain rfl : p.id = id := by simpa using find?_some hfind
  refine heq ▸ (h₂.narrows (narrows_updPeer _ p.id _ fun q _ _ =>
    .inl ((NodePeer.noFds_of_map rfl rfl).idle h₂.opened))).connectToPeerAsync ?_ _ _ _
  refine hnew.after_close (mem_of_getElem? hp) hd rfl fun q' hq' => ?_
  obtain ⟨q, hq, rfl⟩ := mem_map.mp hq'
  split
  · exact .inl (NodePeer.noFds_of_map rfl rfl)
  · exact .inr ⟨hq, ‹_›⟩

/-! ### Whole runs -/

theorem hasFd_inbound {fd x : Int} {name : CStr} {now id : Nat} :
    (NodePeer.inbound fd name now id).hasFd x = true ↔ x = fd := by
  rw [hasFd_iff]
  exact ⟨fun h => h.elim Eq.symm fun ⟨_, hw, _⟩ => absurd hw not_mem_nil, fun h => .inl h.symm⟩

theorem Attributed.newInbound (h : Attributed s) {fd : Int}
    (hin : ∀ c, s.conn fd = some c → c.hs.bind HsContext.peer = none) (cfg : NodeConfig)
    (name : CStr) (advertised : List CStr) (now nowUs : Nat) :
    Attributed (newInbound cfg s fd name advertised now nowUs) := by
  rw [Portal.newInbound]
  split
  · -- a record of its own, then the peers behind it
    have hrec := (h.append fd (NodePeer.inbound fd name now) rfl fun x hx =>
      hasFd_inbound.mp hx).narrows
        (narrows_setTree _ (portalPathRegister s.tree (peerPath name) (.lit "node")).1)
    exact (hrec.narrows (narrows_registerAll cfg _ now advertised hrec.opened)).narrows
      (narrows_connReady _ fd)
  · refine h.narrows (narrows_hsAbort fun c hc id hid => ?_)
    rw [hin c hc] at hid
    cases hid

theorem Attributed.finalizeHandshake (h : Attributed s) (cfg : NodeConfig)
    {fd : Int} {name : CStr} {advertised : List CStr} {now nowUs : Nat}
    (ha : Attributable s (.handshake fd name advertised now nowUs)) :
    Attributed (finalizeHandshake cfg s fd name advertised now nowUs) := by
  rw [Portal.finalizeHandshake]
  split
  · exact h
  rename_i c hc
  obtain ⟨hcm, hcfd⟩ := conn_mem hc
  have hfd : ∀ d ∈ s.conns, d.fd = fd → d.principal = c.principal :=
    fun d hd hdfd => h.functional d hd c hcm (hdfd.trans hcfd.symm)
  have ha := ha c hc
  split
  · exact h
  split
  · rename_i hpeer
    rw [hpeer] at ha
    split
    · exact h.attaches (attachInbound_attaches s _ fd) (ha _ ‹_›) hfd
    refine h.newInbound (fun d hd => ?_) cfg name advertised now nowUs
    rw [hc] at hd
    cases hd
    exact hpeer
  rename_i id hpeer
  rw [hpeer] at ha
  split
  · exact h
  have hatt := h.attaches (attachOutbound_attaches s fd id now) ha hfd
  split
  · exact hatt.narrows (narrows_connReady _ fd)
  · split
    · exact hatt.narrows (narrows_finishOutbound cfg hatt.opened fd id now advertised)
    · exact hatt

/-- Every step that meets the condition keeps the invariant. -/
theorem Attributed.nodeApply (h : Attributed s) (cfg : NodeConfig)
    (e : NodeEvent P) (ha : Attributable s e) : Attributed (nodeApply cfg s e) := by
  cases e with
  | accept fd principal =>
    refine h.open_conns [_] (by simp) ?_ rfl rfl rfl
    obtain ⟨hpos, hpeers, hconns⟩ := ha.2 (fd, principal) (by simp)
    intro c hc
    rw [mem_singleton.mp hc]
    refine ⟨hpos, fun p hp hl => absurd (hpeers p hp hl) (by simp), fun d hd hfd => ?_⟩
    obtain ⟨id, hid, -⟩ := hconns d hd hfd
    cases hid
  | connect name host started nowUs => exact h.connectToPeerAsync ha name host nowUs
  | advance fd state =>
    refine h.narrows (narrows_updConn s fd _ fun c => ?_)
    rw [NodeConn.advance]
    split <;> exact ⟨rfl, rfl⟩
  | handshake fd name advertised now nowUs => exact h.finalizeHandshake cfg ha
  | exchangeReply id fd body =>
    rw [Portal.nodeApply, exchangeReply]
    split
    · exact h
    · rename_i user huser
      exact h.identify (ha (by simp [huser])) user
  | exchangeEnd fd id advertised now =>
    exact h.narrows (narrows_finishOutbound cfg h.opened fd id now advertised)
  | identityProof fd claimedKey =>
    rw [Portal.nodeApply, identityProof]
    split
    · split
      · exact h
      · rename_i src hsrc
        split
        · exact h
        rename_i user huser
        split
        · exact h
        · rename_i p hp
          exact h.identify (ha (by simp [huser]) src hsrc p hp) user
    · exact h
  | lost fd =>
    exact (h.narrows (narrows_markPeerDeadByFd h.opened fd)).narrows (narrows_closeFd _ fd)
  | writeError fd => exact h.narrows (narrows_markPeerDeadByFd h.opened fd)
  | abort fd nowUs => exact h.narrows (narrows_hsAbort ha)
  | lend id => exact h.narrows (narrows_getWorker h.opened ha)
  | burn id i => exact h.narrows (narrows_burnWorker h.opened id i)
  | sweep now i => exact h.narrows (narrows_sweepInboundAt now s i)
  | reconnect id now nowUs started => exact h.reconnectOne ha now nowUs
  | setAuth auth => exact h.narrows ((Narrows.refl s).of_fields rfl rfl rfl)

theorem Attributed.nodeStep (e : NodeEvent P)
    (h : Attributed s) (ha : Attributable s e) : Attributed (nodeStep cfg s e) :=
  (h.nodeApply cfg e ha).narrows ((Narrows.refl _).of_fields rfl rfl rfl)

/-- If the steps keep principals apart, a request is stamped only with a user whose key the
principal of its connection has sent, on a connection opened since the record was last marked dead.
-/
theorem stampsProved_of_attributable (cfg : NodeConfig) (tree : PortalPathTree)
    (auth : PortalAuthRegistry) (es : List (NodeEvent P))
    (h : Along (nodeStep cfg) Attributable (NodeState.initial tree auth) es) :
    StampsProved cfg.nodeName (run (nodeStep cfg) (NodeState.initial tree auth) es) :=
  (h.invariant (fun _ e hs he => hs.nodeStep cfg e he) (attributed_initial tree auth)).stampsProved
    cfg.nodeName

section Shared

/-- Nobody is told our key, and advertised peers are registered. -/
def sharedConfig : NodeConfig := ⟨.lit "hub", true, fun _ => .lit ""⟩

def sharedAuth : PortalAuthRegistry := ⟨[⟨.lit "ann", .lit "key", .empty⟩], []⟩

/-- Principal `true` connects as `edge` and proves to be `ann`. -/
def provenPeer : List (NodeEvent Bool) :=
  [.accept 5 true, .handshake 5 (.lit "edge") [] 0 0,
    .identityProof 5 (some (CStr.lit "key").bytes)]

/-- Principal `false` connects under the same name. -/
def secondPeer : List (NodeEvent Bool) :=
  [.accept 6 false, .handshake 6 (.lit "edge") [] 0 0]

def stampedUser (s : NodeState P) (fd : Int) : CharPtr :=
  (stampAuth ⟨sharedConfig.nodeName, none⟩ (findPeerByFd s.peers fd)).user

theorem stampsProved_provenPeer :
    let s := run (nodeStep sharedConfig) (NodeState.initial portalPathInit sharedAuth) provenPeer
    stampedUser s 5 = some (CStr.lit "ann").bytes ∧ StampsProved sharedConfig.nodeName s := by
  refine ⟨by decide +kernel, stampsProved_of_attributable sharedConfig portalPathInit sharedAuth
    provenPeer ⟨?_, ?_, ?_, trivial⟩⟩
  · simp [Attributable, NewFds, initial]
  · intro c hc
    cases hc
    simp [nodeStep, Portal.nodeApply, onNewPeer, initial, findPeerByName]
  set s := nodeStep sharedConfig
    (nodeStep sharedConfig (initial portalPathInit sharedAuth) (.accept 5 true))
    (.handshake 5 (.lit "edge") [] 0 0)
  have hconn : s.conn 5 = some ⟨5, .ready, none, true, 1⟩ := by decide +kernel
  have hpeers : s.peers = [NodePeer.inbound 5 (.lit "edge") 0 0] := by decide +kernel
  intro _ src _ p _
  refine ⟨_, hconn, fun q hq _ => ?_⟩
  rw [hpeers] at hq
  rw [mem_singleton.mp hq]
  exact ⟨hasFd_inbound.mpr rfl, Nat.zero_le 1⟩

/-- The second principal is stamped with the identity of the first: nobody but `true` ever
sent a key. -/
theorem stampsProved_false :
    let s := run (nodeStep sharedConfig) (NodeState.initial portalPathInit sharedAuth)
      (provenPeer ++ secondPeer)
    stampedUser s 6 = some (CStr.lit "ann").bytes ∧ ¬ StampsProved sharedConfig.nodeName s := by
  intro s
  have hstamp : stampedUser s 6 = some (CStr.lit "ann").bytes := by decide +kernel
  have hconn : (⟨6, .ready, none, false, 4⟩ : NodeConn Bool) ∈ s.conns := by decide +kernel
  have hexch : ∀ e ∈ s.exchanges, e.principal = true := by decide +kernel
  refine ⟨hstamp, fun h => ?_⟩
  obtain ⟨p, -, -, e, he, hpr, -⟩ := h _ hconn rfl _ hstamp
  exact absurd ((hexch e he).symm.trans hpr) (by decide)

end Shared

end Portal
