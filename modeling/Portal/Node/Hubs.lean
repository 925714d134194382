import Portal.Node.Table

/-!
Indirect peers and their hubs (`modules/mod_node/mod_node.c`). An indirect peer refers to the
direct one that advertised it by its index in a table that is compacted: `peers_remove_at`
renumbers the references. Which peer advertised which is recorded beside the state.
`portal_module_handle` sends a message for an indirect peer to the record its `hub_idx` designates,
or else to the peer itself.

* `HubTable` — every indirect record refers to the direct record that advertised it, and has no
  connections of its own.
-/

namespace Portal

open List Runs
open NodePeer hiding id

variable {P : Type}

/-! ### Routing -/

/-- The record whose connections take a message for the peer `name`
(`portal_module_handle`). -/
def routeTo (s : NodeState P) (name : CStr) : Option NodePeer :=
  (findPeerByName s.peers name).bind fun peer =>
    let hub := if peer.isIndirect then
      (s.peers[peer.hubIdx]?).filter fun h => h.ready && decide (h.workers ≠ []) else none
    hub.or (if decide (peer.workers ≠ []) || decide (0 ≤ peer.ctrlFd) then some peer else none)

def advertiser (s : NodeState P) : NodeEvent P → Option Nat
  | .handshake fd _ _ _ _ => (s.conn fd).map fun c => (c.hs.bind HsContext.peer).getD s.nextId
  | .exchangeEnd _ id _ _ => some id
  | _ => none

structure Hubs (P : Type) where
  node : NodeState P
  hubOf : Nat → Option Nat

def hubStep (cfg : NodeConfig) (w : Hubs P) (e : NodeEvent P) : Hubs P where
  node := nodeStep cfg w.node e
  hubOf id := if w.node.nextId ≤ id then advertiser w.node e else w.hubOf id

def Hubs.initial (tree : PortalPathTree) (auth : PortalAuthRegistry) : Hubs P :=
  ⟨.initial tree auth, fun _ => none⟩

/-- Every indirect peer refers to the direct peer that advertised it, and a message for it
is sent to no other. -/
def HubsRight (w : Hubs P) : Prop :=
  (∀ p ∈ w.node.peers, p.isIndirect = true → p.hubIdx < w.node.peers.length ∧
    ∃ h, w.node.peers[p.hubIdx]? = some h ∧ h.isIndirect = false ∧ w.hubOf p.id = some h.id) ∧
  ∀ name p, findPeerByName w.node.peers name = some p → p.isIndirect = true →
    ∀ t, routeTo w.node name = some t → w.hubOf p.id = some t.id

def NodePeer.swept (now : Nat) (p : NodePeer) : Bool :=
  p.isInbound && (p.dead || (!p.ready && decide (0 < p.connectedAt) &&
    decide (60 < now - p.connectedAt)))

def IsDirect (s : NodeState P) (id : Nat) : Prop := ∀ p ∈ s.peers, p.id = id → p.isIndirect = false

/-- No hub is swept while records refer to it, and no connection is attached to an indirect
record. -/
def HubSafe (s : NodeState P) : NodeEvent P → Prop
  | .sweep now i => ∀ p, s.peers[i]? = some p → p.swept now = true →
      ∀ q ∈ s.peers, q.isIndirect = true → q.hubIdx ≠ i
  | .handshake fd name _ _ _ => ∀ c, s.conn fd = some c →
      (∀ id, c.hs.bind HsContext.peer = some id → IsDirect s id) ∧
      (c.hs.bind HsContext.peer = none → ∀ p, findPeerByName s.peers name = some p →
        IsDirect s p.id)
  | .exchangeEnd _ id _ _ => IsDirect s id
  | _ => True

/-! ### The invariant -/

def NodePeer.Bare (p : NodePeer) : Prop := p.workers = [] ∧ p.ctrlFd < 0

structure HubTable (hubOf : Nat → Option Nat) (s : NodeState P) : Prop where
  fresh : ∀ p ∈ s.peers, p.id < s.nextId
  bare : ∀ p ∈ s.peers, p.isIndirect = true → p.Bare
  hub : ∀ p ∈ s.peers, p.isIndirect = true →
    ∃ h, s.peers[p.hubIdx]? = some h ∧ h.isIndirect = false ∧ hubOf p.id = some h.id

theorem hubTable_initial (tree : PortalPathTree) (auth : PortalAuthRegistry)
    (hubOf : Nat → Option Nat) : HubTable hubOf (NodeState.initial tree auth : NodeState P) := by
  constructor <;> rintro p ⟨⟩

/-- The invariant implies the property: an indirect peer without connections is only reached
through its hub. -/
theorem HubTable.hubsRight {w : Hubs P} (h : HubTable w.hubOf w.node) : HubsRight w := by
  constructor
  · intro p hp hind
    obtain ⟨q, hq, hdir, hadv⟩ := h.hub p hp hind
    exact ⟨(List.getElem?_eq_some_iff.mp hq).1, q, hq, hdir, hadv⟩
  intro name p hfind hind t ht
  have hp := mem_of_find?_eq_some hfind
  obtain ⟨q, hq, -, hadv⟩ := h.hub p hp hind
  obtain ⟨hw, hctrl⟩ := h.bare p hp hind
  have hroute : routeTo w.node name =
      (some q).filter fun h => h.ready && decide (h.workers ≠ []) := by
    rw [routeTo, hfind]
    simp [hind, hq, hw, not_le.mpr hctrl]
  rw [hroute] at ht
  obtain ⟨heq, -⟩ := Option.filter_eq_some_iff.mp ht
  cases heq
  exact hadv

structure KeepsSlot (p p' : NodePeer) : Prop where
  id : p'.id = p.id
  isIndirect : p'.isIndirect = p.isIndirect
  hubIdx : p'.hubIdx = p.hubIdx
  bare : p.isIndirect = true → p.Bare → p'.Bare

theorem KeepsSlot.refl (p : NodePeer) : KeepsSlot p p := ⟨rfl, rfl, rfl, fun _ h => h⟩

theorem HubTable.eachPeer {hubOf : Nat → Option Nat} {s s' : NodeState P} (h : HubTable hubOf s)
    (he : EachPeer KeepsSlot s s') : HubTable hubOf s' where
  fresh p' hp' := by
    obtain ⟨p, hp, hk⟩ := he.mem hp'
    rw [hk.id, he.nextId]
    exact h.fresh p hp
  bare p' hp' hind := by
    obtain ⟨p, hp, hk⟩ := he.mem hp'
    rw [hk.isIndirect] at hind
    exact hk.bare hind (h.bare p hp hind)
  hub p' hp' hind := by
    obtain ⟨p, hp, hk⟩ := he.mem hp'
    rw [hk.isIndirect] at hind
    obtain ⟨q, hq, hdir, hadv⟩ := h.hub p hp hind
    obtain ⟨q', hq', hkq⟩ := he.forward hq
    exact ⟨q', hk.hubIdx ▸ hq', hkq.isIndirect.trans hdir, by rw [hk.id, hadv, hkq.id]⟩

section Operations

variable {hubOf : Nat → Option Nat} {s s' : NodeState P}

section

variable (h : HubTable hubOf s)

include h

theorem HubTable.of_eq (hp : s'.peers = s.peers) (hid : s'.nextId = s.nextId) : HubTable hubOf s' :=
  h.eachPeer (.of_eq .refl hp hid)

theorem HubTable.congr {hubOf' : Nat → Option Nat}
    (hsame : ∀ id < s.nextId, hubOf' id = hubOf id) : HubTable hubOf' s where
  fresh := h.fresh
  bare := h.bare
  hub p hp hind := by
    rw [hsame _ (h.fresh p hp)]
    exact h.hub p hp hind

theorem HubTable.append {mk : Nat → NodePeer} (hid : ∀ id, (mk id).id = id)
    (hmk : (mk s.nextId).isIndirect = true → (mk s.nextId).Bare ∧
      ∃ q, s.peers[(mk s.nextId).hubIdx]? = some q ∧ q.isIndirect = false ∧
        hubOf s.nextId = some q.id) : HubTable hubOf (s.append mk) := by
  rcases append_cases s mk with ⟨hpeers, -⟩ | heq
  · have hold {i : Nat} {q : NodePeer} (hq : s.peers[i]? = some q) :
        (s.append mk).peers[i]? = some q := by
      rw [hpeers, List.getElem?_append_left (List.getElem?_eq_some_iff.mp hq).1, hq]
    refine ⟨fresh_append hid h.fresh, ?_, ?_⟩
    · intro p hp hind
      rcases NodeState.mem_append hp with hp | rfl
      · exact h.bare p hp hind
      · exact (hmk hind).1
    intro p hp hind
    rcases NodeState.mem_append hp with hp | rfl
    · obtain ⟨q, hq, hdir, hadv⟩ := h.hub p hp hind
      exact ⟨q, hold hq, hdir, hadv⟩
    · obtain ⟨-, q, hq, hdir, hadv⟩ := hmk hind
      exact ⟨q, hold hq, hdir, by rw [hid, hadv]⟩
  · rwa [heq]

theorem HubTable.removeAt {i : Nat} (hfree : ∀ q ∈ s.peers, q.isIndirect = true → q.hubIdx ≠ i) :
    HubTable hubOf (s.removeAt i) := by
  by_cases hi : i < s.peers.length
  · constructor
    · intro p' hp'
      obtain ⟨p, hp, rfl⟩ := mem_removeAt hi hp'
      rw [moved_id, removeAt_nextId]
      exact h.fresh p hp
    · intro p' hp' hind
      obtain ⟨p, hp, rfl⟩ := mem_removeAt hi hp'
      rw [moved_isIndirect] at hind
      rw [NodePeer.Bare, moved_workers, moved_ctrlFd]
      exact h.bare p hp hind
    · intro p' hp' hind
      obtain ⟨p, hp, rfl⟩ := mem_removeAt hi hp'
      rw [moved_isIndirect] at hind
      obtain ⟨q, hq, hdir, hadv⟩ := h.hub p hp hind
      refine ⟨q.moved i, ?_, ?_, ?_⟩
      · rw [p.moved_hubIdx i hind, getElem?_removeAt hi (hfree p hp hind), hq]
        rfl
      · rw [moved_isIndirect, hdir]
      · rw [moved_id, moved_id, hadv]
  · rw [NodeState.removeAt, if_neg hi]
    exact h

theorem HubTable.hubIdx_ne {k : Nat} {p : NodePeer}
    (hk : s.peers[k]? = some p) (hind : p.isIndirect = true) :
    ∀ q ∈ s.peers, q.isIndirect = true → q.hubIdx ≠ k := by
  rintro q hq hqind rfl
  obtain ⟨r, hr, hdir, -⟩ := h.hub q hq hqind
  rw [hk] at hr
  cases hr
  rw [hind] at hdir
  cases hdir

end

theorem hubTable_removeIndirect (ks : List Nat) {st : NodeState P × Nat}
    (h : HubTable hubOf st.1) : HubTable hubOf (ks.foldl removeIndirectAt st).1 := by
  apply removeIndirect_induction ks h
  intro s k q h hq hind
  have hunreg : HubTable hubOf (s.unregister q.paths) := h.of_eq rfl rfl
  exact hunreg.removeAt (h.hubIdx_ne hq hind)

theorem HubTable.registerIndirectPeer (h : HubTable hubOf s) (cfg : NodeConfig) (now : Nat)
    (name : CStr) {hubIdx : Nat} {q : NodePeer} (hq : s.peers[hubIdx]? = some q)
    (hdir : q.isIndirect = false) (hadv : hubOf s.nextId = some q.id) :
    HubTable hubOf (registerIndirectPeer cfg hubIdx now s name) := by
  rw [Portal.registerIndirectPeer]
  split
  · exact h
  split
  · have hnone : (-1 : Int) < 0 := by decide
    exact .of_eq (h.append (fun _ => rfl) fun _ => ⟨⟨rfl, hnone⟩, q, hq, hdir, hadv⟩)
      rfl rfl
  · exact h

theorem getElem?_registerIndirectPeer (cfg : NodeConfig) (hubIdx now : Nat) (name : CStr)
    {i : Nat} {q : NodePeer} (hq : s.peers[i]? = some q) :
    (registerIndirectPeer cfg hubIdx now s name).peers[i]? = some q := by
  rw [registerIndirectPeer]
  split
  · exact hq
  split
  · rename_i hroom
    change (s.append _).peers[i]? = some q
    rw [NodeState.append, if_pos hroom,
      List.getElem?_append_left (List.getElem?_eq_some_iff.mp hq).1, hq]
  · exact hq

theorem nextId_registerIndirectPeer (cfg : NodeConfig) (hubIdx now : Nat) (name : CStr) :
    s.nextId ≤ (registerIndirectPeer cfg hubIdx now s name).nextId := by
  rw [registerIndirectPeer]
  split
  · exact le_refl _
  split
  · rename_i hroom
    change s.nextId ≤ (s.append _).nextId
    rw [NodeState.append, if_pos hroom]
    exact Nat.le_succ _
  · exact le_refl _

/-- The advertised peers are registered behind the record that advertised them. -/
theorem HubTable.registerAll (h : HubTable hubOf s) (cfg : NodeConfig) (now : Nat)
    (names : List CStr) {hubIdx : Nat} {q : NodePeer} (hq : s.peers[hubIdx]? = some q)
    (hdir : q.isIndirect = false) (hadv : ∀ id, s.nextId ≤ id → hubOf id = some q.id) :
    HubTable hubOf (names.foldl (Portal.registerIndirectPeer cfg hubIdx now) s) := by
  induction names generalizing s with
  | nil => exact h
  | cons name names ih =>
    apply ih
    · exact h.registerIndirectPeer cfg now name hq hdir (hadv _ (le_refl _))
    · exact getElem?_registerIndirectPeer cfg hubIdx now name hq
    · intro id hid
      exact hadv id ((nextId_registerIndirectPeer cfg hubIdx now name).trans hid)

end Operations

section InPlace

variable (p : NodePeer)

theorem keepsSlot_of_bare {p p' : NodePeer} (hid : p'.id = p.id)
    (hind : p'.isIndirect = p.isIndirect) (hhub : p'.hubIdx = p.hubIdx)
    (hw : p.workers = [] → p'.workers = []) (hctrl : p'.ctrlFd = p.ctrlFd) : KeepsSlot p p' :=
  ⟨hid, hind, hhub, fun _ h => ⟨hw h.1, hctrl ▸ h.2⟩⟩

theorem keepsSlot_lose (now : Nat) : KeepsSlot p (p.lose now) :=
  keepsSlot_of_bare rfl rfl rfl id rfl

theorem keepsSlot_markDead (now : Nat) : KeepsSlot p (p.markDead now) :=
  keepsSlot_of_bare rfl rfl rfl id rfl

theorem keepsSlot_backOff (now nowUs : Nat) : KeepsSlot p (p.backOff now nowUs) :=
  keepsSlot_of_bare rfl rfl rfl id rfl

theorem keepsSlot_setIdentity (user : CStr × PortalLabels) : KeepsSlot p (p.setIdentity user) :=
  keepsSlot_of_bare rfl rfl rfl id rfl

theorem keepsSlot_dropWorker (fd : Int) (now : Nat) : KeepsSlot p (p.dropWorker fd now) := by
  have herase (h : p.workers = []) : (p.workers.eraseP fun w => decide (w.fd = fd)) = [] := by
    rw [h]
    rfl
  rw [dropWorker]
  split <;> exact keepsSlot_of_bare rfl rfl rfl herase rfl

theorem keepsSlot_modifyWorker (i n : Nat) (f : Worker → Worker) :
    KeepsSlot p { p with workers := p.workers.modify i f, nextWorker := n } :=
  keepsSlot_of_bare rfl rfl rfl (fun h => by simp [h]) rfl

theorem keepsSlot_reset (p : NodePeer) :
    KeepsSlot p { p with ready := false, dead := false, ctrlFd := -1, workers := [] } :=
  ⟨rfl, rfl, rfl, fun _ _ => ⟨rfl, (by decide : (-1 : Int) < 0)⟩⟩

theorem keepsSlot_cleared (p : NodePeer) : KeepsSlot p p.cleared :=
  ⟨rfl, rfl, rfl, fun _ h => ⟨by simp [cleared, h.1], (by decide : (-1 : Int) < 0)⟩⟩

theorem KeepsSlot.trans {p q r : NodePeer} (h : KeepsSlot p q) (h' : KeepsSlot q r) :
    KeepsSlot p r :=
  ⟨h'.id.trans h.id, h'.isIndirect.trans h.isIndirect, h'.hubIdx.trans h.hubIdx,
    fun hind hb => h'.bare (h.isIndirect.trans hind) (h.bare hind hb)⟩

theorem keepsSlot_direct {p p' : NodePeer} (hdir : p.isIndirect = false) (hid : p'.id = p.id)
    (hind : p'.isIndirect = p.isIndirect) (hhub : p'.hubIdx = p.hubIdx) : KeepsSlot p p' :=
  ⟨hid, hind, hhub, fun h => absurd (hdir.symm.trans h) (by decide)⟩

theorem keepsSlot_addWorker {p : NodePeer} (hdir : p.isIndirect = false) (fd : Int) :
    KeepsSlot p (p.addWorker fd) := by
  rw [addWorker]
  split
  · exact keepsSlot_direct hdir rfl rfl rfl
  · exact .refl p

end InPlace

section Steps

variable {hubOf : Nat → Option Nat} {s : NodeState P}

theorem HubTable.connectToPeerAsync (h : HubTable hubOf s) (name host : CStr)
    (started : List (Int × P)) (nowUs : Nat) :
    HubTable hubOf (connectToPeerAsync s name host started nowUs) := by
  have hsettle (p : NodePeer) :
      KeepsSlot p (if started = [] then p.backOff s.clock nowUs else p) := by
    split
    · exact keepsSlot_backOff p _ _
    · exact .refl p
  rw [Portal.connectToPeerAsync]
  split
  · refine .of_eq (h.eachPeer (eachPeer_updPeer .refl fun p _ _ => ?_)) rfl rfl
    exact (keepsSlot_reset p).trans (hsettle _)
  split
  · refine .of_eq (h.append (fun id => (hsettle _).id) fun hind => ?_) rfl rfl
    rw [(hsettle _).isIndirect] at hind
    cases hind
  · exact h

theorem HubTable.reconnectOne (h : HubTable hubOf s) (id now nowUs : Nat)
    (started : List (Int × P)) : HubTable hubOf (reconnectOne now nowUs started s id) := by
  rcases reconnectOne_cases s id now nowUs started with ⟨heq, -⟩ | ⟨i, p, -, -, -, heq⟩
  · rwa [heq]
  rw [heq]
  apply HubTable.connectToPeerAsync
  apply HubTable.eachPeer _ (eachPeer_updPeer .refl fun p _ _ => keepsSlot_cleared p)
  apply hubTable_removeIndirect
  exact h.of_eq rfl rfl

theorem HubTable.sweepInboundAt (h : HubTable hubOf s) {now i : Nat}
    (hsafe : HubSafe s (.sweep now i)) : HubTable hubOf (sweepInboundAt now s i) := by
  rw [Portal.sweepInboundAt]
  split
  · exact h
  rename_i p hp
  split
  · rename_i hswept
    exact (h.of_eq rfl rfl : HubTable hubOf ((s.closeFds p.fds).unregister p.paths)).removeAt
      (hsafe p hp hswept)
  · exact h

theorem HubTable.finishOutbound (h : HubTable hubOf s) (cfg : NodeConfig) (fd : Int)
    {id : Nat} (now : Nat) (advertised : List CStr) (hdir : IsDirect s id)
    (hadv : ∀ k, s.nextId ≤ k → hubOf k = some id) :
    HubTable hubOf (finishOutbound cfg s fd id now advertised) := by
  rw [Portal.finishOutbound]
  split
  · exact h.of_eq rfl rfl
  rename_i hubIdx hfind
  obtain ⟨hlt, hid, -⟩ := findIdx?_eq_some_iff_getElem.mp hfind
  have hid : s.peers[hubIdx].id = id := of_decide_eq_true hid
  refine .of_eq (h.registerAll cfg now advertised (getElem?_eq_getElem hlt) ?_ ?_)
    rfl rfl
  · exact hdir _ (getElem_mem hlt) hid
  · rw [hid]
    exact hadv

theorem eachPeer_attachOutbound {fd : Int} {id now : Nat} (hdir : IsDirect s id) :
    EachPeer KeepsSlot s (attachOutbound s fd id now) := by
  have hadd : EachPeer KeepsSlot s (s.updPeer id fun p => p.addWorker fd) :=
    eachPeer_updPeer .refl fun p hp hid => keepsSlot_addWorker (hdir p hp hid) fd
  rw [attachOutbound]
  split
  · exact .of_eq .refl rfl rfl
  split
  · exact hadd
  refine hadd.trans (fun _ _ _ => KeepsSlot.trans) ?_
  refine .trans (fun _ _ _ => KeepsSlot.trans)
    (eachPeer_updPeer .refl fun p _ _ => ?_) (.of_eq .refl rfl rfl)
  exact keepsSlot_of_bare rfl rfl rfl (fun h => h) rfl

theorem eachPeer_attachInbound {existing : NodePeer} (fd : Int)
    (hdir : IsDirect s existing.id) : EachPeer KeepsSlot s (attachInbound s existing fd) := by
  rw [attachInbound]
  refine .trans (fun _ _ _ => KeepsSlot.trans) (.congr_left
    (eachPeer_updPeer .refl fun p hp hid => ?_) rfl rfl) (.of_eq .refl rfl rfl)
  have hp : p.isIndirect = false := hdir p hp hid
  refine .trans ?_ (keepsSlot_addWorker ?_ fd)
  · exact keepsSlot_direct hp rfl rfl rfl
  · exact hp

theorem HubTable.markPeerDeadByFd (h : HubTable hubOf s) (fd : Int) :
    HubTable hubOf (markPeerDeadByFd s fd) :=
  h.eachPeer (eachPeer_markPeerDeadByFd .refl (fun p _ => keepsSlot_lose p _)
    fun p _ => keepsSlot_dropWorker p fd _)

theorem HubTable.hsAbort (h : HubTable hubOf s) (fd : Int) (nowUs : Nat) :
    HubTable hubOf (hsAbort s fd nowUs) :=
  h.eachPeer (eachPeer_hsAbort .refl (fun p _ _ => keepsSlot_backOff p _ _) fd)

theorem HubTable.newInbound (h : HubTable hubOf s) (cfg : NodeConfig) (fd : Int) (name : CStr)
    (advertised : List CStr) (now nowUs : Nat)
    (hadv : ∀ k, s.nextId ≤ k → hubOf k = some s.nextId) :
    HubTable hubOf (newInbound cfg s fd name advertised now nowUs) := by
  rw [Portal.newInbound]
  split
  · rename_i hroom
    have hpeers : (s.append (inbound fd name now)).peers =
        s.peers ++ [inbound fd name now s.nextId] := by
      rw [NodeState.append, if_pos hroom]
    have hnext : (s.append (inbound fd name now)).nextId = s.nextId + 1 := by
      rw [NodeState.append, if_pos hroom]
    have happ : HubTable hubOf ((s.append (inbound fd name now)).setTree
        (portalPathRegister s.tree (peerPath name) (.lit "node")).1) :=
      HubTable.of_eq (h.append (fun _ => rfl) (by rintro ⟨⟩)) rfl rfl
    have hlast : ((s.append (inbound fd name now)).setTree
        (portalPathRegister s.tree (peerPath name) (.lit "node")).1).peers[s.peers.length]? =
          some (inbound fd name now s.nextId) := by
      change (s.append _).peers[s.peers.length]? = _
      rw [hpeers, getElem?_concat_length]
    refine .of_eq (happ.registerAll cfg now advertised hlast rfl fun k hk => ?_) rfl rfl
    change (s.append _).nextId ≤ k at hk
    rw [hnext] at hk
    exact hadv k (Nat.le_of_succ_le hk)
  · exact h.hsAbort fd nowUs

theorem HubTable.finalizeHandshake (h : HubTable hubOf s) (cfg : NodeConfig) (fd : Int)
    (name : CStr) (advertised : List CStr) (now nowUs : Nat)
    (hsafe : HubSafe s (.handshake fd name advertised now nowUs))
    (hadv : ∀ k, s.nextId ≤ k → hubOf k = advertiser s (.handshake fd name advertised now nowUs)) :
    HubTable hubOf (finalizeHandshake cfg s fd name advertised now nowUs) := by
  rw [Portal.finalizeHandshake]
  split
  · exact h
  rename_i c hc
  obtain ⟨hout, hin⟩ := hsafe c hc
  simp only [advertiser, hc, Option.map_some] at hadv
  split
  · exact h
  split
  · rename_i hpeer
    rw [hpeer] at hadv
    split
    · exact h.eachPeer (eachPeer_attachInbound fd (hin hpeer _ ‹_›))
    · exact h.newInbound cfg fd name advertised now nowUs hadv
  rename_i id hpeer
  rw [hpeer] at hadv
  have hatt : EachPeer KeepsSlot s (attachOutbound s fd id now) :=
    eachPeer_attachOutbound (hout id hpeer)
  have hdir : IsDirect (attachOutbound s fd id now) id := by
    intro p' hp' hid
    obtain ⟨p, hp, hk⟩ := hatt.mem hp'
    rw [hk.isIndirect]
    exact hout id hpeer p hp (hk.id ▸ hid)
  have hfin : HubTable hubOf (attachOutbound s fd id now) := h.eachPeer hatt
  split
  · exact h
  split
  · exact hfin.of_eq rfl rfl
  · split
    · exact hfin.finishOutbound cfg fd now advertised hdir (hatt.nextId ▸ hadv)
    · exact hfin

end Steps

/-- A safe step leaves every indirect peer with the hub it came from. -/
theorem hubTable_step (cfg : NodeConfig) {w : Hubs P} (h : HubTable w.hubOf w.node)
    (e : NodeEvent P) (hsafe : HubSafe w.node e) :
    HubTable (hubStep cfg w e).hubOf (hubStep cfg w e).node := by
  have hnew : ∀ k, w.node.nextId ≤ k → (hubStep cfg w e).hubOf k = advertiser w.node e :=
    fun k hk => if_pos hk
  have hold : HubTable (hubStep cfg w e).hubOf w.node :=
    h.congr fun k hk => if_neg (not_le.mpr hk)
  generalize (hubStep cfg w e).hubOf = hubOf' at hnew hold ⊢
  suffices happ : HubTable hubOf' (nodeApply cfg w.node e) from happ.of_eq rfl rfl
  cases e with
  | accept | advance | setAuth => exact hold.of_eq rfl rfl
  | connect => exact hold.connectToPeerAsync _ _ _ _
  | handshake => exact hold.finalizeHandshake cfg _ _ _ _ _ hsafe hnew
  | exchangeReply => exact hold.eachPeer (eachPeer_exchangeReply .refl keepsSlot_setIdentity _ _ _)
  | exchangeEnd => exact hold.finishOutbound cfg _ _ _ hsafe hnew
  | identityProof => exact hold.eachPeer (eachPeer_identityProof .refl keepsSlot_setIdentity _ _)
  | lost fd => exact (hold.markPeerDeadByFd fd).of_eq rfl rfl
  | writeError fd => exact hold.markPeerDeadByFd fd
  | abort => exact hold.hsAbort _ _
  | lend => exact hold.eachPeer (eachPeer_getWorker .refl
      (fun p i n => keepsSlot_modifyWorker p i n _) (fun p _ => keepsSlot_markDead p _) _)
  | burn id i => exact hold.eachPeer (eachPeer_burnWorker .refl
      (fun p => keepsSlot_modifyWorker p i p.nextWorker _) id)
  | sweep => exact hold.sweepInboundAt hsafe
  | reconnect => exact hold.reconnectOne _ _ _ _

/-- If no hub is swept before its indirect peers are gone, and these do not connect themselves,
each of them is reached through its hub and nowhere else. -/
theorem hubs_right (cfg : NodeConfig) (tree : PortalPathTree) (auth : PortalAuthRegistry)
    (es : List (NodeEvent P))
    (h : Along (hubStep cfg) (fun w e => HubSafe w.node e) (Hubs.initial tree auth) es) :
    HubsRight (run (hubStep cfg) (Hubs.initial tree auth) es) := by
  have hinit : HubTable (Hubs.initial tree auth : Hubs P).hubOf
      (Hubs.initial tree auth : Hubs P).node := hubTable_initial tree auth _
  exact HubTable.hubsRight (Along.invariant
    (fun (w : Hubs P) e (hinv : HubTable w.hubOf w.node) hc => hubTable_step cfg hinv e hc)
    hinit h)

section Swept

def hubEvents : List (NodeEvent Unit) :=
  [.accept 5 (), .handshake 5 (.lit "hub") [.lit "leaf"] 1 0]

def sweptHub : List (NodeEvent Unit) := hubEvents ++ [.lost 5, .sweep 2 0]

def hubsAfter (es : List (NodeEvent Unit)) : Hubs Unit :=
  run (hubStep sharedConfig) (Hubs.initial portalPathInit sharedAuth) es

theorem hubs_right_hubEvents :
    (hubsAfter hubEvents).node.peers.map (fun p => (p.name, p.isIndirect, p.hubIdx)) =
      [(.lit "hub", false, 0), (.lit "leaf", true, 0)] ∧ HubsRight (hubsAfter hubEvents) := by
  refine ⟨by decide +kernel, hubs_right sharedConfig portalPathInit sharedAuth hubEvents ?_⟩
  refine ⟨trivial, fun c hc => ⟨?_, ?_⟩, trivial⟩
  · cases hc
    rintro id ⟨⟩
  · rintro - p ⟨⟩

/-- The peer "leaf" is left, and its index designates itself. -/
theorem hubs_right_false :
    (hubsAfter sweptHub).node.peers.map (fun p => (p.name, p.isIndirect, p.hubIdx)) =
      [(.lit "leaf", true, 0)] ∧ ¬ HubsRight (hubsAfter sweptHub) := by
  have htable : (hubsAfter sweptHub).node.peers.map (fun p => (p.name, p.isIndirect, p.hubIdx)) =
      [(.lit "leaf", true, 0)] := by
    decide +kernel
  refine ⟨htable, fun h => ?_⟩
  obtain ⟨p, hpeers, hp⟩ := map_eq_singleton_iff.mp htable
  obtain ⟨hind, hidx⟩ := Prod.mk.inj (Prod.mk.inj hp).2
  obtain ⟨-, q, hq, hdir, -⟩ := h.1 p (by rw [hpeers]; exact mem_singleton_self p) hind
  rw [hpeers, hidx] at hq
  cases hq
  rw [hind] at hdir
  cases hdir

end Swept

end Portal
