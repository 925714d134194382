import Portal.Node.Hubs

/-!
Who owns a descriptor. The records of `modules/mod_node/mod_node.c` list descriptors by number, and
the system hands a closed number out again, so a record may come to list somebody else's
connection, and close it. What every open descriptor is used for is recorded beside the state;
other modules open and close descriptors at any time.

* `FdTable` — every descriptor a record lists is open, its connection, and listed once.
-/

namespace Portal

open List Runs Option
open NodePeer hiding id

variable {P : Type}

/-! ### Descriptors -/

inductive FdUse where
  | other
  | peer (id : Nat)
deriving DecidableEq

/-- The module, and the descriptors of the process; those without a use are closed. -/
structure Descriptors (P : Type) where
  node : NodeState P
  use : Int → Option FdUse

inductive FdEvent (P : Type) where
  | node (e : NodeEvent P)
  | opens (fd : Int)        -- by another module
  | closes (fd : Int)

def NodePeer.openFds (p : NodePeer) : List Int := p.fds.filter (0 ≤ ·)

def opened (s : NodeState P) : NodeEvent P → List Int
  | .accept fd _ => [fd]
  | .connect name _ started _ =>
    if (findPeerAny s.peers name).isSome || decide (s.peers.length < nodeMaxPeers) then
      started.map Prod.fst
    else []
  | .reconnect id now nowUs started =>
    if (s.peers.find? fun p => p.id = id).any fun p => p.needsReconnect now nowUs then
      started.map Prod.fst
    else []
  | _ => []

def attaches (s : NodeState P) : NodeEvent P → Option (Int × Nat)
  | .handshake fd name _ _ _ =>
    ((s.conn fd).filter fun c => c.state = .hsExchange).map fun c =>
      (fd, (c.hs.bind HsContext.peer).getD
        (((findPeerByName s.peers name).map NodePeer.id).getD s.nextId))
  | _ => none

def finishesInbound (s : NodeState P) (fd : Int) : Bool :=
  (s.conn fd).any fun c => c.state = .hsExchange && (c.hs.bind HsContext.peer).isNone

/-- The descriptors closed because a record lists them, with its address: stale workers, those of a
record that is swept or set back, and that of a relay which ends. -/
def releases (s : NodeState P) : NodeEvent P → List (Int × Nat)
  | .handshake fd name _ _ _ =>
    if finishesInbound s fd then
      ((findPeerByName s.peers name).map fun p =>
        (p.workers.filter fun w => staleWorker s fd w).map fun w => (w.fd, p.id)).getD []
    else []
  | .sweep now i =>
    (((s.peers[i]?).filter fun p => p.swept now).map fun p =>
      p.openFds.map fun fd => (fd, p.id)).getD []
  | .reconnect id now nowUs _ =>
    (((s.peers.find? fun p => p.id = id).filter fun p => p.needsReconnect now nowUs).map fun p =>
      p.openFds.map fun fd => (fd, p.id)).getD []
  | .burn id i =>
    ((((s.peers.find? fun p => p.id = id).bind fun p => p.workers[i]?).filter fun w =>
      0 ≤ w.fd).map fun w => [(w.fd, id)]).getD []
  | _ => []

def closesOwn (s : NodeState P) : NodeEvent P → List Int
  | .lost fd => [fd]
  | .abort fd _ => [fd]
  | .handshake fd name _ _ _ =>
    if finishesInbound s fd && (findPeerByName s.peers name).isNone &&
      decide (nodeMaxPeers ≤ s.peers.length) then [fd] else []
  | _ => []

def closes (s : NodeState P) (e : NodeEvent P) : List Int :=
  (releases s e).map Prod.fst ++ closesOwn s e

/-! ### Runs of the process -/

def attach (use : Int → Option FdUse) (target : Option (Int × Nat)) (fd : Int) : Option FdUse :=
  ((target.filter fun a => a.1 = fd).map fun a => (use fd).map fun _ => .peer a.2).getD (use fd)

def shut (use : Int → Option FdUse) (fds : List Int) (fd : Int) : Option FdUse :=
  if fd ∈ fds then none else use fd

def handOut (use : Int → Option FdUse) (fds : List Int) (fd : Int) : Option FdUse :=
  if fd ∈ fds then some .other else use fd

/-- A number that is handed out again gets a new entry in the table of connections, which
replaces what was left there. -/
def fdStep (cfg : NodeConfig) (w : Descriptors P) : FdEvent P → Descriptors P
  | .node e =>
    { node := nodeStep cfg (w.node.closeFds (opened w.node e)) e
      use := handOut (shut (attach w.use (attaches w.node e)) (closes w.node e))
        (opened w.node e) }
  | .opens fd => { w with use := handOut w.use [fd] }
  | .closes fd => { w with use := shut w.use [fd] }

def Descriptors.initial (tree : PortalPathTree) (auth : PortalAuthRegistry)
    (use : Int → Option FdUse) : Descriptors P :=
  ⟨.initial tree auth, use⟩

/-- The system hands out closed numbers, and reports events on open ones; other modules close only
what is not a peer's. -/
def OsFair (w : Descriptors P) : FdEvent P → Prop
  | .node e => (∀ fd ∈ opened w.node e, shut w.use (closes w.node e) fd = none) ∧
      ∀ a, attaches w.node e = some a → 0 ≤ a.1 ∧ w.use a.1 ≠ none
  | .opens fd => w.use fd = none
  | .closes fd => w.use fd = some .other

/-- Every descriptor that a record lists is open and a connection of that peer, and whatever
happens next, no descriptor of anybody else is closed for being listed. -/
def FdsOwned (w : Descriptors P) : Prop :=
  (∀ p ∈ w.node.peers, ∀ fd, 0 ≤ fd → p.hasFd fd → w.use fd = some (.peer p.id)) ∧
  ∀ e, ∀ r ∈ releases w.node e, w.use r.1 = some (.peer r.2)

/-- A connection that is lost is neither its record's control connection nor its first worker, and
one in its handshake is not listed yet. -/
def FdSafe (w : Descriptors P) : FdEvent P → Prop
  | .node (.lost fd) => ∀ p ∈ w.node.peers,
      p.ctrlFd ≠ fd ∧ p.workers.head?.map Worker.fd ≠ some fd
  | .node (.abort fd _) => ∀ p ∈ w.node.peers, p.hasFd fd = false
  | .node (.handshake fd _ _ _ _) => ∀ p ∈ w.node.peers, p.hasFd fd = false
  | _ => True

/-! ### The invariant -/

structure FdTable (use : Int → Option FdUse) (s : NodeState P) : Prop where
  fresh : ∀ p ∈ s.peers, p.id < s.nextId
  ids : (s.peers.map NodePeer.id).Nodup
  owned : ∀ p ∈ s.peers, ∀ fd, 0 ≤ fd → fd ∈ p.fds → use fd = some (.peer p.id)
  once : ∀ p ∈ s.peers, ∀ fd, 0 ≤ fd → p.fds.count fd ≤ 1

theorem fdTable_initial (tree : PortalPathTree) (auth : PortalAuthRegistry)
    (use : Int → Option FdUse) : FdTable use (NodeState.initial tree auth : NodeState P) := by
  refine ⟨?_, nodup_nil, ?_, ?_⟩ <;> rintro p ⟨⟩

theorem mem_releases_of_listed {p : NodePeer} {r : Int × Nat}
    (h : r ∈ p.openFds.map fun fd => (fd, p.id)) : 0 ≤ r.1 ∧ r.1 ∈ p.fds ∧ r.2 = p.id := by
  obtain ⟨fd, hfd, rfl⟩ := mem_map.mp h
  obtain ⟨hmem, hpos⟩ := mem_filter.mp hfd
  exact ⟨of_decide_eq_true hpos, hmem, rfl⟩

theorem mem_map_getD {α β : Type} {o : Option α} {f : α → List β} {b : β} :
    b ∈ (o.map f).getD [] ↔ ∃ a, o = some a ∧ b ∈ f a := by
  cases o <;> simp

theorem mem_releases {s : NodeState P} {e : NodeEvent P} {r : Int × Nat}
    (h : r ∈ releases s e) : ∃ p ∈ s.peers, 0 ≤ r.1 ∧ r.1 ∈ p.fds ∧ r.2 = p.id := by
  have hworker {p : NodePeer} {w : Worker} (hw : w ∈ p.workers) : w.fd ∈ p.fds :=
    mem_cons_of_mem _ (mem_map_of_mem hw)
  cases e with
  | handshake fd name advertised now nowUs =>
    simp only [releases] at h
    split at h
    · obtain ⟨p, hfind, h⟩ := mem_map_getD.mp h
      obtain ⟨w, hw, rfl⟩ := mem_map.mp h
      obtain ⟨hmem, hstale⟩ := mem_filter.mp hw
      have hpos : 0 ≤ w.fd := by
        rw [staleWorker, Bool.and_eq_true, Bool.and_eq_true] at hstale
        exact of_decide_eq_true hstale.1.1
      exact ⟨p, mem_of_find?_eq_some hfind, hpos, hworker hmem, rfl⟩
    · cases h
  | sweep now i =>
    obtain ⟨p, hp, h⟩ := mem_map_getD.mp h
    obtain ⟨hp, -⟩ := filter_eq_some_iff.mp hp
    exact ⟨p, mem_of_getElem? hp, mem_releases_of_listed h⟩
  | reconnect id now nowUs started =>
    obtain ⟨p, hp, h⟩ := mem_map_getD.mp h
    obtain ⟨hp, -⟩ := filter_eq_some_iff.mp hp
    exact ⟨p, mem_of_find?_eq_some hp, mem_releases_of_listed h⟩
  | burn id i =>
    obtain ⟨w, hw, h⟩ := mem_map_getD.mp h
    cases mem_singleton.mp h
    obtain ⟨hw, hpos⟩ := filter_eq_some_iff.mp hw
    obtain ⟨p, hp, hw⟩ := bind_eq_some_iff.mp hw
    have hid : p.id = id := by simpa using find?_some hp
    exact ⟨p, mem_of_find?_eq_some hp, of_decide_eq_true hpos,
      hworker (mem_of_getElem? hw), hid.symm⟩
  | _ => cases h

theorem FdTable.fdsOwned {w : Descriptors P} (h : FdTable w.use w.node) : FdsOwned w := by
  constructor
  · intro p hp fd hpos hlist
    exact h.owned p hp fd hpos (mem_fds.mpr hlist)
  intro e r hr
  obtain ⟨p, hp, hpos, hmem, hid⟩ := mem_releases hr
  rw [hid]
  exact h.owned p hp r.1 hpos hmem

/-! ### Records that are changed in place -/

/-- The record lists what it listed, or less, but for the connection it is given. -/
structure KeepsFds (target : Option (Int × Nat)) (p p' : NodePeer) : Prop where
  id : p'.id = p.id
  count : ∀ fd, 0 ≤ fd →
    p'.fds.count fd ≤ p.fds.count fd + if target = some (fd, p.id) then 1 else 0

section InPlace

variable {use use' : Int → Option FdUse} {s s' : NodeState P} {target : Option (Int × Nat)}

theorem KeepsFds.of_sublist {p p' : NodePeer} (hid : p'.id = p.id)
    (hsub : p'.fds.Sublist p.fds) : KeepsFds target p p' :=
  ⟨hid, fun fd _ => (hsub.count_le fd).trans (Nat.le_add_right _ _)⟩

theorem KeepsFds.refl (p : NodePeer) : KeepsFds target p p :=
  .of_sublist rfl (.refl _)

section

variable (h : FdTable use s)

include h

/-- The connection a record is given is listed nowhere yet, and is a connection of that
record. -/
theorem FdTable.eachPeer (he : EachPeer (KeepsFds target) s s')
    (hnew : ∀ fd id, target = some (fd, id) →
      use fd = some (.peer id) ∧ ∀ p ∈ s.peers, fd ∉ p.fds) : FdTable use s' where
  fresh p' hp' := by
    obtain ⟨p, hp, hk⟩ := he.mem hp'
    rw [hk.id, he.nextId]
    exact h.fresh p hp
  ids := by
    rw [he.map_eq fun _ _ hk => hk.id]
    exact h.ids
  owned p' hp' fd hpos hlist := by
    obtain ⟨p, hp, hk⟩ := he.mem hp'
    have hcount := hk.count fd hpos
    rw [hk.id]
    split at hcount
    · rename_i htarget
      exact (hnew fd p.id htarget).1
    · exact h.owned p hp fd hpos
        (count_pos_iff.mp ((count_pos_iff.mpr hlist).trans_le hcount))
  once p' hp' fd hpos := by
    obtain ⟨p, hp, hk⟩ := he.mem hp'
    have hcount := hk.count fd hpos
    split at hcount
    · rename_i htarget
      have hzero := count_eq_zero.mpr ((hnew fd p.id htarget).2 p hp)
      omega
    · exact hcount.trans (h.once p hp fd hpos)

theorem FdTable.keeps (he : EachPeer (KeepsFds none) s s') : FdTable use s' :=
  h.eachPeer he (by rintro fd id ⟨⟩)

theorem FdTable.of_eq (hp : s'.peers = s.peers) (hid : s'.nextId = s.nextId) : FdTable use s' :=
  h.keeps (.of_eq .refl hp hid)

theorem FdTable.congr (hsame : ∀ p ∈ s.peers, ∀ fd, 0 ≤ fd → fd ∈ p.fds → use' fd = use fd) :
    FdTable use' s where
  fresh := h.fresh
  ids := h.ids
  owned p hp fd hpos hlist := (hsame p hp fd hpos hlist).trans (h.owned p hp fd hpos hlist)
  once := h.once

theorem FdTable.shut {fds : List Int}
    (hgone : ∀ p ∈ s.peers, ∀ fd, 0 ≤ fd → fd ∈ p.fds → fd ∉ fds) :
    FdTable (Portal.shut use fds) s :=
  h.congr fun p hp fd hpos hlist => if_neg (hgone p hp fd hpos hlist)

theorem FdTable.handOut {fds : List Int} (hclosed : ∀ fd ∈ fds, use fd = none) :
    FdTable (Portal.handOut use fds) s := by
  refine h.congr fun p hp fd hpos hlist => if_neg fun hmem => ?_
  have howned := h.owned p hp fd hpos hlist
  rw [hclosed fd hmem] at howned
  cases howned

theorem FdTable.index_eq {j k : Nat} {p q : NodePeer}
    (hp : s.peers[j]? = some p) (hq : s.peers[k]? = some q) {fd : Int} (hpos : 0 ≤ fd)
    (hfp : fd ∈ p.fds) (hfq : fd ∈ q.fds) : j = k := by
  have huse := (h.owned p (mem_of_getElem? hp) fd hpos hfp).symm.trans
    (h.owned q (mem_of_getElem? hq) fd hpos hfq)
  exact index_eq_of_nodup_map h.ids hp hq (FdUse.peer.inj (some.inj huse))

end

end InPlace

section Operations

variable {use : Int → Option FdUse} {s : NodeState P}

/-- A new record, which lists nothing or the connection it is made for. -/
theorem FdTable.append (h : FdTable use s) {mk : Nat → NodePeer} (hid : ∀ id, (mk id).id = id)
    (hmk : ∀ fd, 0 ≤ fd → fd ∈ (mk s.nextId).fds → use fd = some (.peer s.nextId))
    (honce : ∀ fd, 0 ≤ fd → (mk s.nextId).fds.count fd ≤ 1) : FdTable use (s.append mk) := by
  refine ⟨fresh_append hid h.fresh, nodup_append_ids hid h.fresh h.ids, ?_, ?_⟩
  · intro p hp fd hpos hlist
    rcases NodeState.mem_append hp with hp | rfl
    · exact h.owned p hp fd hpos hlist
    · rw [hid]
      exact hmk fd hpos hlist
  intro p hp fd hpos
  rcases NodeState.mem_append hp with hp | rfl
  · exact h.once p hp fd hpos
  · exact honce fd hpos

theorem FdTable.appendBare (h : FdTable use s) {mk : Nat → NodePeer} (hid : ∀ id, (mk id).id = id)
    (hbare : ∀ id, (mk id).fds = [-1]) : FdTable use (s.append mk) := by
  have hnone {fd : Int} (hpos : 0 ≤ fd) : fd ∉ (mk s.nextId).fds := by
    rw [hbare, mem_singleton]
    omega
  apply h.append hid
  · intro fd hpos hlist
    exact absurd hlist (hnone hpos)
  · intro fd hpos
    rw [count_eq_zero.mpr (hnone hpos)]
    exact Nat.zero_le 1

theorem NodePeer.moved_fds (p : NodePeer) (i : Nat) : (p.moved i).fds = p.fds := by
  rw [fds, fds, moved_workers, moved_ctrlFd]

theorem FdTable.removeAt (h : FdTable use s) (i : Nat) : FdTable use (s.removeAt i) := by
  by_cases hi : i < s.peers.length
  · constructor
    · intro p' hp'
      obtain ⟨p, hp, rfl⟩ := mem_removeAt hi hp'
      rw [moved_id, removeAt_nextId]
      exact h.fresh p hp
    · rw [map_removeAt hi fun q => q.moved_id i]
      exact h.ids.eraseIdx i
    · intro p' hp' fd hpos hlist
      obtain ⟨p, hp, rfl⟩ := mem_removeAt hi hp'
      rw [moved_fds] at hlist
      rw [moved_id]
      exact h.owned p hp fd hpos hlist
    · intro p' hp' fd hpos
      obtain ⟨p, hp, rfl⟩ := mem_removeAt hi hp'
      rw [moved_fds]
      exact h.once p hp fd hpos
  · rw [NodeState.removeAt, if_neg hi]
    exact h

theorem fdTable_removeIndirect (ks : List Nat) {st : NodeState P × Nat} (h : FdTable use st.1) :
    FdTable use (ks.foldl removeIndirectAt st).1 := by
  apply removeIndirect_induction ks h
  intro s k q h _ _
  have hunreg : FdTable use (s.unregister q.paths) := h.of_eq rfl rfl
  exact hunreg.removeAt k

theorem FdTable.registerAll (h : FdTable use s) (cfg : NodeConfig) (hubIdx now : Nat)
    (names : List CStr) : FdTable use (names.foldl (registerIndirectPeer cfg hubIdx now) s) := by
  induction names generalizing s with
  | nil => exact h
  | cons name names ih =>
    apply ih
    rw [registerIndirectPeer]
    split
    · exact h
    · split
      · exact (h.appendBare (fun _ => rfl) fun _ => rfl).of_eq rfl rfl
      · exact h

theorem FdTable.finishOutbound (h : FdTable use s) (cfg : NodeConfig) (fd : Int) (id now : Nat)
    (advertised : List CStr) : FdTable use (finishOutbound cfg s fd id now advertised) := by
  rw [Portal.finishOutbound]
  split
  · exact h.of_eq rfl rfl
  · exact (h.registerAll cfg _ now advertised).of_eq rfl rfl

theorem FdTable.connectToPeerAsync (h : FdTable use s) (name host : CStr)
    (started : List (Int × P)) (nowUs : Nat) :
    FdTable use (connectToPeerAsync s name host started nowUs) := by
  have hid (p : NodePeer) : (if started = [] then p.backOff s.clock nowUs else p).id = p.id := by
    split <;> rfl
  have hfds (p : NodePeer) :
      (if started = [] then p.backOff s.clock nowUs else p).fds = p.fds := by
    split <;> rfl
  rw [Portal.connectToPeerAsync]
  split
  · refine .of_eq (h.keeps (eachPeer_updPeer .refl fun p _ _ => ?_)) rfl rfl
    refine ⟨hid _, fun fd hpos => ?_⟩
    have hne : fd ≠ -1 := by omega
    rw [hfds, fds, map_nil, count_singleton, if_neg (by simpa using hne.symm)]
    exact Nat.zero_le _
  · split
    · exact (h.appendBare (fun id => hid _) fun id => hfds _).of_eq rfl rfl
    · exact h

end Operations

section Closing

variable {use : Int → Option FdUse} {s : NodeState P}

theorem NodePeer.fds_dropWorker (p : NodePeer) (fd : Int) (now : Nat) :
    (p.dropWorker fd now).fds = p.ctrlFd :: (p.workers.map Worker.fd).erase fd := by
  have herase : (p.workers.eraseP fun w => w.fd = fd).map Worker.fd =
      (p.workers.map Worker.fd).erase fd := by
    rw [erase_eq_eraseP', eraseP_map]
    rfl
  rw [dropWorker]
  split <;> exact congrArg (p.ctrlFd :: ·) herase

theorem keepsFds_dropWorker (p : NodePeer) (fd : Int) (now : Nat) :
    KeepsFds none p (p.dropWorker fd now) := by
  apply KeepsFds.of_sublist
  · rw [dropWorker]
    split <;> rfl
  · rw [fds_dropWorker]
    exact (erase_sublist ..).cons_cons _

theorem FdTable.markPeerDeadByFd (h : FdTable use s) (fd : Int) :
    FdTable use (markPeerDeadByFd s fd) :=
  h.keeps (eachPeer_markPeerDeadByFd .refl
    (fun _ _ => .of_sublist rfl (.refl _)) fun p _ => keepsFds_dropWorker p fd _)

theorem not_mem_dropWorker {p : NodePeer} {fd : Int} (hctrl : p.ctrlFd ≠ fd)
    (honce : p.fds.count fd ≤ 1) (now : Nat) : fd ∉ (p.dropWorker fd now).fds := by
  have hbeq : ¬ (p.ctrlFd == fd) = true := by simpa using hctrl
  rw [fds, count_cons, if_neg hbeq] at honce
  rw [← count_eq_zero, fds_dropWorker, count_cons, if_neg hbeq, count_erase_self]
  omega

theorem FdTable.lost (h : FdTable use s) {fd : Int} (hsafe : ∀ p ∈ s.peers,
    p.ctrlFd ≠ fd ∧ p.workers.head?.map Worker.fd ≠ some fd) :
    FdTable (Portal.shut use [fd]) (Portal.markPeerDeadByFd s fd) := by
  apply (h.markPeerDeadByFd fd).shut
  intro q' hq' f hpos hlist hmem
  cases mem_singleton.mp hmem
  rw [Portal.markPeerDeadByFd] at hq'
  split at hq'
  · rename_i hnone
    have hno := findIdx?_eq_none_iff.mp hnone q' hq'
    rw [mem_fds.mp hlist] at hno
    cases hno
  rename_i i hfind
  split at hq'
  · rename_i hp
    obtain ⟨hlt, -⟩ := findIdx?_eq_some_iff_getElem.mp hfind
    exact absurd hlt (not_lt.mpr (getElem?_eq_none_iff.mp hp))
  rename_i p hp
  obtain ⟨hctrl, hfirst⟩ := hsafe p (mem_of_getElem? hp)
  rw [if_neg (by simp [hctrl, hfirst])] at hq'
  obtain ⟨k, hk⟩ := mem_iff_getElem?.mp hq'
  obtain ⟨hlt, hhas, -⟩ := findIdx?_eq_some_iff_getElem.mp hfind
  have hpf : fd ∈ p.fds := by
    rw [getElem?_eq_getElem hlt] at hp
    cases hp
    exact mem_fds.mpr hhas
  rw [getElem?_modify] at hk
  obtain ⟨q, hq, heq⟩ := map_eq_some_iff.mp hk
  split at heq
  · rename_i hik
    subst hik heq
    rw [hp] at hq
    cases hq
    exact not_mem_dropWorker hctrl (h.once p (mem_of_getElem? hp) fd hpos) _ hlist
  · rename_i hik
    subst heq
    exact hik (h.index_eq hp hq hpos hpf hlist)

theorem FdTable.hsAbort (h : FdTable use s) {fd : Int} (hnew : ∀ p ∈ s.peers, fd ∉ p.fds)
    (nowUs : Nat) : FdTable (Portal.shut use [fd]) (hsAbort s fd nowUs) := by
  have hshut : FdTable (Portal.shut use [fd]) s :=
    h.shut fun p hp f _ hlist hmem => hnew p hp (mem_singleton.mp hmem ▸ hlist)
  exact hshut.keeps
    (eachPeer_hsAbort .refl (fun _ _ _ => .of_sublist rfl (.refl _)) fd)

/-- The slot of a relay that ends lists its descriptor no more, and nothing else changes. -/
theorem count_burn (workers : List Worker) (i : Nat) {fd : Int} (hpos : 0 ≤ fd) :
    ((workers.modify i fun w => { w with fd := -1, busy := 0 }).map Worker.fd).count fd +
      (if (workers[i]?).map Worker.fd = some fd then 1 else 0) =
        (workers.map Worker.fd).count fd := by
  induction workers generalizing i with
  | nil => simp
  | cons w workers ih =>
    cases i with
    | zero =>
      have hne : ¬ ((-1 : Int) == fd) = true := by
        rw [beq_iff_eq]
        omega
      rw [modify_zero_cons, map_cons, map_cons, count_cons, count_cons, if_neg hne]
      simp
    | succ i =>
      rw [modify_succ_cons, map_cons, map_cons, count_cons, count_cons, ← ih i, getElem?_cons_succ]
      omega

theorem mem_closes_listed {o : Option NodePeer} {fd : Int} :
    fd ∈ ((o.map fun p => p.openFds.map fun fd => (fd, p.id)).getD []).map Prod.fst ++ [] ↔
      ∃ p, o = some p ∧ 0 ≤ fd ∧ fd ∈ p.fds := by
  cases o with
  | none => simp
  | some p => simp [openFds, and_comm]

theorem FdTable.burnWorker (h : FdTable use s) (id i : Nat) :
    FdTable (Portal.shut use (closes s (.burn id i))) (burnWorker s id i) := by
  have hcount (p : NodePeer) {fd : Int} (hpos : 0 ≤ fd) := count_burn p.workers i hpos
  have hkeep : FdTable use (Portal.burnWorker s id i) := by
    refine h.keeps (eachPeer_burnWorker .refl (fun p => ⟨rfl, fun fd hpos => ?_⟩) id)
    have := hcount p hpos
    rw [fds, fds, count_cons, count_cons]
    simp only
    omega
  apply hkeep.shut
  intro q' hq' fd hpos hlist hmem
  obtain ⟨r, hr, rfl⟩ := mem_map.mp ((mem_append.mp hmem).resolve_right (by rintro ⟨⟩))
  obtain ⟨w, hw, hr⟩ := mem_map_getD.mp hr
  cases mem_singleton.mp hr
  obtain ⟨hw, -⟩ := filter_eq_some_iff.mp hw
  obtain ⟨p, hp, hw⟩ := bind_eq_some_iff.mp hw
  have hid : p.id = id := by simpa using find?_some hp
  have hmemp := mem_of_find?_eq_some hp
  have hlistp : w.fd ∈ p.fds := mem_cons_of_mem _ (mem_map_of_mem (mem_of_getElem? hw))
  -- the record that still lists it would be the same, and there it is listed once
  have huse := (hkeep.owned q' hq' _ hpos hlist).symm.trans (h.owned p hmemp _ hpos hlistp)
  obtain ⟨q, hq, rfl⟩ := mem_map.mp hq'
  have hqid : q.id = p.id := by
    split at huse <;> exact FdUse.peer.inj (some.inj huse)
  obtain rfl := inj_on_of_nodup_map h.ids hq hmemp hqid
  rw [if_pos hid] at hlist
  have honce := h.once q hq w.fd hpos
  have hburn := @hcount q w.fd hpos
  rw [hw, map_some, if_pos rfl] at hburn
  rw [← count_pos_iff, fds, count_cons] at hlist
  rw [fds, count_cons] at honce
  simp only at hlist
  omega

theorem FdTable.sweepInboundAt (h : FdTable use s) (now i : Nat) :
    FdTable (Portal.shut use (closes s (.sweep now i))) (sweepInboundAt now s i) := by
  have hcloses {fd : Int} (hfd : fd ∈ closes s (.sweep now i)) :
      ∃ p, s.peers[i]? = some p ∧ p.swept now = true ∧ fd ∈ p.fds := by
    obtain ⟨p, hp, -, hlist⟩ := mem_closes_listed.mp hfd
    obtain ⟨hp, hswept⟩ := filter_eq_some_iff.mp hp
    exact ⟨p, hp, hswept, hlist⟩
  rw [Portal.sweepInboundAt]
  split
  · rename_i hnone
    refine h.shut fun q hq fd hpos hlist hmem => ?_
    obtain ⟨p, hp, -⟩ := hcloses hmem
    rw [hnone] at hp
    cases hp
  rename_i p hp
  have hi := (List.getElem?_eq_some_iff.mp hp).1
  split
  · have hrest : FdTable use ((s.closeFds p.fds).unregister p.paths) := h.of_eq rfl rfl
    refine (hrest.removeAt i).shut fun q' hq' fd hpos hlist hmem => ?_
    obtain ⟨k, q, hki, hq, rfl⟩ :=
      @getElem?_of_mem_removeAt _ ((s.closeFds p.fds).unregister p.paths) i hi q' hq'
    rw [moved_fds] at hlist
    obtain ⟨p', hp', -, hlist'⟩ := hcloses hmem
    exact hki (h.index_eq hq hp' hpos hlist hlist')
  rename_i hkept
  refine h.shut fun q hq fd hpos hlist hmem => ?_
  obtain ⟨p', hp', hswept, -⟩ := hcloses hmem
  rw [hp] at hp'
  cases hp'
  exact hkept hswept

/-- A record that is set back lists nothing, and nobody else lists what it did. -/
theorem FdTable.setBack (h : FdTable use s) {id : Nat} {f : NodePeer → NodePeer}
    (hid : ∀ p, (f p).id = p.id) (hnone : ∀ p fd, 0 ≤ fd → fd ∉ (f p).fds) {fds : List Int}
    (howned : ∀ fd, 0 ≤ fd → fd ∈ fds → use fd = some (.peer id)) :
    FdTable (Portal.shut use fds) (s.updPeer id f) := by
  have hkeep : FdTable use (s.updPeer id f) := by
    refine h.keeps (eachPeer_updPeer .refl fun p _ _ => ⟨hid p, fun fd hpos => ?_⟩)
    rw [count_eq_zero.mpr (hnone p fd hpos)]
    exact Nat.zero_le _
  refine hkeep.shut fun q' hq' fd hpos hlist hmem => ?_
  have huse := (hkeep.owned q' hq' fd hpos hlist).symm.trans (howned fd hpos hmem)
  have hsame := FdUse.peer.inj (some.inj huse)
  obtain ⟨q, -, rfl⟩ := mem_map.mp hq'
  split at hlist
  · exact hnone q fd hpos hlist
  · rename_i hother
    rw [if_neg hother] at hsame
    exact hother hsame

theorem FdTable.reconnectOne (h : FdTable use s) (id now nowUs : Nat)
    (started : List (Int × P)) :
    FdTable (Portal.shut use (closes s (.reconnect id now nowUs started)))
      (reconnectOne now nowUs started s id) := by
  have hcloses {fd : Int} (hfd : fd ∈ closes s (.reconnect id now nowUs started)) :
      ∃ p, (s.peers.find? fun p => p.id = id) = some p ∧ p.needsReconnect now nowUs = true ∧
        fd ∈ p.fds := by
    obtain ⟨p, hp, -, hlist⟩ := mem_closes_listed.mp hfd
    obtain ⟨hp, hneeds⟩ := filter_eq_some_iff.mp hp
    exact ⟨p, hp, hneeds, hlist⟩
  rcases reconnectOne_cases s id now nowUs started with ⟨heq, hidle⟩ | ⟨i, p, -, -, -, heq⟩
  · rw [heq]
    refine h.shut fun q hq fd hpos hlist hmem => ?_
    obtain ⟨p, hp, hneeds, -⟩ := hcloses hmem
    exact hidle p hp hneeds
  rw [heq]
  apply FdTable.connectToPeerAsync
  have hrest : FdTable use ((s.closeFds p.fds).unregister p.paths) := h.of_eq rfl rfl
  have hremoved : FdTable use (s.released i p) := fdTable_removeIndirect _ hrest
  apply hremoved.setBack
  · exact fun _ => rfl
  · intro q fd hpos hlist
    exact (noFds_of_map rfl rfl).not_hasFd hpos (mem_fds.mp hlist)
  · intro fd hpos hmem
    obtain ⟨p', hp', -, hlist⟩ := hcloses hmem
    have hid : p'.id = id := by simpa using find?_some hp'
    exact hid ▸ h.owned p' (mem_of_find?_eq_some hp') fd hpos hlist

end Closing

theorem map_fd_setBusy (workers : List Worker) (i busy : Nat) :
    (workers.modify i fun w => { w with busy }).map Worker.fd = workers.map Worker.fd := by
  apply ext_getElem?
  intro k
  rw [getElem?_map, getElem?_modify, getElem?_map]
  cases workers[k]? with
  | none => rfl
  | some w =>
    simp only [Option.map_eq_map, map_some]
    split <;> rfl

theorem NodePeer.fds_lend (p : NodePeer) (i n : Nat) :
    ({ p with
      workers := p.workers.modify i fun w => { w with busy := 1 }
      nextWorker := n } : NodePeer).fds = p.fds :=
  congrArg (p.ctrlFd :: ·) (map_fd_setBusy p.workers i 1)

section Attaching

variable {use : Int → Option FdUse} {s : NodeState P} {fd : Int}

theorem keepsFds_addWorker (p : NodePeer) (fd : Int) :
    KeepsFds (some (fd, p.id)) p (p.addWorker fd) := by
  rw [addWorker]
  split
  · refine ⟨rfl, fun f _ => ?_⟩
    rw [fds, fds, map_append, map_singleton, ← cons_append, count_append, count_singleton]
    refine Nat.add_le_add_left ?_ _
    split
    · rename_i heq
      have hfd : fd = f := beq_iff_eq.mp heq
      rw [hfd, if_pos rfl]
    · exact Nat.zero_le _
  · exact .refl p

theorem FdTable.attachOutbound (h : FdTable use s) {id : Nat} (huse : use fd = some (.peer id))
    (hnew : ∀ p ∈ s.peers, fd ∉ p.fds) (now : Nat) :
    FdTable use (attachOutbound s fd id now) := by
  have hadd : FdTable use (s.updPeer id fun p => p.addWorker fd) := by
    apply h.eachPeer (eachPeer_updPeer (R := KeepsFds (some (fd, id))) .refl fun p _ hid =>
      hid ▸ keepsFds_addWorker p fd)
    rintro _ _ ⟨⟩
    exact ⟨huse, hnew⟩
  rw [Portal.attachOutbound]
  split
  · exact h
  split
  · exact hadd
  · refine .of_eq (hadd.keeps (eachPeer_updPeer .refl fun p _ _ => ?_)) rfl rfl
    exact .of_sublist rfl (.refl _)

theorem FdTable.attachInbound (h : FdTable use s) {existing : NodePeer}
    (hmem : existing ∈ s.peers) (huse : use fd = some (.peer existing.id))
    (hnew : ∀ p ∈ s.peers, fd ∉ p.fds) :
    FdTable (Portal.shut use ((existing.workers.filter fun w => staleWorker s fd w).map Worker.fd))
      (attachInbound s existing fd) := by
  rw [Portal.attachInbound]
  generalize hstale : (existing.workers.filter fun w => staleWorker s fd w).map Worker.fd = stale
  set kept := fun p : NodePeer => ({ p with
    workers := p.workers.filter fun w => decide (0 ≤ w.fd) && decide (w.fd ∉ stale) } : NodePeer)
    with hkept
  have hsub (p : NodePeer) : (kept p).fds.Sublist p.fds := ((filter_sublist ..).map _).cons_cons _
  have hkeep : FdTable use (s.updPeer existing.id fun p => (kept p).addWorker fd) := by
    refine @FdTable.eachPeer _ _ _ _ (some (fd, existing.id)) h ?_ ?_
    · refine eachPeer_updPeer .refl fun p _ hid => ?_
      have hadd := keepsFds_addWorker (kept p) fd
      refine ⟨hadd.id, fun f hpos => (hadd.count f hpos).trans ?_⟩
      rw [hid]
      exact Nat.add_le_add_right ((hsub p).count_le f) _
    · rintro _ _ ⟨⟩
      exact ⟨huse, hnew⟩
  refine .of_eq (hkeep.shut fun q' hq' f hpos hlist hf => ?_) rfl rfl
  obtain ⟨hworker, hne⟩ : f ∈ existing.workers.map Worker.fd ∧ f ≠ fd := by
    rw [← hstale] at hf
    obtain ⟨w, hw, rfl⟩ := mem_map.mp hf
    obtain ⟨hw, hstale⟩ := mem_filter.mp hw
    rw [staleWorker, Bool.and_eq_true, Bool.and_eq_true] at hstale
    exact ⟨mem_map_of_mem hw, of_decide_eq_true hstale.1.2⟩
  -- only the record itself could still list it, and there it is no longer a worker
  have hsame := (hkeep.owned q' hq' f hpos hlist).symm.trans
    (h.owned existing hmem f hpos (mem_cons_of_mem _ hworker))
  have hid := FdUse.peer.inj (some.inj hsame)
  obtain ⟨q, hq, rfl⟩ := mem_map.mp hq'
  split at hlist
  · rename_i hqid
    obtain rfl := inj_on_of_nodup_map h.ids hq hmem hqid
    have hcount := (keepsFds_addWorker (kept q) fd).count f hpos
    rw [if_neg fun heq => hne (Prod.mk.inj (some.inj heq)).1.symm] at hcount
    have hlist := count_pos_iff.mp ((count_pos_iff.mpr hlist).trans_le hcount)
    rcases mem_cons.mp hlist with hctrl | hlist
    · have honce := h.once q hq f hpos
      have hpos := count_pos_iff.mpr hworker
      rw [fds, count_cons, if_pos (beq_iff_eq.mpr hctrl.symm)] at honce
      omega
    · obtain ⟨w, hw, rfl⟩ := mem_map.mp hlist
      obtain ⟨-, hfresh⟩ := mem_filter.mp hw
      exact of_decide_eq_true (Bool.and_eq_true_iff.mp hfresh).2 hf
  · rename_i hother
    rw [if_neg hother] at hid
    exact hother hid

theorem FdTable.newInbound (h : FdTable use s) (cfg : NodeConfig) (name : CStr)
    (advertised : List CStr) (now nowUs : Nat) (huse : use fd = some (.peer s.nextId))
    (hnew : ∀ p ∈ s.peers, fd ∉ p.fds) :
    FdTable (Portal.shut use (if nodeMaxPeers ≤ s.peers.length then [fd] else []))
      (newInbound cfg s fd name advertised now nowUs) := by
  rw [Portal.newInbound]
  split
  · rename_i hfull
    rw [if_neg (not_lt.mpr hfull)]
    exact h.hsAbort hnew nowUs
  rename_i hroom
  rw [if_pos (not_le.mp hroom)]
  have happ : FdTable use (s.append (inbound fd name now)) := by
    apply h.append (fun _ => rfl)
    · intro f _ hlist
      rw [mem_singleton.mp hlist]
      exact huse
    · intro f _
      exact count_le_length
  refine .of_eq (.registerAll ?_ cfg _ now advertised) rfl rfl
  exact .of_eq happ rfl rfl

@[simp] theorem attach_none (use : Int → Option FdUse) : attach use none = use := rfl

@[simp] theorem shut_nil (use : Int → Option FdUse) : shut use [] = use :=
  funext fun _ => if_neg not_mem_nil

theorem attach_self {id : Nat} (hopen : use fd ≠ none) :
    attach use (some (fd, id)) fd = some (.peer id) := by
  obtain ⟨u, hu⟩ := ne_none_iff_exists'.mp hopen
  simp [attach, Option.filter, hu]

/-- A connection that nobody lists becomes one of the record with address `id`. -/
theorem FdTable.attach (h : FdTable use s) (hnew : ∀ p ∈ s.peers, fd ∉ p.fds) (id : Nat) :
    FdTable (Portal.attach use (some (fd, id))) s := by
  refine h.congr fun p hp f _ hlist => ?_
  have hne : fd ≠ f := by
    rintro rfl
    exact hnew p hp hlist
  simp [Portal.attach, Option.filter, hne]

theorem FdTable.finalizeHandshake (h : FdTable use s) (cfg : NodeConfig) (name : CStr)
    (advertised : List CStr) (now nowUs : Nat) (hnew : ∀ p ∈ s.peers, fd ∉ p.fds)
    (hopen : ∀ a, attaches s (.handshake fd name advertised now nowUs) = some a → use a.1 ≠ none) :
    FdTable (Portal.shut (Portal.attach use (attaches s (.handshake fd name advertised now nowUs)))
        (closes s (.handshake fd name advertised now nowUs)))
      (finalizeHandshake cfg s fd name advertised now nowUs) := by
  rw [Portal.finalizeHandshake]
  simp only [attaches, closes, releases, closesOwn, finishesInbound] at hopen ⊢
  obtain hc | ⟨c, hc⟩ := eq_none_or_eq_some (s.conn fd)
  · simpa [hc] using h
  · by_cases hst : c.state = .hsExchange
    · have hatt := h.attach hnew
      simp only [hc, Option.filter, hst, decide_true, if_true, map_some] at hopen ⊢
      have hself {id : Nat} := @attach_self use fd id (hopen _ rfl)
      cases hpeer : c.hs.bind HsContext.peer with
      | none =>
        cases hfind : findPeerByName s.peers name with
        | none =>
          have hnewIn := (hatt s.nextId).newInbound cfg name advertised now nowUs hself hnew
          simpa [hst, hpeer, hfind] using hnewIn
        | some p =>
          have hin := (hatt p.id).attachInbound (mem_of_find?_eq_some hfind) hself hnew
          simpa [hst, hpeer, hfind, Function.comp_def] using hin
      | some id =>
        have hout := (hatt id).attachOutbound hself hnew now
        simp only [hpeer, ne_eq, hst, not_true_eq_false, if_false, Option.any_some, decide_true,
          Bool.true_and, isNone_some, Bool.false_and, Bool.false_eq_true, map_nil,
          nil_append, shut_nil, getD_some]
        split
        · exact hatt id
        split
        · exact hout.of_eq rfl rfl
        · split
          · exact hout.finishOutbound cfg fd id now advertised
          · exact hout
    · simpa [hc, hst, Option.filter] using h

end Attaching

/-! ### Runs -/

theorem closeFds_nil (s : NodeState P) : s.closeFds [] = s := by
  simp [NodeState.closeFds]

/-- What a safe step closes is in no record afterwards. -/
theorem fdTable_apply (cfg : NodeConfig) {use : Int → Option FdUse} {s : NodeState P}
    (h : FdTable use s) (e : NodeEvent P) (hfair : ∀ a, attaches s e = some a → use a.1 ≠ none)
    (hsafe : FdSafe ⟨s, use⟩ (.node e)) :
    FdTable (shut (attach use (attaches s e)) (closes s e)) (nodeApply cfg s e) := by
  have hnew {fd : Int} (hfree : ∀ p ∈ s.peers, p.hasFd fd = false) : ∀ p ∈ s.peers, fd ∉ p.fds := by
    intro p hp hlist
    rw [mem_fds, hfree p hp] at hlist
    cases hlist
  have hident (p : NodePeer) (user : CStr × PortalLabels) :
      KeepsFds none p (p.setIdentity user) := .of_sublist rfl (.refl _)
  have hnone {t : NodeState P} (ht : FdTable use t) : FdTable (shut (attach use none) []) t := by
    rwa [attach_none, shut_nil]
  cases e with
  | accept | advance | setAuth => exact hnone (h.of_eq rfl rfl)
  | connect => exact hnone (h.connectToPeerAsync _ _ _ _)
  | handshake => exact h.finalizeHandshake cfg _ _ _ _ (hnew hsafe) hfair
  | exchangeReply => exact hnone (h.keeps (eachPeer_exchangeReply .refl hident _ _ _))
  | exchangeEnd => exact hnone (h.finishOutbound cfg _ _ _ _)
  | identityProof => exact hnone (h.keeps (eachPeer_identityProof .refl hident _ _))
  | lost => exact (h.lost hsafe).of_eq rfl rfl
  | writeError fd => exact hnone (h.markPeerDeadByFd fd)
  | abort => exact h.hsAbort (hnew hsafe) _
  | lend =>
    exact hnone (h.keeps (eachPeer_getWorker .refl
      (fun p i n => .of_sublist rfl (by rw [fds_lend]))
      (fun p _ => .of_sublist rfl (.refl _)) _))
  | burn => exact h.burnWorker _ _
  | sweep => exact h.sweepInboundAt _ _
  | reconnect => exact h.reconnectOne _ _ _ _

theorem fdTable_step (cfg : NodeConfig) {w : Descriptors P} (h : FdTable w.use w.node)
    (e : FdEvent P) (hfair : OsFair w e) (hsafe : FdSafe w e) :
    FdTable (fdStep cfg w e).use (fdStep cfg w e).node := by
  cases e with
  | node e =>
    have hsame : attaches (w.node.closeFds (opened w.node e)) e = attaches w.node e ∧
        closes (w.node.closeFds (opened w.node e)) e = closes w.node e := by
      cases e with
      | handshake fd =>
        change attaches (w.node.closeFds []) _ = _ ∧ closes (w.node.closeFds []) _ = _
        rw [closeFds_nil]
        exact ⟨rfl, rfl⟩
      | _ => exact ⟨rfl, rfl⟩
    have hsafe' : FdSafe ⟨w.node.closeFds (opened w.node e), w.use⟩ (.node e) := by
      cases e <;> exact hsafe
    have hnode : FdTable w.use (w.node.closeFds (opened w.node e)) := h.of_eq rfl rfl
    have happ := fdTable_apply cfg hnode e
      (fun a ha => (hfair.2 a (hsame.1.symm.trans ha)).2) hsafe'
    rw [hsame.1, hsame.2] at happ
    refine .of_eq (happ.handOut fun fd hfd => ?_) rfl rfl
    have hclosed := hfair.1 fd hfd
    cases e with
    | handshake => cases hfd
    | _ => exact hclosed
  | opens fd =>
    exact h.handOut fun f hf => mem_singleton.mp hf ▸ hfair
  | closes fd =>
    refine h.shut fun p hp f hpos hlist hmem => ?_
    have howned := h.owned p hp f hpos hlist
    rw [mem_singleton.mp hmem, hfair] at howned
    cases howned

/-- If no listed connection is closed or finished behind the back of its record, records list only
their own connections, and close nothing else. -/
theorem fds_owned (cfg : NodeConfig) (tree : PortalPathTree) (auth : PortalAuthRegistry)
    (use : Int → Option FdUse) (es : List (FdEvent P))
    (hfair : Along (fdStep cfg) OsFair (Descriptors.initial tree auth use) es)
    (hsafe : Along (fdStep cfg) FdSafe (Descriptors.initial tree auth use) es) :
    FdsOwned (run (fdStep cfg) (Descriptors.initial tree auth use) es) := by
  have hinit : FdTable (Descriptors.initial tree auth use : Descriptors P).use
      (Descriptors.initial tree auth use : Descriptors P).node := fdTable_initial tree auth use
  exact FdTable.fdsOwned (Along.invariant
    (fun (w : Descriptors P) e (hinv : FdTable w.use w.node) hc =>
      fdTable_step cfg hinv e hc.1 hc.2)
    hinit (hfair.and hsafe))

/-! ### A number that is handed out again -/

section Reused

def peerEvents : List (FdEvent Unit) :=
  [.node (.accept 5 ()), .node (.handshake 5 (.lit "edge") [] 1 0)]

/-- The connection is lost, and another module is given its number. -/
def reusedEvents : List (FdEvent Unit) := peerEvents ++ [.node (.lost 5), .opens 5]

def fdsAfter (es : List (FdEvent Unit)) : Descriptors Unit :=
  run (fdStep sharedConfig) (Descriptors.initial portalPathInit sharedAuth fun _ => none) es

theorem fair_peerEvents :
    Along (fdStep sharedConfig) OsFair (Descriptors.initial portalPathInit sharedAuth fun _ => none)
      peerEvents := by
  refine ⟨⟨?_, ?_⟩, ⟨?_, ?_⟩, trivial⟩
  · intro fd _
    rfl
  · rintro a ⟨⟩
  · rintro fd ⟨⟩
  · rintro a ⟨⟩
    exact ⟨by decide, by decide⟩

theorem fds_owned_peerEvents :
    (fdsAfter peerEvents).node.peers.map (fun p => (p.name, p.fds)) = [(.lit "edge", [5])] ∧
      FdsOwned (fdsAfter peerEvents) := by
  refine ⟨by decide +kernel, fds_owned sharedConfig portalPathInit sharedAuth _ peerEvents
    fair_peerEvents ⟨trivial, ?_, trivial⟩⟩
  rintro p ⟨⟩

/-- In a fair run the record lists what another module has opened, and the sweep closes it. -/
theorem fds_owned_false :
    Along (fdStep sharedConfig) OsFair
        (Descriptors.initial portalPathInit sharedAuth fun _ => none) reusedEvents ∧
      (fdsAfter reusedEvents).use 5 = some .other ∧
      releases (fdsAfter reusedEvents).node (.sweep 2 0) = [(5, 0)] ∧
      ¬ FdsOwned (fdsAfter reusedEvents) := by
  have hclosed : (fdsAfter (peerEvents ++ [.node (.lost 5)])).use 5 = none := by decide +kernel
  have huse : (fdsAfter reusedEvents).use 5 = some .other := by decide +kernel
  have hsweep : releases (fdsAfter reusedEvents).node (.sweep 2 0) = [(5, 0)] := by
    decide +kernel
  refine ⟨(along_append ..).mpr ⟨fair_peerEvents, ⟨?_, ?_⟩, hclosed, trivial⟩, huse,
    hsweep, fun h => ?_⟩
  · rintro fd ⟨⟩
  · rintro a ⟨⟩
  have howned := h.2 (.sweep 2 0) (5, 0) (by rw [hsweep]; exact mem_singleton_self _)
  rw [huse] at howned
  cases howned

end Reused

end Portal
