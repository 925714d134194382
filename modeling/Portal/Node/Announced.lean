import Portal.Node.Finalize

/-!
The name that the other side of an outbound connection announces (`modules/mod_node/mod_node.c`).
`connect_to_peer_async` opens connections for the record of a configured peer; `finalize_handshake`
attaches them to it, and its comment says that it compares the names.

`Succession` says what a step does to the records: they keep their address and name, list no new
descriptor and do not become ready, but for the one that a finished handshake is attached to.
-/

namespace Portal

open List Runs Option
open NodePeer hiding id

variable {P : Type}

/-! ### The property -/

def received : NodeEvent P → Int → Option CStr
  | .handshake fd name _ _ _, fd' => if fd = fd' then some name else none
  | _, _ => none

def sendsKey (cfg : NodeConfig) (s : NodeState P) : NodeEvent P → Option Nat
  | .handshake fd name _ _ _ =>
    match finalCase cfg s fd name with
    | .suspends _ id => some id
    | _ => none
  | _ => none

/-- The connection was opened by `connect_to_peer_async` for the record `p`. -/
def NodeConn.OpenedFor (c : NodeConn P) (p : NodePeer) : Prop :=
  c.hs.bind HsContext.peer = some p.id

/-- A connection that was opened for a peer becomes one that its messages go to, the peer becomes
ready, or is sent our key, only if its name was received on a connection that was opened for it. -/
structure NameChecked (cfg : NodeConfig) (s : NodeState P) (e : NodeEvent P) : Prop where
  attached : ∀ c ∈ s.conns, ∀ p ∈ s.peers, ∀ p' ∈ (nodeStep cfg s e).peers, c.OpenedFor p →
    p'.id = p.id → 0 ≤ c.fd → p.fds.count c.fd < p'.fds.count c.fd → received e c.fd = some p.name
  ready : ∀ p ∈ s.peers, ∀ p' ∈ (nodeStep cfg s e).peers, p'.id = p.id → p.ready = false →
    p'.ready = true → ∃ c ∈ s.conns, c.OpenedFor p ∧ received e c.fd = some p.name
  key : ∀ p ∈ s.peers, sendsKey cfg s e = some p.id →
    ∃ c ∈ s.conns, c.OpenedFor p ∧ received e c.fd = some p.name

/-- A handshake that is finished for a record which is not ready, or has room for the
connection, announces the name of that record. -/
def RightName (s : NodeState P) : NodeEvent P → Prop
  | .handshake fd name _ _ _ => ∀ c p, s.conn fd = some c → c.state = .hsExchange →
      c.OpenedFor p → p ∈ s.peers →
      p.ready = false ∨ 0 ≤ fd ∧ p.workers.length < nodeMaxThreads → name = p.name
  | _ => True

/-! ### What becomes of the records -/

structure TableIds (s : NodeState P) : Prop where
  fresh : ∀ p ∈ s.peers, p.id < s.nextId
  ids : (s.peers.map NodePeer.id).Nodup

/-- `p'` is what became of `p`; `target` are the connection and the record of a handshake that
is finished. -/
structure Succeeds (target : Option (Int × Nat)) (p p' : NodePeer) : Prop where
  id : p'.id = p.id
  name : p'.name = p.name
  count : ∀ fd, 0 ≤ fd → target ≠ some (fd, p.id) → p'.fds.count fd ≤ p.fds.count fd
  ready : (∀ fd, target ≠ some (fd, p.id)) → p'.ready = true → p.ready = true

/-- Every record is new, or one that there was. -/
structure Succession (target : Option (Int × Nat)) (s s' : NodeState P) : Prop where
  nextId : s.nextId ≤ s'.nextId
  old : ∀ p' ∈ s'.peers, s.nextId ≤ p'.id ∨ ∃ p ∈ s.peers, Succeeds target p p'
  ids : TableIds s → TableIds s'

section Succession

variable {target : Option (Int × Nat)} {s s' t : NodeState P} {p p' : NodePeer}

theorem Succeeds.refl (p : NodePeer) : Succeeds target p p :=
  ⟨rfl, rfl, fun _ _ _ => le_rfl, fun _ h => h⟩

theorem Succeeds.of_keeps (h : KeepsFds none p p') (hname : p'.name = p.name)
    (hready : p'.ready = true → p.ready = true) : Succeeds target p p' :=
  ⟨h.id, hname, fun fd hpos _ => h.count fd hpos, fun _ => hready⟩

theorem Succeeds.trans {q : NodePeer} (h : Succeeds target p q) (h' : Succeeds target q p') :
    Succeeds target p p' where
  id := h'.id.trans h.id
  name := h'.name.trans h.name
  count fd hpos hne := (h'.count fd hpos (h.id.symm ▸ hne)).trans (h.count fd hpos hne)
  ready hne hr := h.ready hne (h'.ready (h.id.symm ▸ hne) hr)

theorem Succession.of_eq (hp : s'.peers = s.peers) (hid : s'.nextId = s.nextId) :
    Succession target s s' where
  nextId := hid.symm.le
  old p' hp' := .inr ⟨p', hp ▸ hp', .refl p'⟩
  ids h := ⟨hp ▸ hid ▸ h.fresh, hp ▸ h.ids⟩

theorem Succession.trans (h : Succession target s t) (h' : Succession target t s') :
    Succession target s s' where
  nextId := h.nextId.trans h'.nextId
  old p' hp' := by
    rcases h'.old p' hp' with hnew | ⟨q, hq, hq'⟩
    · exact .inl (h.nextId.trans hnew)
    · rcases h.old q hq with hnew | ⟨p, hp, hpq⟩
      · exact .inl (hq'.id.symm ▸ hnew)
      · exact .inr ⟨p, hp, hpq.trans hq'⟩
  ids hs := h'.ids (h.ids hs)

theorem EachPeer.succession (h : EachPeer (Succeeds target) s s') : Succession target s s' where
  nextId := h.nextId.symm.le
  old p' hp' := .inr (h.mem hp')
  ids hs := by
    constructor
    · intro p' hp'
      obtain ⟨p, hp, hs'⟩ := h.mem hp'
      rw [hs'.id, h.nextId]
      exact hs.fresh p hp
    · rw [h.map_eq fun _ _ hs' => hs'.id]
      exact hs.ids

theorem succession_append {mk : Nat → NodePeer} (hid : ∀ id, (mk id).id = id) :
    Succession target s (s.append mk) := by
  constructor
  · rcases append_cases s mk with ⟨-, hnext⟩ | heq
    · rw [hnext]
      exact Nat.le_succ _
    · rw [heq]
  · intro p' hp'
    rcases NodeState.mem_append hp' with hp | rfl
    · exact .inr ⟨p', hp, .refl p'⟩
    · exact .inl (hid _).ge
  · intro hs
    exact ⟨fresh_append hid hs.fresh, nodup_append_ids hid hs.fresh hs.ids⟩

theorem succession_removeAt (i : Nat) : Succession target s (s.removeAt i) := by
  by_cases hi : i < s.peers.length
  · constructor
    · rw [removeAt_nextId]
    · intro p' hp'
      obtain ⟨p, hp, rfl⟩ := mem_removeAt hi hp'
      refine .inr ⟨p, hp, .of_keeps (.of_sublist (p.moved_id i) ?_) ?_ ?_⟩
      · rw [moved_fds]
      · rw [moved]
        split <;> rfl
      · rw [moved]
        split <;> exact id
    · intro hs
      constructor
      · intro p' hp'
        obtain ⟨p, hp, rfl⟩ := mem_removeAt hi hp'
        rw [moved_id, removeAt_nextId]
        exact hs.fresh p hp
      · rw [map_removeAt hi fun q => q.moved_id i]
        exact hs.ids.eraseIdx i
  · rw [NodeState.removeAt, if_neg hi]
    exact .of_eq rfl rfl

theorem succession_removeIndirect (ks : List Nat) (st : NodeState P × Nat) :
    Succession target st.1 (ks.foldl removeIndirectAt st).1 := by
  apply removeIndirect_induction ks (.of_eq rfl rfl)
  intro s k q h _ _
  have hunreg : Succession target s (s.unregister q.paths) := .of_eq rfl rfl
  exact (h.trans hunreg).trans (succession_removeAt k)

variable (cfg : NodeConfig) (fd : Int)

theorem succession_registerAll (hubIdx now : Nat) (names : List CStr) :
    Succession target s (names.foldl (registerIndirectPeer cfg hubIdx now) s) := by
  induction names generalizing s with
  | nil => exact .of_eq rfl rfl
  | cons name names ih =>
    refine .trans ?_ ih
    rw [registerIndirectPeer]
    split
    · exact .of_eq rfl rfl
    · split
      · exact (succession_append fun _ => rfl).trans (.of_eq rfl rfl)
      · exact .of_eq rfl rfl

theorem succession_finishOutbound (id now : Nat)
    (advertised : List CStr) :
    Succession target s (finishOutbound cfg s fd id now advertised) := by
  rw [finishOutbound]
  split
  · exact .of_eq rfl rfl
  · exact (succession_registerAll cfg _ now advertised).trans (.of_eq rfl rfl)

theorem succession_connectToPeerAsync (name host : CStr) (started : List (Int × P))
    (nowUs : Nat) : Succession target s (connectToPeerAsync s name host started nowUs) := by
  have hid (p : NodePeer) : (if started = [] then p.backOff s.clock nowUs else p).id = p.id := by
    split <;> rfl
  rw [connectToPeerAsync]
  split
  · have hupd (id : Nat) : EachPeer (Succeeds target) s (s.updPeer id fun p =>
        if started = [] then
          ({ p with ready := false, dead := false, ctrlFd := -1, workers := [] } :
            NodePeer).backOff s.clock nowUs
        else { p with ready := false, dead := false, ctrlFd := -1, workers := [] }) := by
      refine eachPeer_updPeer .refl fun p _ _ => ⟨hid _, ?_, fun fd hpos _ => ?_, ?_⟩
      · split <;> rfl
      · have hne : ¬ ((-1 : Int) == fd) = true := by
          rw [beq_iff_eq]
          omega
        have hfds : ((if started = [] then
            ({ p with ready := false, dead := false, ctrlFd := -1, workers := [] } :
              NodePeer).backOff s.clock nowUs
          else { p with ready := false, dead := false, ctrlFd := -1, workers := [] }) :
            NodePeer).fds = [-1] := by
          split <;> rfl
        rw [hfds, count_singleton, if_neg hne]
        exact Nat.zero_le _
      · intro _ hr
        split at hr <;> cases hr
    exact (hupd _).succession.trans (.of_eq rfl rfl)
  · split
    · exact (succession_append fun id => hid _).trans (.of_eq rfl rfl)
    · exact .of_eq rfl rfl

theorem succession_sweepInboundAt (now i : Nat) :
    Succession target s (sweepInboundAt now s i) := by
  rw [sweepInboundAt]
  split
  · exact .of_eq rfl rfl
  rename_i p _
  split
  · have hclose : Succession target s ((s.closeFds p.fds).unregister p.paths) := .of_eq rfl rfl
    exact hclose.trans (succession_removeAt i)
  · exact .of_eq rfl rfl

theorem succession_reconnectOne (id now nowUs : Nat) (started : List (Int × P)) :
    Succession target s (reconnectOne now nowUs started s id) := by
  rcases reconnectOne_cases s id now nowUs started with ⟨heq, -⟩ | ⟨i, p, -, -, -, heq⟩
  · rw [heq]
    exact .of_eq rfl rfl
  rw [heq]
  have hclose : Succession target s ((s.closeFds p.fds).unregister p.paths) := .of_eq rfl rfl
  refine .trans ?_ (succession_connectToPeerAsync p.name p.cfgHost started nowUs)
  refine .trans (hclose.trans (succession_removeIndirect _ (_, i)))
    (EachPeer.succession (eachPeer_updPeer .refl fun q _ _ => ?_))
  refine ⟨rfl, rfl, fun fd hpos _ => ?_, fun _ hr => absurd hr Bool.false_ne_true⟩
  rw [count_eq_zero.mpr]
  · exact Nat.zero_le _
  intro hlist
  exact (noFds_of_map rfl rfl).not_hasFd hpos (mem_fds.mp hlist)

theorem succession_hsAbort (nowUs : Nat) :
    Succession target s (hsAbort s fd nowUs) :=
  EachPeer.succession (eachPeer_hsAbort .refl
    (fun _ _ _ => .of_keeps (.of_sublist rfl (.refl _)) rfl id) fd)

theorem succession_markPeerDeadByFd : Succession target s (markPeerDeadByFd s fd) := by
  refine EachPeer.succession (eachPeer_markPeerDeadByFd .refl (fun p _ => ?_) fun p _ => ?_)
  · exact .of_keeps (.of_sublist rfl (.refl _)) rfl fun hr =>
      absurd hr Bool.false_ne_true
  refine .of_keeps (keepsFds_dropWorker p fd _) ?_ ?_
  · rw [dropWorker]
    split <;> rfl
  rw [dropWorker]
  split
  · exact fun hr => absurd hr Bool.false_ne_true
  · exact id

theorem succession_getWorker (id : Nat) : Succession target s (getWorker s id) := by
  refine EachPeer.succession (eachPeer_getWorker .refl (fun p i n => ?_) (fun p _ => ?_) id)
  · exact .of_keeps (.of_sublist rfl (p.fds_lend i n ▸ List.Sublist.refl _)) rfl fun hr => hr
  · exact .of_keeps (.of_sublist rfl (.refl _)) rfl fun hr =>
      absurd hr Bool.false_ne_true

theorem succession_burnWorker (id i : Nat) : Succession target s (burnWorker s id i) := by
  refine EachPeer.succession (eachPeer_burnWorker .refl (fun p => ?_) id)
  refine ⟨rfl, rfl, fun fd hpos _ => ?_, fun _ hr => hr⟩
  have hcount := count_burn p.workers i hpos
  rw [fds, fds, count_cons, count_cons]
  simp only
  omega

theorem succession_setIdentity (p : NodePeer) (user : CStr × PortalLabels) :
    Succeeds target p (p.setIdentity user) :=
  .of_keeps (.of_sublist rfl (.refl _)) rfl id

/-! ### The finished handshake -/

theorem Succeeds.attached {fd : Int} (hk : KeepsFds (some (fd, p.id)) p p')
    (hname : p'.name = p.name) : Succeeds (some (fd, p.id)) p p' where
  id := hk.id
  name := hname
  count f hpos hne := by
    have hcount := hk.count f hpos
    rwa [if_neg hne] at hcount
  ready hne := absurd rfl (hne fd)

theorem succeeds_addWorker {id : Nat} (hid : p.id = id) :
    Succeeds (some (fd, id)) p (p.addWorker fd) := by
  rw [← hid]
  refine .attached (keepsFds_addWorker p fd) ?_
  rw [addWorker]
  split <;> rfl

theorem succession_attachOutbound (id now : Nat) :
    Succession (some (fd, id)) s (attachOutbound s fd id now) := by
  have hadd : Succession (some (fd, id)) s (s.updPeer id fun p => p.addWorker fd) :=
    EachPeer.succession (eachPeer_updPeer .refl fun _ _ hid => succeeds_addWorker fd hid)
  rw [attachOutbound]
  split
  · exact .of_eq rfl rfl
  split
  · exact hadd
  · refine (hadd.trans (EachPeer.succession (eachPeer_updPeer .refl fun p _ hid => ?_))).trans
      (.of_eq rfl rfl)
    exact hid ▸ .attached (.of_sublist rfl (.refl _)) rfl

theorem succession_attachInbound (existing : NodePeer) (fd : Int) :
    Succession (some (fd, existing.id)) s (attachInbound s existing fd) := by
  rw [attachInbound]
  generalize (existing.workers.filter fun w => staleWorker s fd w).map Worker.fd = stale
  have hclose : Succession (some (fd, existing.id)) s (s.closeFds stale) := .of_eq rfl rfl
  refine (hclose.trans (EachPeer.succession (eachPeer_updPeer .refl fun p _ hid => ?_))).trans
    (.of_eq rfl rfl)
  have hsub : Succeeds (some (fd, existing.id)) p { p with
      workers := p.workers.filter fun w => decide (0 ≤ w.fd) && decide (w.fd ∉ stale) } :=
    .of_keeps (.of_sublist rfl (((filter_sublist ..).map _).cons_cons _)) rfl fun hr => hr
  exact hsub.trans (succeeds_addWorker fd hid)

theorem succession_newInbound (name : CStr)
    (advertised : List CStr) (now nowUs : Nat) :
    Succession target s (newInbound cfg s fd name advertised now nowUs) := by
  rw [newInbound]
  split
  · have happ (tree : PortalPathTree) :
        Succession target s ((s.append (inbound fd name now)).setTree tree) :=
      (succession_append fun _ => rfl).trans (.of_eq rfl rfl)
    exact ((happ _).trans (succession_registerAll cfg s.peers.length now advertised)).trans
      (.of_eq rfl rfl)
  · exact succession_hsAbort fd nowUs

theorem succession_finalizeHandshake (name : CStr)
    (advertised : List CStr) (now nowUs : Nat) :
    Succession (attaches s (.handshake fd name advertised now nowUs)) s
      (finalizeHandshake cfg s fd name advertised now nowUs) := by
  rw [finalizeHandshake, attaches]
  obtain hc | ⟨c, hc⟩ := eq_none_or_eq_some (s.conn fd)
  · rw [hc]
    exact .of_eq rfl rfl
  · simp only [hc]
    by_cases hst : c.state = .hsExchange
    · rw [if_neg (not_not.mpr hst), filter_some, if_pos (decide_eq_true hst), map_some]
      cases hpeer : c.hs.bind HsContext.peer with
      | none =>
        cases hfind : findPeerByName s.peers name with
        | none => exact succession_newInbound cfg fd name advertised now nowUs
        | some existing => exact succession_attachInbound existing fd
      | some id =>
        have hatt := @succession_attachOutbound _ s fd id now
        simp only [getD_some]
        split
        · exact .of_eq rfl rfl
        split
        · exact hatt.trans (.of_eq rfl rfl)
        · split
          · exact hatt.trans (succession_finishOutbound cfg fd id now advertised)
          · exact hatt
    · rw [if_pos hst]
      exact .of_eq rfl rfl

theorem succession_nodeApply (s : NodeState P) (e : NodeEvent P) :
    Succession (attaches s e) s (nodeApply cfg s e) := by
  cases e with
  | accept fd principal | advance fd state | setAuth auth => exact .of_eq rfl rfl
  | connect name host started nowUs => exact succession_connectToPeerAsync name host started nowUs
  | handshake fd name advertised now nowUs =>
    exact succession_finalizeHandshake cfg fd name advertised now nowUs
  | exchangeReply id fd body =>
    exact EachPeer.succession (eachPeer_exchangeReply .refl succession_setIdentity id fd body)
  | exchangeEnd fd id advertised now => exact succession_finishOutbound cfg fd id now advertised
  | identityProof fd claimedKey =>
    exact EachPeer.succession (eachPeer_identityProof .refl succession_setIdentity fd claimedKey)
  | lost fd => exact (succession_markPeerDeadByFd fd).trans (.of_eq rfl rfl)
  | writeError fd => exact succession_markPeerDeadByFd fd
  | abort fd nowUs => exact succession_hsAbort fd nowUs
  | lend id => exact succession_getWorker id
  | burn id i => exact succession_burnWorker id i
  | sweep now i => exact succession_sweepInboundAt now i
  | reconnect id now nowUs started => exact succession_reconnectOne id now nowUs started

theorem succession_nodeStep (s : NodeState P) (e : NodeEvent P) :
    Succession (attaches s e) s (nodeStep cfg s e) :=
  (succession_nodeApply cfg s e).trans (.of_eq rfl rfl)

end Succession

/-! ### Who is attached -/

section Steps

variable {cfg : NodeConfig} {s : NodeState P} {p p' : NodePeer} {e : NodeEvent P}

theorem TableIds.succeeds (h : TableIds s) (hp : p ∈ s.peers)
    (hp' : p' ∈ (nodeStep cfg s e).peers) (hid : p'.id = p.id) :
    Succeeds (attaches s e) p p' := by
  rcases (succession_nodeStep cfg s e).old p' hp' with hnew | ⟨q, hq, hs⟩
  · have := h.fresh p hp
    omega
  · obtain rfl := inj_on_of_nodup_map h.ids hq hp (hs.id.symm.trans hid)
    exact hs

theorem TableIds.find (h : TableIds s) (hp : p ∈ s.peers) :
    (s.peers.find? fun q => q.id = p.id) = some p := by
  have hsome : (s.peers.find? fun q => decide (q.id = p.id)).isSome :=
    find?_isSome.mpr ⟨p, hp, decide_eq_true rfl⟩
  obtain ⟨q, hq⟩ := isSome_iff_exists.mp hsome
  have hid : q.id = p.id := by simpa using find?_some hq
  rw [hq, inj_on_of_nodup_map h.ids (mem_of_find?_eq_some hq) hp hid]

theorem attaches_eq_some_iff {fd : Int} {id : Nat} :
    attaches s e = some (fd, id) ↔ ∃ name advertised now nowUs c,
      e = .handshake fd name advertised now nowUs ∧ s.conn fd = some c ∧ c.state = .hsExchange ∧
      (c.hs.bind HsContext.peer).getD
        (((findPeerByName s.peers name).map NodePeer.id).getD s.nextId) = id := by
  cases e with
  | handshake fd' name advertised now nowUs =>
    rw [attaches, map_eq_some_iff]
    constructor
    · rintro ⟨c, hc, heq⟩
      obtain ⟨hc, hst⟩ := filter_eq_some_iff.mp hc
      obtain ⟨rfl, hid⟩ := Prod.mk.inj heq
      exact ⟨name, advertised, now, nowUs, c, rfl, hc, of_decide_eq_true hst, hid⟩
    · rintro ⟨_, _, _, _, c, heq, hc, hst, hid⟩
      cases heq
      exact ⟨c, filter_eq_some_iff.mpr ⟨hc, decide_eq_true hst⟩, by rw [hid]⟩
  | _ => simp [attaches]

/-- A connection is attached to an old record because it was opened for it, or because it announces
its name and the record is ready. -/
theorem TableIds.attaches_cases (h : TableIds s) {fd : Int} (hp : p ∈ s.peers)
    (hatt : attaches s e = some (fd, p.id)) : ∃ name advertised now nowUs c,
      e = .handshake fd name advertised now nowUs ∧ s.conn fd = some c ∧ c.state = .hsExchange ∧
      (c.OpenedFor p ∨ p.name = name ∧ p.ready = true) := by
  obtain ⟨name, advertised, now, nowUs, c, he, hc, hst, hid⟩ := attaches_eq_some_iff.mp hatt
  refine ⟨name, advertised, now, nowUs, c, he, hc, hst, ?_⟩
  cases hpeer : c.hs.bind HsContext.peer with
  | some id =>
    rw [hpeer, getD_some] at hid
    exact .inl (hpeer.trans (congrArg some hid))
  | none =>
    rw [hpeer, getD_none] at hid
    cases hfind : findPeerByName s.peers name with
    | none =>
      rw [hfind] at hid
      exact absurd hid (Nat.ne_of_gt (h.fresh p hp))
    | some q =>
      rw [hfind] at hid
      obtain rfl := inj_on_of_nodup_map h.ids (mem_of_find?_eq_some hfind) hp hid
      have hq := find?_some hfind
      rw [Bool.and_eq_true, decide_eq_true_eq] at hq
      exact .inr hq

/-! ### The connection is attached whatever the name -/

theorem mem_updPeer {id : Nat} {f : NodePeer → NodePeer} (hp : p ∈ s.peers) (hid : p.id = id) :
    f p ∈ (s.updPeer id f).peers :=
  mem_map.mpr ⟨p, hp, if_pos hid⟩

theorem mem_append_of_mem (mk : Nat → NodePeer) (hp : p ∈ s.peers) : p ∈ (s.append mk).peers := by
  rcases append_cases s mk with ⟨hpeers, -⟩ | heq
  · rw [hpeers]
    exact mem_append_left _ hp
  · rwa [heq]

theorem mem_registerAll (cfg : NodeConfig) (hubIdx now : Nat) (names : List CStr)
    (hp : p ∈ s.peers) : p ∈ (names.foldl (registerIndirectPeer cfg hubIdx now) s).peers := by
  induction names generalizing s with
  | nil => exact hp
  | cons name names ih =>
    apply ih
    rw [registerIndirectPeer]
    split
    · exact hp
    · split
      · exact mem_append_of_mem _ hp
      · exact hp

theorem mem_finishOutbound (cfg : NodeConfig) (fd : Int) (id now : Nat) (advertised : List CStr)
    (hp : p ∈ s.peers) : p ∈ (finishOutbound cfg s fd id now advertised).peers := by
  rw [finishOutbound]
  split
  · exact hp
  · exact mem_registerAll cfg _ now advertised hp

theorem NodePeer.addWorker_id (p : NodePeer) (fd : Int) : (p.addWorker fd).id = p.id := by
  rw [addWorker]
  split <;> rfl

theorem NodePeer.addWorker_ready (p : NodePeer) (fd : Int) : (p.addWorker fd).ready = p.ready := by
  rw [addWorker]
  split <;> rfl

theorem NodePeer.count_addWorker {fd : Int} (hroom : p.workers.length < nodeMaxThreads) :
    (p.addWorker fd).fds.count fd = p.fds.count fd + 1 := by
  rw [addWorker, if_pos hroom, fds, fds, map_append,
    ← cons_append, count_append]
  simp

theorem attachOutbound_mem {fd : Int} (now : Nat) (hp : p ∈ s.peers)
    (hfind : (s.peers.find? fun q => q.id = p.id) = some p) :
    ∃ p' ∈ (attachOutbound s fd p.id now).peers,
      p'.id = p.id ∧ p'.fds = (p.addWorker fd).fds ∧ p'.ready = true := by
  have hadd : p.addWorker fd ∈ (s.updPeer p.id fun p => p.addWorker fd).peers := mem_updPeer hp rfl
  simp only [attachOutbound, hfind]
  split
  · rename_i hready
    exact ⟨_, hadd, p.addWorker_id fd, rfl, (p.addWorker_ready fd).trans hready⟩
  · refine ⟨_, mem_updPeer hadd (p.addWorker_id fd), p.addWorker_id fd, rfl, rfl⟩

theorem TableIds.handshake_mem (h : TableIds s) {fd : Int} {c : NodeConn P}
    (hc : s.conn fd = some c) (hst : c.state = .hsExchange) (hfor : c.OpenedFor p)
    (hp : p ∈ s.peers) (name : CStr) (advertised : List CStr) (now nowUs : Nat) :
    ∃ p' ∈ (nodeStep cfg s (.handshake fd name advertised now nowUs)).peers,
      p'.id = p.id ∧ p'.fds = (p.addWorker fd).fds ∧ p'.ready = true := by
  have hfind := h.find hp
  obtain ⟨p', hp', hspec⟩ := attachOutbound_mem now hp hfind
  refine ⟨p', ?_, hspec⟩
  rw [NodeConn.OpenedFor] at hfor
  simp only [nodeStep, nodeApply, finalizeHandshake, hc, hst, hfor, hfind, ne_eq, not_true_eq_false,
    if_false]
  split
  · exact hp'
  · split
    · exact mem_finishOutbound cfg fd p.id now advertised hp'
    · exact hp'

/-- A key is sent on a connection that was opened for a record which is not ready. -/
theorem finalCase_suspends {fd : Int} {name : CStr} {key : Int × Nat} {id : Nat}
    (h : finalCase cfg s fd name = .suspends key id) :
    ∃ c p, s.conn fd = some c ∧ c.state = .hsExchange ∧ c.hs.bind HsContext.peer = some id ∧
      (s.peers.find? fun p => p.id = id) = some p ∧ p.ready = false := by
  rw [finalCase] at h
  split at h
  · cases h
  rename_i c hc
  split at h
  · cases h
  rename_i hst
  split at h
  · split at h <;> cases h
  rename_i id' hpeer
  split at h
  · cases h
  rename_i p hfind
  split at h
  · cases h
  rename_i hwaits
  cases h
  rw [Bool.not_eq_true, Bool.or_eq_false_iff] at hwaits
  exact ⟨c, p, hc, not_not.mp hst, hpeer, hfind, hwaits.1⟩

theorem sendsKey_cases {id : Nat} (h : sendsKey cfg s e = some id) :
    ∃ fd name advertised now nowUs c p, e = .handshake fd name advertised now nowUs ∧
      s.conn fd = some c ∧ c.state = .hsExchange ∧ c.hs.bind HsContext.peer = some id ∧
      (s.peers.find? fun p => p.id = id) = some p ∧ p.ready = false := by
  cases e with
  | handshake fd name advertised now nowUs =>
    rw [sendsKey] at h
    split at h
    · rename_i hcase
      cases h
      obtain ⟨c, p, hspec⟩ := finalCase_suspends hcase
      exact ⟨fd, name, advertised, now, nowUs, c, p, rfl, hspec⟩
    · cases h
  | _ => cases h

theorem received_conn {fd : Int} {c : NodeConn P} (hc : s.conn fd = some c) (name : CStr)
    (advertised : List CStr) (now nowUs : Nat) :
    received (.handshake fd name advertised now nowUs : NodeEvent P) c.fd = some name := by
  rw [(NodeState.conn_mem hc).2, received, if_pos rfl]

theorem TableIds.rightName (h : TableIds s) (hcheck : NameChecked cfg s e) : RightName s e := by
  cases e with
  | handshake fd name advertised now nowUs =>
    intro c p hc hst hfor hp hwhere
    obtain ⟨hmem, hfd⟩ := NodeState.conn_mem hc
    obtain ⟨p', hp', hid, hfds, hready⟩ :=
      @TableIds.handshake_mem _ cfg _ _ h _ _ hc hst hfor hp name advertised now nowUs
    have hname {fd' : Int} (hr : received
        (.handshake fd name advertised now nowUs : NodeEvent P) fd' = some p.name) :
        name = p.name := by
      rw [received] at hr
      split at hr
      · exact some.inj hr
      · cases hr
    rcases hwhere with hnot | ⟨hpos, hroom⟩
    · obtain ⟨_, -, -, hr⟩ := hcheck.ready p hp p' hp' hid hnot hready
      exact hname hr
    · refine hname (hcheck.attached c hmem p hp p' hp' hfor hid (hfd ▸ hpos) ?_)
      rw [hfd, hfds, count_addWorker hroom]
      exact Nat.lt_succ_self _
  | _ => exact trivial

/-- With the right name, whatever is attached, becomes ready or is sent a key has it. -/
theorem TableIds.nameChecked (h : TableIds s) (hright : RightName s e) : NameChecked cfg s e where
  attached c hc p hp p' hp' hfor hid hpos hlt := by
    have hs := h.succeeds hp hp' hid
    have hids := ((succession_nodeStep cfg s e).ids h).ids
    have hatt : attaches s e = some (c.fd, p.id) := by
      by_contra hne
      exact absurd (hs.count c.fd hpos hne) (not_le.mpr hlt)
    obtain ⟨name, advertised, now, nowUs, d, rfl, hd, hst, hcase⟩ := h.attaches_cases hp hatt
    rw [received, if_pos rfl]
    rcases hcase with hopened | ⟨hname, -⟩
    · rw [hright d p hd hst hopened hp (.inr ⟨hpos, ?_⟩)]
      -- a record without room would list what it listed
      by_contra hfull
      obtain ⟨q, hq, hqid, hfds, -⟩ :=
        @TableIds.handshake_mem _ cfg _ _ h _ _ hd hst hopened hp name advertised now nowUs
      obtain rfl := inj_on_of_nodup_map hids hp' hq (hid.trans hqid.symm)
      rw [hfds, addWorker, if_neg hfull] at hlt
      exact lt_irrefl _ hlt
    · rw [hname]
  ready p hp p' hp' hid hnot hready := by
    have hs := h.succeeds hp hp' hid
    obtain ⟨fd, hatt⟩ : ∃ fd, attaches s e = some (fd, p.id) := by
      by_contra hne
      have hold := hs.ready (fun fd heq => hne ⟨fd, heq⟩) hready
      rw [hnot] at hold
      cases hold
    obtain ⟨name, advertised, now, nowUs, d, rfl, hd, hst, hcase⟩ := h.attaches_cases hp hatt
    rcases hcase with hopened | ⟨-, hwas⟩
    · refine ⟨d, (NodeState.conn_mem hd).1, hopened, ?_⟩
      rw [received_conn hd, hright d p hd hst hopened hp (.inl hnot)]
    · rw [hnot] at hwas
      cases hwas
  key p hp hsends := by
    obtain ⟨fd, name, advertised, now, nowUs, d, q, rfl, hd, hst, hopened, hq, hnot⟩ :=
      sendsKey_cases hsends
    rw [h.find hp] at hq
    cases hq
    refine ⟨d, (NodeState.conn_mem hd).1, hopened, ?_⟩
    rw [received_conn hd, hright d p hd hst hopened hp (.inl hnot)]

end Steps

/-! ### Whole runs -/

theorem tableIds_initial (tree : PortalPathTree) (auth : PortalAuthRegistry) :
    TableIds (NodeState.initial tree auth : NodeState P) :=
  ⟨fun _ hp => absurd hp not_mem_nil, nodup_nil⟩

/-- The name is checked at every step of a run exactly when no step announces a wrong one on
a connection that would be attached. -/
theorem names_checked_iff (cfg : NodeConfig) (tree : PortalPathTree) (auth : PortalAuthRegistry)
    (es : List (NodeEvent P)) :
    Along (nodeStep cfg) (NameChecked cfg) (NodeState.initial tree auth) es ↔
      Along (nodeStep cfg) RightName (NodeState.initial tree auth) es :=
  along_congr (fun s e hs => (succession_nodeStep cfg s e).ids hs)
    (fun _ _ hs => ⟨hs.rightName, hs.nameChecked⟩) (tableIds_initial tree auth) es

section Misnamed

def edgeConfig : NodeConfig where
  nodeName := .lit "hub"
  registersIndirect := true
  outboundKey _ := .lit "key-for-edge"

def edgeOpened : List (NodeEvent Unit) :=
  [.connect (.lit "edge") (.lit "10.0.0.2") [(5, ())] 0, .advance 5 .hsExchange]

def otherAnswers : NodeEvent Unit := .handshake 5 (.lit "other") [] 100 0

/-- The connection becomes the worker of `edge`, which is ready then, and the key for `edge`
is sent on it. -/
theorem names_checked_false :
    let s := run (nodeStep edgeConfig) (NodeState.initial portalPathInit ⟨[], []⟩) edgeOpened
    ((nodeStep edgeConfig s otherAnswers).peers.map fun p => (p.name, p.workers, p.ready)) =
        [(.lit "edge", [⟨5, 0⟩], true)] ∧
      sendsKey edgeConfig s otherAnswers = some 0 ∧
      ¬ Along (nodeStep edgeConfig) (NameChecked edgeConfig)
        (NodeState.initial portalPathInit ⟨[], []⟩) (edgeOpened ++ [otherAnswers]) := by
  intro s
  have hpeers : s.peers.map (fun p => (p.id, p.name)) = [(0, .lit "edge")] := by decide +kernel
  have hsends : sendsKey edgeConfig s otherAnswers = some 0 := by decide +kernel
  refine ⟨by decide +kernel, hsends, fun hall => ?_⟩
  obtain ⟨-, hlast, -⟩ := (along_append _ edgeOpened [otherAnswers]).mp hall
  obtain ⟨p, hp, hedge⟩ : ∃ p ∈ s.peers, (p.id, p.name) = (0, .lit "edge") :=
    mem_map.mp (hpeers ▸ mem_singleton_self _)
  obtain ⟨hid, hname⟩ := Prod.mk.inj hedge
  obtain ⟨c, -, -, hreceived⟩ := hlast.key p hp (hid ▸ hsends)
  rw [hname, otherAnswers, received] at hreceived
  split at hreceived
  · exact absurd (some.inj hreceived) (by decide)
  · cases hreceived

end Misnamed

end Portal
