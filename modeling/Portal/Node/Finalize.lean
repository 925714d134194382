import Portal.Node.Ownership

/-!
Finalising a handshake, with the event loop running in between (`modules/mod_node/mod_node.c`).
`finalize_handshake` of the first connection to a peer sends this node's key and waits for the
answer; the connection is still in the state HS_EXCHANGE with both halves done, and
`finalize_handshake` holds pointers to it.

A connection is known by its number and the time it was opened. The suspended calls are a stack;
`fault` is set when a context or a connection state is used after it was freed.
-/

namespace Portal

open List Runs Option NodeState
open Prod (fst mk)

variable {P : Type} {c : NodeConn P}

/-! ### Suspended finalisations -/

def NodeConn.key (c : NodeConn P) : Int × Nat := (c.fd, c.openedAt)

/-- A call of `finalize_handshake` that waits for the identity exchange. -/
structure Suspended where
  key : Int × Nat
  peer : Nat
  advertised : List CStr
deriving DecidableEq

structure Finals (P : Type) where
  node : NodeState P
  stack : List Suspended
  /-- The connections for which `finalize_handshake` has come to its end. -/
  completed : List (Int × Nat)
  fault : Bool

inductive FinalEvent (P : Type) where
  | node (e : NodeEvent P)
  | resume (now : Nat)      -- the innermost exchange is over

inductive FinalCase where
  | ignored
  | suspends (key : Int × Nat) (id : Nat)
  | aborts
  | completes (key : Int × Nat)
deriving DecidableEq

def finalCase (cfg : NodeConfig) (s : NodeState P) (fd : Int) (name : CStr) : FinalCase :=
  match s.conn fd with
  | none => .ignored
  | some c =>
    if c.state ≠ .hsExchange then .ignored
    else
      match c.hs.bind HsContext.peer with
      | none =>
        if (findPeerByName s.peers name).isNone && decide (nodeMaxPeers ≤ s.peers.length) then
          .aborts
        else .completes c.key
      | some id =>
        match s.peers.find? fun p => p.id = id with
        | none => .ignored
        | some p =>
          if p.ready || decide ((cfg.outboundKey p.name).bytes = []) then .completes c.key
          else .suspends c.key id

/-- After `finalize_handshake` has returned, `drive_handshake` resets the receive buffer. When the
exchange is over, the call goes on with the handshake context (if the peer is still in the table)
and the connection it was called for. -/
def finalStep (cfg : NodeConfig) (w : Finals P) : FinalEvent P → Finals P
  | .node (.handshake fd name advertised now nowUs) =>
    let w' := { w with node := nodeStep cfg w.node (.handshake fd name advertised now nowUs) }
    match finalCase cfg w.node fd name with
    | .ignored => w'
    | .suspends key id => { w' with stack := ⟨key, id, advertised⟩ :: w.stack }
    | .aborts => { w' with fault := true }
    | .completes key => { w' with completed := key :: w.completed }
  | .node (.exchangeEnd ..) => w  -- that is `resume`
  | .node e => { w with node := nodeStep cfg (w.node.closeFds (opened w.node e)) e }
  | .resume now =>
    match w.stack with
    | [] => w
    | a :: rest =>
      match w.node.conns.find? fun c => c.key = a.key with
      | none => { w with stack := rest, fault := true }
      | some c =>
        { node := nodeStep cfg w.node (.exchangeEnd a.key.1 a.peer a.advertised now)
          stack := rest
          completed := a.key :: w.completed
          fault := w.fault || (c.hs.isNone && w.node.peers.any fun p => p.id = a.peer) }

def Finals.initial (tree : PortalPathTree) (auth : PortalAuthRegistry) : Finals P :=
  ⟨.initial tree auth, [], [], false⟩

/-! ### Property and condition -/

structure OneFinalisation (w : Finals P) : Prop where
  /-- No connection is finalised twice. -/
  once : w.completed.Nodup
  /-- A descriptor has at most one worker slot, in one record. -/
  slots : ∀ fd, 0 ≤ fd → (∀ p ∈ w.node.peers, (p.workers.map Worker.fd).count fd ≤ 1) ∧
    ∀ (i j : Nat) p q, w.node.peers[i]? = some p → w.node.peers[j]? = some q →
      fd ∈ p.workers.map Worker.fd → fd ∈ q.workers.map Worker.fd → i = j
  noFault : w.fault = false

/-- Numbers are handed out once, and not those of open connections; only a connection that is not
yet in the exchange comes nearer to it. -/
def FinalFair (w : Finals P) : FinalEvent P → Prop
  | .node (.advance fd _) => ∀ c, w.node.conn fd = some c → c.state ≠ .hsExchange
  | .node e => (opened w.node e).Nodup ∧
      ∀ fd ∈ opened w.node e, 0 ≤ fd ∧ ∀ a ∈ w.stack, a.key.1 ≠ fd
  | .resume _ => True

/-- Nothing happens to a connection while its finalisation is suspended, and a new name
finds room in the table. -/
def FinalSafe (w : Finals P) : FinalEvent P → Prop
  | .node (.handshake fd name advertised now nowUs) =>
    (∀ a ∈ w.stack, a.key.1 ≠ fd) ∧ (∀ p ∈ w.node.peers, p.hasFd fd = false) ∧
    (finishesInbound w.node fd = true → findPeerByName w.node.peers name = none →
      w.node.peers.length < nodeMaxPeers) ∧
    ∀ r ∈ releases w.node (.handshake fd name advertised now nowUs), ∀ a ∈ w.stack, a.key.1 ≠ r.1
  | .node e => ∀ fd ∈ closes w.node e, ∀ a ∈ w.stack, a.key.1 ≠ fd
  | .resume _ => True

section Conns

variable (s : NodeState P)

theorem conns_registerAll (cfg : NodeConfig) (hubIdx now : Nat) (names : List CStr) :
    (names.foldl (registerIndirectPeer cfg hubIdx now) s).conns = s.conns := by
  induction names generalizing s with
  | nil => rfl
  | cons name names ih =>
    rw [foldl_cons, ih, registerIndirectPeer]
    split
    · rfl
    · split
      · exact s.append_conns _
      · rfl

theorem conns_finishOutbound (cfg : NodeConfig) (fd : Int) (id now : Nat)
    (advertised : List CStr) :
    (finishOutbound cfg s fd id now advertised).conns = (s.connReady fd).conns := by
  rw [finishOutbound]
  split
  · rfl
  · rw [connReady, updConn]
    simp only [conns_registerAll]
    rfl

theorem conns_attachOutbound (fd : Int) (id now : Nat) :
    (attachOutbound s fd id now).conns = s.conns := by
  rw [attachOutbound]
  split
  · rfl
  split
  · rfl
  · rfl

theorem conns_hsAbort (fd : Int) (nowUs : Nat) :
    (hsAbort s fd nowUs).conns = (s.closeFd fd).conns := by
  rw [hsAbort]
  split
  · rfl
  · rfl

theorem conns_markPeerDeadByFd (fd : Int) : (markPeerDeadByFd s fd).conns = s.conns := by
  rw [markPeerDeadByFd]
  repeat' split
  all_goals rfl

theorem conns_getWorker (id : Nat) : (getWorker s id).conns = s.conns := by
  rw [getWorker]
  repeat' split
  all_goals rfl

theorem conns_recordExchange (fd : Int) (user : CStr) :
    (s.recordExchange fd user).conns = s.conns := by
  rw [recordExchange]
  split
  · rfl
  · rfl

theorem conns_exchangeReply (id : Nat) (fd : Int) (body : Bytes) :
    (exchangeReply s id fd body).conns = s.conns := by
  rw [exchangeReply]
  split
  · rfl
  · exact conns_recordExchange s fd _

theorem conns_identityProof (fd : Int) (claimedKey : CharPtr) :
    (identityProof s fd claimedKey).conns = s.conns := by
  rw [identityProof]
  repeat' split
  all_goals first | rfl | exact conns_recordExchange s fd _

/-- The sockets that were started are connections now, unless the table is full. -/
theorem conns_connectToPeerAsync (name host : CStr) (started : List (Int × P)) (nowUs : Nat) :
    ∃ new, (connectToPeerAsync s name host started nowUs).conns = s.conns ++ new ∧
      (∀ c ∈ new, c.openedAt = s.clock) ∧
      new.map NodeConn.fd = opened s (.connect name host started nowUs) := by
  have hopened (id : Nat) : ∀ c ∈ started.map (fun f =>
      (⟨f.1, .tcpConnecting, some ⟨some id, .lit "", []⟩, f.2, s.clock⟩ : NodeConn P)),
      c.openedAt = s.clock := by
    intro c hc
    obtain ⟨f, -, rfl⟩ := mem_map.mp hc
    rfl
  rw [connectToPeerAsync, opened]
  split
  · rename_i peer hfind
    refine ⟨_, rfl, hopened peer.id, ?_⟩
    rw [hfind, List.map_map]
    rfl
  rename_i hfind
  rw [hfind]
  split
  · rename_i hroom
    refine ⟨_, ?_, hopened s.nextId, ?_⟩
    · rw [append, if_pos hroom]
      rfl
    · rw [decide_eq_true hroom, List.map_map]
      rfl
  rename_i hfull
  refine ⟨[], (append_nil _).symm, by rintro c ⟨⟩, ?_⟩
  rw [decide_eq_false hfull]
  rfl

theorem conns_sweepInboundAt (now i : Nat) :
    ∃ gone : List Int, (sweepInboundAt now s i).conns = (s.closeFds gone).conns ∧
      ∀ fd ∈ gone, 0 ≤ fd → fd ∈ closes s (.sweep now i) := by
  rw [sweepInboundAt]
  split
  · exact ⟨[], by rw [closeFds_nil], by rintro fd ⟨⟩⟩
  rename_i p hp
  split
  · rename_i hswept
    refine ⟨p.fds, (drops_removeAt _ i).conns, fun fd hfd hpos => ?_⟩
    refine mem_closes_listed.mpr ⟨p, ?_, hpos, hfd⟩
    exact filter_eq_some_iff.mpr ⟨hp, hswept⟩
  · exact ⟨[], by rw [closeFds_nil], by rintro fd ⟨⟩⟩

theorem clock_removeIndirect (ks : List Nat) (st : NodeState P × Nat) :
    (ks.foldl removeIndirectAt st).1.clock = st.1.clock := by
  refine removeIndirect_induction (M := fun s => s.clock = st.1.clock) ks rfl ?_
  intro s k q h _ _
  rw [← h, removeAt]
  split
  · rfl
  · rfl

theorem conns_reconnectOne (id now nowUs : Nat) (started : List (Int × P)) :
    ∃ gone new, (reconnectOne now nowUs started s id).conns = (s.closeFds gone).conns ++ new ∧
      (∀ fd ∈ gone, 0 ≤ fd → fd ∈ closes s (.reconnect id now nowUs started)) ∧
      (∀ c ∈ new, c.openedAt = s.clock) ∧
      (new.map NodeConn.fd).Sublist (opened s (.reconnect id now nowUs started)) := by
  rcases reconnectOne_cases s id now nowUs started with ⟨heq, -⟩ | ⟨i, p, -, hfind, hneeds, heq⟩
  · rw [heq]
    exact ⟨[], [], by rw [closeFds_nil, append_nil], by rintro fd ⟨⟩, by rintro c ⟨⟩,
      nil_sublist _⟩
  obtain ⟨new, hconns, hopened, hfds⟩ := conns_connectToPeerAsync
    ((s.released i p).updPeer id NodePeer.cleared) p.name p.cfgHost started nowUs
  rw [heq]
  refine ⟨p.fds, new, ?_, fun fd hfd hpos => ?_, fun c hc => ?_, ?_⟩
  · exact hconns.trans (congrArg (· ++ new) (drops_released s i p).conns)
  · refine mem_closes_listed.mpr ⟨p, ?_, hpos, hfd⟩
    exact filter_eq_some_iff.mpr ⟨hfind, hneeds⟩
  · refine (hopened c hc).trans ?_
    exact clock_removeIndirect _ ((s.closeFds p.fds).unregister p.paths, i)
  have hall : opened s (.reconnect id now nowUs started) = started.map fst := by
    rw [opened, hfind]
    exact if_pos hneeds
  rw [hfds, hall, opened]
  split
  · exact .refl _
  · exact nil_sublist _

/-- What a call of `finalize_handshake` on `fd` does to the connections; it may close those
of `gone`. -/
def FinalCase.Conns (s t : NodeState P) (fd : Int) (gone : Int → Prop) : FinalCase → Prop
  | .ignored => t = s
  | .suspends .. => t.conns = s.conns
  | .aborts => t.conns = (s.closeFd fd).conns
  | .completes _ => ∃ fds, t.conns = ((s.closeFds fds).connReady fd).conns ∧ ∀ x ∈ fds, gone x

theorem conns_finalizeHandshake (cfg : NodeConfig) (fd : Int) (name : CStr)
    (advertised : List CStr) (now nowUs : Nat) :
    (finalCase cfg s fd name).Conns s (finalizeHandshake cfg s fd name advertised now nowUs) fd
      fun x => ∃ id, (x, id) ∈ releases s (.handshake fd name advertised now nowUs) := by
  have hready {t : NodeState P} {key : Int × Nat} {gone : Int → Prop}
      (ht : t.conns = (s.connReady fd).conns) : (FinalCase.completes key).Conns s t fd gone :=
    ⟨[], by rw [ht, closeFds_nil], by rintro x ⟨⟩⟩
  rw [finalCase, finalizeHandshake]
  obtain hc | ⟨c, hc⟩ := eq_none_or_eq_some (s.conn fd)
  · simp only [hc]
    rfl
  · simp only [hc]
    by_cases hst : c.state = .hsExchange
    · simp only [hst, ne_eq, not_true_eq_false, if_false]
      obtain hpeer | ⟨id, hpeer⟩ := eq_none_or_eq_some (c.hs.bind HsContext.peer)
      · simp only [hpeer]
        obtain hfind | ⟨p, hfind⟩ := eq_none_or_eq_some (findPeerByName s.peers name)
        · simp only [hfind, newInbound, Option.isNone_none, Bool.true_and]
          by_cases hroom : s.peers.length < nodeMaxPeers
          · rw [decide_eq_false (not_le.mpr hroom), if_pos hroom]
            apply hready
            rw [connReady, updConn]
            simp only [conns_registerAll]
            rw [setTree, append, if_pos hroom]
            rfl
          · rw [decide_eq_true (not_lt.mp hroom), if_neg hroom]
            exact conns_hsAbort s fd nowUs
        · simp only [hfind, isNone_some, Bool.false_and, Bool.false_eq_true, if_false]
          refine ⟨_, rfl, fun x hx => ⟨p.id, ?_⟩⟩
          obtain ⟨v, hv, rfl⟩ := mem_map.mp hx
          have hin : finishesInbound s fd = true := by
            simp [finishesInbound, hc, hst, hpeer]
          rw [releases, if_pos hin]
          exact mem_map_getD.mpr ⟨p, hfind, mem_map.mpr ⟨v, hv, rfl⟩⟩
      · simp only [hpeer]
        obtain hfind | ⟨p, hfind⟩ := eq_none_or_eq_some (s.peers.find? fun p => decide (p.id = id))
        · simp only [hfind]
          rfl
        · have hatt := conns_attachOutbound s fd id now
          simp only [hfind]
          by_cases hp : p.ready = true
          · rw [hp, Bool.true_or, if_pos rfl, if_pos rfl]
            apply hready
            rw [connReady, updConn]
            simp only [hatt]
            rfl
          · rw [Bool.eq_false_iff.mpr hp, Bool.false_or, if_neg Bool.false_ne_true]
            by_cases hkey : (cfg.outboundKey p.name).bytes = []
            · rw [decide_eq_true hkey, if_pos hkey, if_pos rfl]
              apply hready
              rw [conns_finishOutbound, connReady, updConn]
              simp only [hatt]
              rfl
            · rw [decide_eq_false hkey, if_neg hkey, if_neg Bool.false_ne_true]
              exact hatt
    · simp only [hst, ne_eq, not_false_eq_true, if_true]
      rfl

end Conns

/-- Connections go, one may come nearer to READY, and new ones come. -/
structure ConnsChange (now : Nat) (gone touched : Int → Prop) (fresh : List Int)
    (conns conns' : List (NodeConn P)) : Prop where
  keeps : ∀ c ∈ conns, ¬ gone c.fd → ¬ touched c.fd → c ∈ conns'
  old : ∀ c' ∈ conns', (∃ c ∈ conns, c.key = c'.key ∧ (c.state = .ready → c'.state = .ready)) ∨
    c'.openedAt = now ∧ c'.fd ∈ fresh
  fds : ∃ new : List Int, new.Sublist fresh ∧
    ((conns'.map NodeConn.fd).Sublist (conns.map NodeConn.fd ++ new))

section Changes

variable {now : Nat} {gone touched : Int → Prop} {fresh : List Int} {conns : List (NodeConn P)}

theorem ConnsChange.refl (conns : List (NodeConn P)) :
    ConnsChange now gone touched fresh conns conns where
  keeps c hc _ _ := hc
  old c hc := .inl ⟨c, hc, rfl, id⟩
  fds := ⟨[], nil_sublist _, by rw [append_nil]⟩

theorem ConnsChange.filter {q : NodeConn P → Bool} (hq : ∀ c ∈ conns, q c = false → gone c.fd) :
    ConnsChange now gone touched fresh conns (conns.filter q) where
  keeps c hc hgone _ := by
    refine mem_filter.mpr ⟨hc, ?_⟩
    cases h : q c with
    | true => rfl
    | false => exact absurd (hq c hc h) hgone
  old c hc := .inl ⟨c, (mem_filter.mp hc).1, rfl, id⟩
  fds := ⟨[], nil_sublist _, by
    rw [append_nil]
    exact List.filter_sublist.map _⟩

theorem ConnsChange.update {fd : Int} {f : NodeConn P → NodeConn P} (htouched : touched fd)
    (hkey : ∀ c, (f c).key = c.key) (hready : ∀ c, c.state = .ready → (f c).state = .ready) :
    ConnsChange now gone touched fresh conns
      (conns.map fun c => if c.fd = fd then f c else c) where
  keeps c hc _ hnot := by
    refine mem_map.mpr ⟨c, hc, if_neg fun heq => ?_⟩
    exact hnot (heq ▸ htouched)
  old c' hc' := by
    obtain ⟨c, hc, rfl⟩ := mem_map.mp hc'
    refine .inl ⟨c, hc, ?_⟩
    split
    · exact ⟨(hkey c).symm, hready c⟩
    · exact ⟨rfl, id⟩
  fds := by
    refine ⟨[], nil_sublist _, ?_⟩
    have hfd (c : NodeConn P) : (if c.fd = fd then f c else c).fd = c.fd := by
      split
      · exact congrArg fst (hkey c)
      · rfl
    rw [List.map_map, append_nil]
    exact (map_congr_left fun c _ => hfd c) ▸ List.Sublist.refl _

theorem ConnsChange.append {new : List (NodeConn P)} (hnow : ∀ c ∈ new, c.openedAt = now)
    (hfds : (new.map NodeConn.fd).Sublist fresh) :
    ConnsChange now gone touched fresh conns (conns ++ new) where
  keeps c hc _ _ := mem_append_left _ hc
  old c hc := by
    rcases mem_append.mp hc with hc | hc
    · exact .inl ⟨c, hc, rfl, id⟩
    · exact .inr ⟨hnow c hc, hfds.subset (mem_map_of_mem hc)⟩
  fds := ⟨new.map NodeConn.fd, hfds, by rw [map_append]⟩

theorem ConnsChange.trans {mid conns' : List (NodeConn P)}
    (h : ConnsChange now gone touched [] conns mid)
    (h' : ConnsChange now gone touched fresh mid conns') :
    ConnsChange now gone touched fresh conns conns' where
  keeps c hc hgone htouched := h'.keeps c (h.keeps c hc hgone htouched) hgone htouched
  old c'' hc'' := by
    rcases h'.old c'' hc'' with ⟨c', hc', hkey', hready'⟩ | hnew
    · rcases h.old c' hc' with ⟨c, hc, hkey, hready⟩ | ⟨-, ⟨⟩⟩
      exact .inl ⟨c, hc, hkey.trans hkey', fun hr => hready' (hready hr)⟩
    · exact .inr hnew
  fds := by
    obtain ⟨new, hnew, hsub⟩ := h.fds
    obtain ⟨new', hnew', hsub'⟩ := h'.fds
    rw [sublist_nil.mp hnew, append_nil] at hsub
    exact ⟨new', hnew', hsub'.trans (hsub.append_right new')⟩

theorem ConnsChange.connReady {s : NodeState P} {fd : Int} (htouched : touched fd) :
    ConnsChange now gone touched fresh s.conns (s.connReady fd).conns :=
  .update htouched (fun _ => rfl) fun _ _ => rfl

end Changes

theorem ready_of_mem_connReady {s : NodeState P} {fd : Int} (hc : c ∈ (s.connReady fd).conns)
    (hfd : c.fd = fd) : c.state = .ready := by
  obtain ⟨c, -, rfl⟩ := mem_map.mp hc
  by_cases heq : c.fd = fd
  · rw [if_pos heq]
  · rw [if_neg heq] at hfd
    exact absurd hfd heq

/-- The connection on which the handshake comes nearer to the exchange. -/
def Advances : NodeEvent P → Int → Prop
  | .advance fd _, x => x = fd
  | _, _ => False

theorem connsChange_apply (cfg : NodeConfig) (s : NodeState P) (e : NodeEvent P)
    (hpos : ∀ c ∈ s.conns, 0 ≤ c.fd)
    (hfinal : ∀ fd name advertised now nowUs, e ≠ .handshake fd name advertised now nowUs)
    (hend : ∀ fd id advertised now, e ≠ .exchangeEnd fd id advertised now) :
    ConnsChange s.clock (fun fd => fd ∈ closes s e) (Advances e) (opened s e) s.conns
      (nodeApply cfg s e).conns := by
  have hclose {fds : List Int} (hfds : ∀ fd ∈ fds, 0 ≤ fd → fd ∈ closes s e) (fresh : List Int) :
      ConnsChange s.clock (fun fd => fd ∈ closes s e) (Advances e) fresh s.conns
        (s.closeFds fds).conns := by
    refine .filter fun c hc hq => hfds c.fd ?_ (hpos c hc)
    exact not_not.mp (of_decide_eq_false hq)
  cases e with
  | accept fd principal =>
    refine .append (fun c hc => ?_) (.refl _)
    rw [mem_singleton.mp hc]
  | connect name host started nowUs =>
    obtain ⟨new, hconns, hnow, hfds⟩ := conns_connectToPeerAsync s name host started nowUs
    exact hconns ▸ ConnsChange.append hnow (hfds ▸ List.Sublist.refl _)
  | advance fd state =>
    refine .update rfl (fun c => ?_) fun c hc => ?_
    · rw [NodeConn.advance]
      split <;> rfl
    · rw [NodeConn.advance, if_pos (.inl hc), hc]
  | handshake fd name advertised now nowUs => exact absurd rfl (hfinal fd name advertised now nowUs)
  | exchangeReply id fd body => exact conns_exchangeReply s id fd body ▸ .refl _
  | exchangeEnd fd id advertised now => exact absurd rfl (hend fd id advertised now)
  | identityProof fd claimedKey => exact conns_identityProof s fd claimedKey ▸ .refl _
  | lost fd =>
    change ConnsChange _ _ _ _ _ ((markPeerDeadByFd s fd).conns.filter fun c => c.fd ≠ fd)
    rw [conns_markPeerDeadByFd]
    refine .filter fun c _ hq => ?_
    rw [not_not.mp (of_decide_eq_false hq)]
    exact mem_singleton_self fd
  | writeError fd => exact conns_markPeerDeadByFd s fd ▸ .refl _
  | abort fd nowUs =>
    change ConnsChange _ _ _ _ _ (hsAbort s fd nowUs).conns
    rw [conns_hsAbort]
    refine .filter fun c _ hq => ?_
    rw [not_not.mp (of_decide_eq_false hq)]
    exact mem_singleton_self fd
  | lend id => exact conns_getWorker s id ▸ .refl _
  | burn id i => exact .refl _
  | sweep now i =>
    obtain ⟨gone, hconns, hgone⟩ := conns_sweepInboundAt s now i
    exact hconns ▸ hclose hgone _
  | reconnect id now nowUs started =>
    obtain ⟨gone, new, hconns, hgone, hnow, hfds⟩ := conns_reconnectOne s id now nowUs started
    exact hconns ▸ (hclose hgone []).trans (.append hnow hfds)
  | setAuth auth => exact .refl _

/-! ### The invariant -/

structure FinalInv (w : Finals P) : Prop where
  noFault : w.fault = false
  listed : ∃ use, FdTable use w.node
  once : w.completed.Nodup
  past : ∀ x ∈ w.completed, x.2 < w.node.clock
  fds : (w.node.conns.map NodeConn.fd).Nodup
  opened : ∀ c ∈ w.node.conns, 0 ≤ c.fd ∧ c.openedAt < w.node.clock
  closed : ∀ c ∈ w.node.conns, c.key ∈ w.completed → c.state = .ready
  stack : (w.stack.map Suspended.key).Nodup
  alive : ∀ a ∈ w.stack, ∃ c ∈ w.node.conns, c.key = a.key ∧ c.state = .hsExchange ∧
    c.hs.isSome = true

theorem finalInv_initial (tree : PortalPathTree) (auth : PortalAuthRegistry) :
    FinalInv (Finals.initial tree auth : Finals P) where
  noFault := rfl
  listed := ⟨fun _ => none, fdTable_initial tree auth _⟩
  once := nodup_nil
  past := by rintro x ⟨⟩
  fds := nodup_nil
  opened := by rintro c ⟨⟩
  closed := by rintro c ⟨⟩
  stack := nodup_nil
  alive := by rintro a ⟨⟩

section Invariant

variable {w : Finals P}

section

variable (h : FinalInv w)

include h

theorem FinalInv.oneFinalisation : OneFinalisation w := by
  obtain ⟨use, htable⟩ := h.listed
  refine ⟨h.once, fun fd hpos => ⟨fun p hp => ?_, fun i j p q hp hq hfp hfq => ?_⟩, h.noFault⟩
  · have honce := htable.once p hp fd hpos
    rw [NodePeer.fds, count_cons] at honce
    omega
  · exact htable.index_eq hp hq hpos (mem_cons_of_mem _ hfp) (mem_cons_of_mem _ hfq)

theorem FinalInv.conn_eq {d : NodeConn P} (hc : c ∈ w.node.conns) (hd : d ∈ w.node.conns)
    (heq : c.fd = d.fd) : c = d :=
  inj_on_of_nodup_map h.fds hc hd heq

theorem FinalInv.find_eq {q : NodeConn P → Bool} (hc : c ∈ w.node.conns) (hq : q c = true)
    (hfd : ∀ d, q d = true → d.fd = c.fd) : w.node.conns.find? q = some c := by
  obtain ⟨d, hd⟩ := isSome_iff_exists.mp (find?_isSome.mpr ⟨c, hc, hq⟩)
  rw [hd, h.conn_eq (mem_of_find?_eq_some hd) hc (hfd d (find?_some hd))]

theorem FinalInv.not_completed (hc : c ∈ w.node.conns) (hst : c.state = .hsExchange) :
    c.key ∉ w.completed := by
  intro hmem
  have hready := h.closed c hc hmem
  rw [hst] at hready
  cases hready

/-- Connections that nobody is in the middle of finalising may be closed. -/
theorem FinalInv.closeFds {fds : List Int}
    (hsafe : ∀ a ∈ w.stack, a.key.1 ∉ fds) : FinalInv { w with node := w.node.closeFds fds } := by
  obtain ⟨use, htable⟩ := h.listed
  have hmem {c : NodeConn P} (hc : c ∈ (w.node.closeFds fds).conns) : c ∈ w.node.conns :=
    (mem_filter.mp hc).1
  refine ⟨h.noFault, ⟨use, htable.of_eq rfl rfl⟩, h.once, h.past,
    h.fds.sublist (List.filter_sublist.map _), fun c hc => h.opened c (hmem hc),
    fun c hc => h.closed c (hmem hc), h.stack, fun a ha => ?_⟩
  obtain ⟨c, hc, hkey, halive⟩ := h.alive a ha
  refine ⟨c, mem_filter.mpr ⟨hc, decide_eq_true ?_⟩, hkey, halive⟩
  rw [show c.fd = a.key.1 from congrArg fst hkey]
  exact hsafe a ha

theorem FinalInv.change {gone touched : Int → Prop} {fresh : List Int} {node : NodeState P}
    (hc : ConnsChange w.node.clock gone touched fresh w.node.conns node.conns)
    (hclock : node.clock = w.node.clock + 1) (hlisted : ∃ use, FdTable use node)
    (hsafe : ∀ a ∈ w.stack, ¬ gone a.key.1 ∧ ¬ touched a.key.1) (hnd : fresh.Nodup)
    (hfresh : ∀ fd ∈ fresh, 0 ≤ fd ∧ ∀ c ∈ w.node.conns, c.fd ≠ fd) :
    FinalInv { w with node := node } where
  noFault := h.noFault
  listed := hlisted
  once := h.once
  past x hx := hclock ▸ Nat.lt_succ_of_lt (h.past x hx)
  fds := by
    obtain ⟨new, hnew, hsub⟩ := hc.fds
    refine List.Nodup.sublist hsub (nodup_append.mpr ⟨h.fds, hnd.sublist hnew, ?_⟩)
    intro fd hfd fd' hfd'
    obtain ⟨c, hcm, rfl⟩ := mem_map.mp hfd
    exact (hfresh fd' (hnew.subset hfd')).2 c hcm
  opened c' hc' := by
    rw [hclock]
    rcases hc.old c' hc' with ⟨c, hcm, hkey, -⟩ | ⟨hnow, hfd⟩
    · obtain ⟨hpos, hlt⟩ := h.opened c hcm
      obtain ⟨hfd, hopened⟩ := mk.inj hkey
      rw [← hfd, ← hopened]
      exact ⟨hpos, Nat.lt_succ_of_lt hlt⟩
    · rw [hnow]
      exact ⟨(hfresh _ hfd).1, Nat.lt_succ_self _⟩
  closed c' hc' hdone := by
    rcases hc.old c' hc' with ⟨c, hcm, hkey, hready⟩ | ⟨hnow, -⟩
    · exact hready (h.closed c hcm (hkey ▸ hdone))
    · have hlt := h.past _ hdone
      rw [NodeConn.key, hnow] at hlt
      exact absurd hlt (lt_irrefl _)
  stack := h.stack
  alive a ha := by
    obtain ⟨c, hcm, hkey, halive⟩ := h.alive a ha
    have hfd : c.fd = a.key.1 := congrArg fst hkey
    obtain ⟨hgone, htouched⟩ := hsafe a ha
    exact ⟨c, hc.keeps c hcm (hfd ▸ hgone) (hfd ▸ htouched), hkey, halive⟩

theorem FinalInv.complete {key : Int × Nat} (hnew : key ∉ w.completed)
    (hpast : key.2 < w.node.clock) (hready : ∀ c ∈ w.node.conns, c.key = key → c.state = .ready) :
    FinalInv { w with completed := key :: w.completed } :=
  { h with
    once := nodup_cons.mpr ⟨hnew, h.once⟩
    past := forall_mem_cons.mpr ⟨hpast, h.past⟩
    closed := fun c hc hmem => by
      rcases mem_cons.mp hmem with heq | hmem
      · exact hready c hc heq
      · exact h.closed c hc hmem }

theorem FinalInv.suspend (hc : c ∈ w.node.conns) (hst : c.state = .hsExchange)
    (hhs : c.hs.isSome = true) (hnew : ∀ a ∈ w.stack, a.key.1 ≠ c.fd) (id : Nat)
    (advertised : List CStr) : FinalInv { w with stack := ⟨c.key, id, advertised⟩ :: w.stack } :=
  { h with
    stack := by
      rw [map_cons, nodup_cons]
      refine ⟨fun hmem => ?_, h.stack⟩
      obtain ⟨a, ha, heq⟩ := mem_map.mp hmem
      exact hnew a ha (congrArg fst heq)
    alive := forall_mem_cons.mpr ⟨⟨c, hc, rfl, hst, hhs⟩, h.alive⟩ }

end

/-- Records list a descriptor at most once, whatever happens, as long as a connection whose
handshake is finished is not listed yet. -/
theorem listed_apply (cfg : NodeConfig) {s : NodeState P} (h : ∃ use, FdTable use s)
    (e : NodeEvent P) (hnew : ∀ fd name advertised now nowUs,
      e = .handshake fd name advertised now nowUs → ∀ p ∈ s.peers, p.hasFd fd = false) :
    ∃ use, FdTable use (nodeApply cfg s e) := by
  obtain ⟨use, htable⟩ := h
  cases e with
  | handshake fd name advertised now nowUs =>
    have hfree := hnew fd name advertised now nowUs rfl
    set use' := fun f => if f = fd then some FdUse.other else use f with huse
    have htable' : FdTable use' s := htable.congr fun p hp f _ hlist => if_neg fun heq => by
      rw [heq, NodePeer.mem_fds, hfree p hp] at hlist
      cases hlist
    refine ⟨_, fdTable_apply cfg htable' (.handshake fd name advertised now nowUs) ?_ hfree⟩
    intro a ha
    obtain ⟨c, -, rfl⟩ := map_eq_some_iff.mp ha
    rw [huse]
    simp
  | lost fd => exact ⟨use, (htable.markPeerDeadByFd fd).of_eq rfl rfl⟩
  | abort fd nowUs =>
    exact ⟨use, htable.keeps
      (eachPeer_hsAbort .refl (fun _ _ _ => .of_sublist rfl (.refl _)) fd)⟩
  | _ => exact ⟨_, fdTable_apply cfg htable _ (by rintro a ⟨⟩) trivial⟩

theorem finalCase_cases (cfg : NodeConfig) (s : NodeState P) (fd : Int) (name : CStr) :
    finalCase cfg s fd name = .ignored ∨ ∃ c, s.conn fd = some c ∧ c.state = .hsExchange ∧
      (finalCase cfg s fd name = .completes c.key ∨
        (∃ id, finalCase cfg s fd name = .suspends c.key id ∧ c.hs.isSome = true) ∨
        finalCase cfg s fd name = .aborts ∧ finishesInbound s fd = true ∧
          findPeerByName s.peers name = none ∧ nodeMaxPeers ≤ s.peers.length) := by
  obtain hc | ⟨c, hc⟩ := eq_none_or_eq_some (s.conn fd)
  · exact .inl (by simp [finalCase, hc])
  · by_cases hst : c.state = .hsExchange
    · obtain hpeer | ⟨id, hpeer⟩ := eq_none_or_eq_some (c.hs.bind HsContext.peer)
      · refine .inr ⟨c, hc, hst, ?_⟩
        simp only [finalCase, hc, hst, ne_eq, not_true_eq_false, if_false, hpeer]
        split
        · rename_i hfull
          obtain ⟨hfind, hfull⟩ := Bool.and_eq_true_iff.mp hfull
          exact .inr (.inr ⟨rfl, by simp [finishesInbound, hc, hst, hpeer],
            Option.isNone_iff_eq_none.mp hfind, of_decide_eq_true hfull⟩)
        · exact .inl rfl
      · obtain ⟨hs, hhs, -⟩ := bind_eq_some_iff.mp hpeer
        simp only [finalCase, hc, hst, ne_eq, not_true_eq_false, if_false, hpeer]
        split
        · exact .inl rfl
        refine .inr ⟨c, rfl, hst, ?_⟩
        split
        · exact .inl rfl
        · exact .inr (.inl ⟨id, rfl, by rw [hhs]; rfl⟩)
    · exact .inl (by simp [finalCase, hc, hst])

theorem FinalInv.handshake (h : FinalInv w) (cfg : NodeConfig) (fd : Int) (name : CStr)
    (advertised : List CStr) (now nowUs : Nat)
    (hsafe : FinalSafe w (.node (.handshake fd name advertised now nowUs))) :
    FinalInv (finalStep cfg w (.node (.handshake fd name advertised now nowUs))) := by
  obtain ⟨hidle, hfree, hroom, hkept⟩ := hsafe
  have hconns := conns_finalizeHandshake w.node cfg fd name advertised now nowUs
  have hlisted : ∃ use, FdTable use
      (nodeStep cfg w.node (.handshake fd name advertised now nowUs)) := by
    obtain ⟨use, htable⟩ := listed_apply cfg h.listed (.handshake fd name advertised now nowUs)
      (by rintro _ _ _ _ _ ⟨⟩; exact hfree)
    exact ⟨use, htable.of_eq rfl rfl⟩
  have hstep (gone : Int → Prop) (hgone : ∀ a ∈ w.stack, ¬ gone a.key.1)
      (hc : ConnsChange w.node.clock gone (· = fd) [] w.node.conns
        (finalizeHandshake cfg w.node fd name advertised now nowUs).conns) :
      FinalInv { w with node := nodeStep cfg w.node (.handshake fd name advertised now nowUs) } :=
    h.change hc rfl hlisted (fun a ha => ⟨hgone a ha, hidle a ha⟩) nodup_nil
      (by rintro x ⟨⟩)
  rw [finalStep]
  rcases finalCase_cases cfg w.node fd name with hcase | ⟨c, hc, hst, hcase⟩
  · rw [hcase] at hconns ⊢
    have hsame : _ = w.node.conns := congrArg conns hconns
    exact hstep (fun _ => False) (fun _ _ hno => hno) (hsame ▸ .refl _)
  · obtain ⟨hmem, hfd⟩ := conn_mem hc
    rcases hcase with hcase | ⟨id, hcase, hhs⟩ | ⟨-, hin, hfind, hfull⟩
    · rw [hcase] at hconns ⊢
      obtain ⟨fds, hconns, hgone⟩ := hconns
      have hclose : ConnsChange w.node.clock (· ∈ fds) (· = fd) [] w.node.conns
          (w.node.closeFds fds).conns :=
        .filter fun c' _ hq => not_not.mp (of_decide_eq_false hq)
      have hdone := hstep (· ∈ fds) (fun a ha hin => ?_) (hconns ▸ hclose.trans (.connReady rfl))
      · refine hdone.complete (h.not_completed hmem hst) ?_ fun c' hc' hkey => ?_
        · exact Nat.lt_succ_of_lt (h.opened c hmem).2
        · exact ready_of_mem_connReady (hconns ▸ hc') ((congrArg fst hkey).trans hfd)
      · obtain ⟨id, hin⟩ := hgone _ hin
        exact hkept _ hin a ha rfl
    · rw [hcase] at hconns ⊢
      have hsame := hstep (fun _ => False) (fun _ _ hno => hno) (hconns ▸ .refl _)
      refine .suspend hsame ?_ hst hhs (hfd ▸ hidle) id advertised
      exact hconns ▸ hmem
    · exact absurd (hroom hin hfind) (not_lt.mpr hfull)

/-- The connection of the innermost suspended call is in the exchange, is the only one with
its number, and becomes READY. -/
theorem FinalInv.resume (h : FinalInv w) (cfg : NodeConfig) (now : Nat) :
    FinalInv (finalStep cfg w (.resume now)) := by
  rw [finalStep]
  rcases hcons : w.stack with _ | ⟨a, rest⟩
  · exact h
  · obtain ⟨c, hc, hkey, hst, hhs⟩ := h.alive a (hcons ▸ mem_cons_self)
    have hstack := h.stack
    rw [hcons, map_cons, nodup_cons] at hstack
    have hfind : w.node.conns.find? (fun c => decide (c.key = a.key)) = some c :=
      h.find_eq hc (decide_eq_true hkey) fun d hd =>
        congrArg fst ((of_decide_eq_true hd).trans hkey.symm)
    have hconns := conns_finishOutbound w.node cfg a.key.1 a.peer now a.advertised
    have hrest : FinalInv { w with stack := rest } :=
      { h with
        stack := hstack.2
        alive := fun b hb => h.alive b (hcons ▸ mem_cons_of_mem a hb) }
    have hother : ∀ b ∈ rest, b.key.1 ≠ a.key.1 := by
      intro b hb heq
      obtain ⟨d, hd, hkeyd, -⟩ := hrest.alive b hb
      have hsame : d = c := h.conn_eq hd hc
        ((congrArg fst hkeyd).trans (heq.trans (congrArg fst hkey).symm))
      apply hstack.1
      rw [← hkey, ← hsame, hkeyd]
      exact mem_map_of_mem hb
    have hlisted : ∃ use, FdTable use
        (nodeStep cfg w.node (.exchangeEnd a.key.1 a.peer a.advertised now)) := by
      obtain ⟨use, htable⟩ := listed_apply cfg h.listed
        (.exchangeEnd a.key.1 a.peer a.advertised now) (by rintro _ _ _ _ _ ⟨⟩)
      exact ⟨use, htable.of_eq rfl rfl⟩
    have hchange : ConnsChange w.node.clock (fun _ => False) (· = a.key.1) [] w.node.conns
        (nodeStep cfg w.node (.exchangeEnd a.key.1 a.peer a.advertised now)).conns := by
      exact hconns ▸ .connReady rfl
    have hready := hrest.change hchange rfl hlisted
      (fun b hb => ⟨fun hno => hno, hother b hb⟩) nodup_nil (by rintro x ⟨⟩)
    have hdone := hready.complete (hkey ▸ h.not_completed hc hst)
      (hkey ▸ Nat.lt_succ_of_lt (h.opened c hc).2)
      fun c' hc' hkey' => ready_of_mem_connReady (hconns ▸ hc') (congrArg fst hkey')
    simp only [hfind]
    refine { hdone with noFault := ?_ }
    obtain ⟨x, hx⟩ := isSome_iff_exists.mp hhs
    simp [h.noFault, hx]

theorem finalInv_nodeEvent (cfg : NodeConfig) (h : FinalInv w) (e : NodeEvent P)
    (hfinal : ∀ fd name advertised now nowUs, e ≠ .handshake fd name advertised now nowUs)
    (hend : ∀ fd id advertised now, e ≠ .exchangeEnd fd id advertised now)
    (hnd : (opened w.node e).Nodup)
    (hfresh : ∀ fd ∈ opened w.node e, 0 ≤ fd ∧ ∀ a ∈ w.stack, a.key.1 ≠ fd)
    (hstay : ∀ a ∈ w.stack, ¬ Advances e a.key.1)
    (hsafe : ∀ fd ∈ closes w.node e, ∀ a ∈ w.stack, a.key.1 ≠ fd) :
    FinalInv { w with node := nodeStep cfg (w.node.closeFds (opened w.node e)) e } := by
  have hclosed : FinalInv { w with node := w.node.closeFds (opened w.node e) } := h.closeFds
    fun a ha hin => (hfresh a.key.1 hin).2 a ha rfl
  obtain ⟨use, htable⟩ := listed_apply cfg hclosed.listed e
    fun fd name advertised now nowUs heq => absurd heq (hfinal fd name advertised now nowUs)
  have hopened : opened (w.node.closeFds (opened w.node e)) e = opened w.node e := by
    cases e <;> rfl
  have hcloses : closes (w.node.closeFds (opened w.node e)) e = closes w.node e := by
    cases e with
    | handshake fd name advertised now nowUs =>
      exact absurd rfl (hfinal fd name advertised now nowUs)
    | _ => rfl
  have hc := connsChange_apply cfg (w.node.closeFds (opened w.node e)) e
    (fun c hc => (hclosed.opened c hc).1) hfinal hend
  rw [hopened, hcloses] at hc
  refine hclosed.change hc rfl ⟨use, htable.of_eq rfl rfl⟩ (fun a ha => ⟨fun hin => ?_, hstay a ha⟩)
    hnd fun fd hin => ⟨(hfresh fd hin).1, fun c hc heq => ?_⟩
  · exact hsafe _ hin a ha rfl
  · exact of_decide_eq_true (mem_filter.mp hc).2 (heq ▸ hin)

theorem finalInv_step (cfg : NodeConfig) (h : FinalInv w) (e : FinalEvent P)
    (hfair : FinalFair w e) (hsafe : FinalSafe w e) : FinalInv (finalStep cfg w e) := by
  cases e with
  | resume now => exact h.resume cfg now
  | node e =>
    cases e with
    | handshake fd name advertised now nowUs =>
      exact h.handshake cfg fd name advertised now nowUs hsafe
    | exchangeEnd fd id advertised now => exact h
    | advance fd state =>
      refine finalInv_nodeEvent cfg h (.advance fd state) (by rintro _ _ _ _ _ ⟨⟩)
        (by rintro _ _ _ _ ⟨⟩) nodup_nil (by rintro x ⟨⟩) (fun a ha heq => ?_) hsafe
      -- a suspended connection is in the exchange already
      obtain ⟨c, hc, hkey, hst, -⟩ := h.alive a ha
      have hfd : c.fd = fd := (congrArg fst hkey).trans heq
      exact hfair c (h.find_eq hc (decide_eq_true hfd) fun d hd =>
        (of_decide_eq_true hd).trans hfd.symm) hst
    | _ =>
      exact finalInv_nodeEvent cfg h _ (by rintro _ _ _ _ _ ⟨⟩) (by rintro _ _ _ _ ⟨⟩)
        hfair.1 hfair.2 (fun _ _ hno => hno) hsafe

end Invariant

/-- As long as nothing happens to a connection while its finalisation is suspended, and a new name
finds room, no connection is finalised twice. -/
theorem one_finalisation (cfg : NodeConfig) (tree : PortalPathTree) (auth : PortalAuthRegistry)
    (es : List (FinalEvent P))
    (hfair : Along (finalStep cfg) FinalFair (Finals.initial tree auth) es)
    (hsafe : Along (finalStep cfg) FinalSafe (Finals.initial tree auth) es) :
    OneFinalisation (run (finalStep cfg) (Finals.initial tree auth) es) :=
  FinalInv.oneFinalisation (Along.invariant
    (fun (w : Finals P) e (hinv : FinalInv w) hc => finalInv_step cfg hinv e hc.1 hc.2)
    (finalInv_initial tree auth) (hfair.and hsafe))

/-! ### The key on its way -/

section Reentered

def outboundEvents : List (FinalEvent Unit) :=
  [.node (.connect (.lit "edge") (.lit "host") [(7, ())] 0), .node (.advance 7 .hsExchange),
    .node (.handshake 7 (.lit "edge") [] 1 0)]

/-- The connection is writable, the key goes out, and its half of the handshake is done as
before; then the answer comes. -/
def reenteredEvents : List (FinalEvent Unit) :=
  outboundEvents ++ [.node (.handshake 7 (.lit "edge") [] 1 0), .resume 1]

def keyedConfig : NodeConfig := { sharedConfig with outboundKey := fun _ => .lit "key" }

def finalsAfter (cfg : NodeConfig) (es : List (FinalEvent Unit)) : Finals Unit :=
  run (finalStep cfg) (Finals.initial portalPathInit sharedAuth) es

theorem fair_outboundEvents :
    Along (finalStep keyedConfig) FinalFair (Finals.initial portalPathInit sharedAuth)
      outboundEvents := by
  refine ⟨⟨by decide +kernel, by decide +kernel⟩, ?_, ⟨nodup_nil, by rintro fd ⟨⟩⟩, trivial⟩
  intro c hc
  cases hc
  decide

/-- The key is sent, the answer comes, and nothing happens in between. -/
theorem one_finalisation_exchange :
    (finalsAfter keyedConfig outboundEvents).stack.length = 1 ∧
      (finalsAfter keyedConfig (outboundEvents ++ [.resume 1])).completed = [(7, 1)] ∧
      OneFinalisation (finalsAfter keyedConfig (outboundEvents ++ [.resume 1])) := by
  refine ⟨by decide +kernel, by decide +kernel, one_finalisation keyedConfig portalPathInit
    sharedAuth _ ((along_append ..).mpr ⟨fair_outboundEvents, trivial, trivial⟩)
    ⟨?_, ?_, ?_, trivial, trivial⟩⟩
  · rintro fd ⟨⟩
  · rintro fd ⟨⟩
  · exact ⟨by decide +kernel, by decide +kernel, by decide +kernel, by decide +kernel⟩

/-- In a fair run with a key the connection is finalised and listed twice, and the first call goes
on with the context that the second one has freed. -/
theorem one_finalisation_false :
    Along (finalStep keyedConfig) FinalFair (Finals.initial portalPathInit sharedAuth)
        reenteredEvents ∧
      (finalsAfter keyedConfig reenteredEvents).completed = [(7, 1), (7, 1)] ∧
      (finalsAfter keyedConfig reenteredEvents).node.peers.map (fun p => p.workers.map Worker.fd) =
        [[7, 7]] ∧
      (finalsAfter keyedConfig reenteredEvents).fault = true ∧
      ¬ OneFinalisation (finalsAfter keyedConfig reenteredEvents) := by
  have hfault : (finalsAfter keyedConfig reenteredEvents).fault = true := by decide +kernel
  refine ⟨(along_append ..).mpr ⟨fair_outboundEvents, ⟨nodup_nil, by rintro fd ⟨⟩⟩, trivial,
    trivial⟩, by decide +kernel, by decide +kernel, hfault, fun h => ?_⟩
  rw [h.noFault] at hfault
  cases hfault

end Reentered

end Portal
