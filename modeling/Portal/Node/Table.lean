import Portal.Node.Identity

/-!
What the functions of the peer table do to its records. `EachPeer R s s'` says that the records of
`s'` stand where those of `s` stood, each `R`-related to its predecessor; a function that changes
records in place has a lemma that says which changes those are. What is left are the functions that
add a record (`append_cases`) or remove one (`removeAt_peers`).
-/

namespace Portal

open List Option

variable {P : Type}

/-- The records stay in their places, and each is `R`-related to what it was. -/
structure EachPeer (R : NodePeer → NodePeer → Prop) (s s' : NodeState P) : Prop where
  nextId : s'.nextId = s.nextId
  length : s'.peers.length = s.peers.length
  peer : ∀ (i : Nat) p', s'.peers[i]? = some p' → ∃ p, s.peers[i]? = some p ∧ R p p'

section InPlace

variable {R : NodePeer → NodePeer → Prop} {s s' t : NodeState P}

theorem EachPeer.of_eq (hrefl : ∀ p, R p p) (hp : s'.peers = s.peers)
    (hid : s'.nextId = s.nextId) : EachPeer R s s' :=
  ⟨hid, by rw [hp], fun _ p' h => ⟨p', hp ▸ h, hrefl p'⟩⟩

theorem EachPeer.trans (htrans : ∀ p q r, R p q → R q r → R p r) (h : EachPeer R s t)
    (h' : EachPeer R t s') : EachPeer R s s' where
  nextId := h'.nextId.trans h.nextId
  length := h'.length.trans h.length
  peer i r hr := by
    obtain ⟨q, hq, hqr⟩ := h'.peer i r hr
    obtain ⟨p, hp, hpq⟩ := h.peer i q hq
    exact ⟨p, hp, htrans p q r hpq hqr⟩

theorem EachPeer.congr_left (h : EachPeer R t s') (hp : t.peers = s.peers)
    (hid : t.nextId = s.nextId) : EachPeer R s s' :=
  ⟨h.nextId.trans hid, h.length.trans (by rw [hp]), fun i p' hp' => hp ▸ h.peer i p' hp'⟩

theorem EachPeer.mem (h : EachPeer R s s') {p' : NodePeer} (hp' : p' ∈ s'.peers) :
    ∃ p ∈ s.peers, R p p' := by
  obtain ⟨i, hi⟩ := mem_iff_getElem?.mp hp'
  obtain ⟨p, hp, hr⟩ := h.peer i p' hi
  exact ⟨p, mem_of_getElem? hp, hr⟩

theorem EachPeer.forward (h : EachPeer R s s') {i : Nat} {p : NodePeer}
    (hp : s.peers[i]? = some p) : ∃ p', s'.peers[i]? = some p' ∧ R p p' := by
  have hlt : i < s'.peers.length := h.length ▸ (List.getElem?_eq_some_iff.mp hp).1
  obtain ⟨q, hq, hr⟩ := h.peer i _ (getElem?_eq_getElem hlt)
  rw [hp] at hq
  cases hq
  exact ⟨_, getElem?_eq_getElem hlt, hr⟩

theorem EachPeer.map_eq {α : Type} (he : EachPeer R s s') {f : NodePeer → α}
    (hf : ∀ p p', R p p' → f p' = f p) : s'.peers.map f = s.peers.map f := by
  apply ext_getElem?
  intro i
  rw [getElem?_map, getElem?_map]
  cases hp' : s'.peers[i]? with
  | none =>
    have hlen := he.length ▸ getElem?_eq_none_iff.mp hp'
    rw [getElem?_eq_none hlen]
  | some p' =>
    obtain ⟨p, hp, hr⟩ := he.peer i p' hp'
    rw [hp, map_some, map_some, hf p p' hr]

section

variable (hrefl : ∀ p, R p p)

include hrefl

theorem eachPeer_updPeer {id : Nat} {f : NodePeer → NodePeer}
    (hf : ∀ p ∈ s.peers, p.id = id → R p (f p)) : EachPeer R s (s.updPeer id f) where
  nextId := rfl
  length := length_map _
  peer i p' h := by
    obtain ⟨p, hp, rfl⟩ := map_eq_some_iff.mp (getElem?_map .. ▸ h)
    refine ⟨p, hp, ?_⟩
    split
    · exact hf p (mem_of_getElem? hp) ‹_›
    · exact hrefl p

theorem eachPeer_losePeerAt (hlose : ∀ p ∈ s.peers, R p (p.lose s.clock))
    (i : Nat) : EachPeer R s (s.losePeerAt i) where
  nextId := rfl
  length := length_mapIdx
  peer k p' h := by
    obtain ⟨p, hp, rfl⟩ := map_eq_some_iff.mp (getElem?_mapIdx .. ▸ h)
    refine ⟨p, hp, ?_⟩
    split
    · exact hlose p (mem_of_getElem? hp)
    · exact hrefl p

theorem eachPeer_modify {f : NodePeer → NodePeer}
    (hf : ∀ p ∈ s.peers, R p (f p)) (i : Nat) (hp : s'.peers = s.peers.modify i f)
    (hid : s'.nextId = s.nextId) : EachPeer R s s' where
  nextId := hid
  length := by rw [hp, length_modify]
  peer k p' h := by
    rw [hp, getElem?_modify] at h
    obtain ⟨p, hpk, heq⟩ := map_eq_some_iff.mp h
    refine ⟨p, hpk, ?_⟩
    split at heq
    · exact heq ▸ hf p (mem_of_getElem? hpk)
    · exact heq ▸ hrefl p

/-- A lost connection: the record at its end and those behind it lose all, or a record
loses a worker. -/
theorem eachPeer_markPeerDeadByFd (hlose : ∀ p ∈ s.peers, R p (p.lose s.clock)) {fd : Int}
    (hdrop : ∀ p ∈ s.peers, R p (p.dropWorker fd s.clock)) :
    EachPeer R s (markPeerDeadByFd s fd) := by
  rw [markPeerDeadByFd]
  split
  · exact .of_eq hrefl rfl rfl
  split
  · exact .of_eq hrefl rfl rfl
  split
  · split
    · exact .of_eq hrefl rfl rfl
    · exact eachPeer_losePeerAt hrefl hlose _
  · exact eachPeer_modify hrefl hdrop _ rfl rfl

theorem eachPeer_hsAbort {nowUs : Nat}
    (hback : ∀ p ∈ s.peers, p.ready = false → R p (p.backOff s.clock nowUs)) (fd : Int) :
    EachPeer R s (hsAbort s fd nowUs) := by
  rw [hsAbort]
  split
  · exact .of_eq hrefl rfl rfl
  refine .congr_left (eachPeer_updPeer hrefl fun p hp _ => ?_) rfl rfl
  split
  · rename_i hcond
    exact hback p hp (of_decide_eq_true (Bool.and_eq_true_iff.mp hcond).1)
  · exact hrefl p

theorem eachPeer_getWorker (hlend : ∀ p i n, R p { p with
      workers := p.workers.modify i fun w => { w with busy := 1 }, nextWorker := n })
    (hdead : ∀ p ∈ s.peers, R p (p.markDead s.clock)) (id : Nat) :
    EachPeer R s (getWorker s id) := by
  rw [getWorker]
  split
  · exact .of_eq hrefl rfl rfl
  split
  · exact eachPeer_updPeer hrefl fun p _ _ => hlend p _ _
  · split
    · exact .of_eq hrefl rfl rfl
    · exact eachPeer_updPeer hrefl fun p hp _ => hdead p hp

theorem eachPeer_burnWorker {i : Nat} (hburn : ∀ p, R p { p with
      workers := p.workers.modify i fun w => { w with fd := -1, busy := 0 } }) (id : Nat) :
    EachPeer R s (burnWorker s id i) :=
  eachPeer_updPeer hrefl fun p _ _ => hburn p

end

theorem peers_recordExchange (s : NodeState P) (fd : Int) (user : CStr) :
    (s.recordExchange fd user).peers = s.peers ∧ (s.recordExchange fd user).nextId = s.nextId := by
  rw [NodeState.recordExchange]
  split
  · exact ⟨rfl, rfl⟩
  · exact ⟨rfl, rfl⟩

section

variable (hrefl : ∀ p, R p p) (hident : ∀ p user, R p (p.setIdentity user))

include hrefl hident

theorem eachPeer_setIdentity (fd : Int) (id : Nat) (user : CStr × PortalLabels) :
    EachPeer R s ((s.recordExchange fd user.1).updPeer id fun p => p.setIdentity user) := by
  obtain ⟨hpeers, hid⟩ := peers_recordExchange s fd user.1
  exact (eachPeer_updPeer hrefl fun p _ _ => hident p user).congr_left hpeers hid

theorem eachPeer_exchangeReply (id : Nat) (fd : Int) (body : Bytes) :
    EachPeer R s (exchangeReply s id fd body) := by
  rw [exchangeReply]
  split
  · exact .of_eq hrefl rfl rfl
  · exact eachPeer_setIdentity hrefl hident fd id _

theorem eachPeer_identityProof (fd : Int) (claimedKey : CharPtr) :
    EachPeer R s (identityProof s fd claimedKey) := by
  rw [identityProof]
  split
  · split
    · exact .of_eq hrefl rfl rfl
    · split
      · exact .of_eq hrefl rfl rfl
      · split
        · exact .of_eq hrefl rfl rfl
        · exact eachPeer_setIdentity hrefl hident fd _ _
  · exact .of_eq hrefl rfl rfl

end

end InPlace

/-- Two places of the table that agree on a field no two records share are one place. -/
theorem index_eq_of_nodup_map {α : Type} {f : NodePeer → α} {peers : List NodePeer}
    (h : (peers.map f).Nodup) {j k : Nat} {p q : NodePeer} (hp : peers[j]? = some p)
    (hq : peers[k]? = some q) (heq : f p = f q) : j = k := by
  obtain ⟨hj, -⟩ := List.getElem?_eq_some_iff.mp hp
  refine (List.getElem?_inj (by rwa [length_map]) h).mp ?_
  rw [getElem?_map, getElem?_map, hp, hq, map_some, map_some, heq]

section Table

variable {s : NodeState P}

theorem append_cases (s : NodeState P) (mk : Nat → NodePeer) :
    (s.append mk).peers = s.peers ++ [mk s.nextId] ∧ (s.append mk).nextId = s.nextId + 1 ∨
      s.append mk = s := by
  rw [NodeState.append]
  split
  · exact .inl ⟨rfl, rfl⟩
  · exact .inr rfl

theorem fresh_append {mk : Nat → NodePeer} (hid : ∀ id, (mk id).id = id)
    (hfresh : ∀ p ∈ s.peers, p.id < s.nextId) : ∀ p ∈ (s.append mk).peers,
      p.id < (s.append mk).nextId := by
  rcases append_cases s mk with ⟨-, hnext⟩ | heq
  · intro p hp
    rw [hnext]
    rcases NodeState.mem_append hp with hp | rfl
    · exact Nat.lt_succ_of_lt (hfresh p hp)
    · rw [hid]
      exact Nat.lt_succ_self _
  · rwa [heq]

theorem nodup_append_map {mk : Nat → NodePeer} {α : Type} (f : NodePeer → α)
    (hf : (s.peers.map f).Nodup) (hnew : ∀ p ∈ s.peers, f p ≠ f (mk s.nextId)) :
    ((s.append mk).peers.map f).Nodup := by
  rcases append_cases s mk with ⟨hpeers, -⟩ | heq
  · rw [hpeers, map_append, map_singleton]
    refine hf.append (nodup_singleton _) (disjoint_singleton.mpr ?_)
    intro hmem
    obtain ⟨p, hp, heq⟩ := mem_map.mp hmem
    exact hnew p hp heq
  · rwa [heq]

theorem nodup_append_ids {mk : Nat → NodePeer} (hid : ∀ id, (mk id).id = id)
    (hfresh : ∀ p ∈ s.peers, p.id < s.nextId) (h : (s.peers.map NodePeer.id).Nodup) :
    ((s.append mk).peers.map NodePeer.id).Nodup := by
  refine nodup_append_map NodePeer.id h fun p hp => ?_
  rw [hid]
  exact Nat.ne_of_lt (hfresh p hp)

theorem append_tree (s : NodeState P) (mk : Nat → NodePeer) : (s.append mk).tree = s.tree := by
  rw [NodeState.append]
  split <;> rfl

/-- Where a record stands after the one at `i` is removed. -/
def renumber (i k : Nat) : Nat := if i < k then k - 1 else k

def NodePeer.moved (i : Nat) (p : NodePeer) : NodePeer :=
  if p.isIndirect && i < p.hubIdx then { p with hubIdx := p.hubIdx - 1 } else p

theorem removeAt_peers {i : Nat} (h : i < s.peers.length) :
    (s.removeAt i).peers = (s.peers.eraseIdx i).map (NodePeer.moved i) := by
  rw [NodeState.removeAt, if_pos h]
  rfl

@[simp] theorem removeAt_nextId (s : NodeState P) (i : Nat) :
    (s.removeAt i).nextId = s.nextId := by
  rw [NodeState.removeAt]
  split
  · rfl
  · rfl

theorem getElem?_eraseIdx_renumber {α : Type} {l : List α} {i k : Nat} (h : k ≠ i) :
    (l.eraseIdx i)[renumber i k]? = l[k]? := by
  rw [getElem?_eraseIdx, renumber]
  split
  · rw [if_neg (by omega), Nat.sub_add_cancel (by omega)]
  · rw [if_pos (by omega)]

theorem getElem?_removeAt {i k : Nat} (hi : i < s.peers.length) (h : k ≠ i) :
    (s.removeAt i).peers[renumber i k]? = (s.peers[k]?).map (NodePeer.moved i) := by
  rw [removeAt_peers hi, getElem?_map, getElem?_eraseIdx_renumber h]

theorem mem_removeAt {i : Nat} (hi : i < s.peers.length) {p' : NodePeer}
    (h : p' ∈ (s.removeAt i).peers) : ∃ p ∈ s.peers, p' = p.moved i := by
  rw [removeAt_peers hi] at h
  obtain ⟨p, hp, rfl⟩ := mem_map.mp h
  exact ⟨p, mem_of_mem_eraseIdx hp, rfl⟩

theorem map_removeAt {i : Nat} (hi : i < s.peers.length) {α : Type} {f : NodePeer → α}
    (hf : ∀ q : NodePeer, f (q.moved i) = f q) :
    (s.removeAt i).peers.map f = (s.peers.map f).eraseIdx i := by
  rw [removeAt_peers hi, List.map_map, eraseIdx_map]
  exact congrArg (fun g => (s.peers.eraseIdx i).map g) (funext hf)

theorem getElem?_of_mem_removeAt {i : Nat} (hi : i < s.peers.length) {p' : NodePeer}
    (h : p' ∈ (s.removeAt i).peers) :
    ∃ (k : Nat) (p : NodePeer), k ≠ i ∧ s.peers[k]? = some p ∧ p' = p.moved i := by
  rw [removeAt_peers hi] at h
  obtain ⟨p, hp, rfl⟩ := mem_map.mp h
  obtain ⟨k, hki, hk⟩ := mem_eraseIdx_iff_getElem?.mp hp
  exact ⟨k, p, hki, hk, rfl⟩

variable (p : NodePeer) (i : Nat)

@[simp] theorem NodePeer.moved_id : (p.moved i).id = p.id := by
  rw [NodePeer.moved]
  split <;> rfl

@[simp] theorem NodePeer.moved_isIndirect : (p.moved i).isIndirect = p.isIndirect := by
  rw [NodePeer.moved]
  split <;> rfl

@[simp] theorem NodePeer.moved_workers : (p.moved i).workers = p.workers := by
  rw [NodePeer.moved]
  split <;> rfl

@[simp] theorem NodePeer.moved_ctrlFd : (p.moved i).ctrlFd = p.ctrlFd := by
  rw [NodePeer.moved]
  split <;> rfl

theorem NodePeer.moved_hubIdx (h : p.isIndirect = true) :
    (p.moved i).hubIdx = renumber i p.hubIdx := by
  rw [NodePeer.moved, renumber, h]
  by_cases hlt : i < p.hubIdx <;> simp [hlt]

end Table

end Portal
