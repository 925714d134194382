import Mathlib.Data.List.NodupEquivFin
import Portal.Node.Announced

/-!
The workers of one peer (`modules/mod_node/mod_node.c`): `get_worker` hands out a connection for
exclusive use, `release_worker` takes it back, and `peer_send_wait` queues requests on the others.
A worker that is handed out is marked `busy` and taken out of the event loop; its `rx_state_t`
stays in `g_rx_by_fd`, which is where `peer_send_wait` looks.
-/

namespace Portal

open List Runs Option Function NodePeer

/-- `rx_state_t` in the state READY: the session it reads and writes through, and what is
queued on it. -/
structure RxConn (S : Type) where
  ssl : Option S
  tx : Bytes
  pendingCount : Nat
deriving DecidableEq

def RxConn.new {S : Type} (ssl : Option S) : RxConn S := ⟨ssl, [], 0⟩

/-- A peer, `g_rx_by_fd`, the descriptors in the event loop, and the workers that were handed out
and did not come back. -/
structure Pool (S : Type) where
  peer : NodePeer
  rx : Int → Option (RxConn S)
  watched : Int → Bool
  lent : List Nat

def Pool.initial {S : Type} (name : CStr) (ctrlFd : Int) (ssl : Option S) : Pool S where
  peer := { NodePeer.fresh 0 name with ctrlFd, ready := decide (0 ≤ ctrlFd) }
  rx fd := if 0 ≤ fd ∧ fd = ctrlFd then some (.new ssl) else none
  watched fd := decide (0 ≤ fd ∧ fd = ctrlFd)
  lent := []

variable {S : Type}

/-! ### Functions -/

/-- A connection whose handshake is finished. The system does not hand out a number that is
in use. -/
def Pool.attach (s : Pool S) (fd : Int) (ssl : Option S) : Pool S :=
  if 0 ≤ fd ∧ s.peer.hasFd fd = false then
    { s with
      peer := { s.peer.addWorker fd with ready := true, dead := false }
      rx := Function.update s.rx fd (some (.new ssl))
      watched := Function.update s.watched fd true }
  else s

def NodePeer.lend (p : NodePeer) (now : Nat) : NodePeer :=
  match usableWorker p with
  | some i =>
    { p with
      workers := p.workers.modify i fun w => { w with busy := 1 }
      nextWorker := (i + 1) % p.workers.length }
  | none =>
    if (p.workers.any fun w => decide (0 ≤ w.fd)) || p.dead then p else p.markDead now

/-- `get_worker`: `fd_del` takes the descriptor out of the event loop. -/
def Pool.getWorker (s : Pool S) (now : Nat) : Pool S :=
  { s with
    peer := s.peer.lend now
    watched := fun fd => s.watched fd &&
      !((usableWorker s.peer).bind fun i => s.peer.workers[i]?).any fun w => w.fd = fd
    lent := (usableWorker s.peer).toList ++ s.lent }

/-- `node_fd_add_with_rx`; what was registered for the descriptor is freed. Without success of
`fd_add` nothing stays registered. -/
def Pool.nodeFdAddWithRx (s : Pool S) (fd : Int) (added : Bool) : Pool S :=
  { s with
    rx := Function.update s.rx fd (if added then some (.new none) else none)
    watched := Function.update s.watched fd added }

def Pool.setBusy (s : Pool S) (i busy : Nat) : Pool S :=
  { s with peer := { s.peer with workers := s.peer.workers.modify i fun w => { w with busy } } }

def Pool.releaseWorker (s : Pool S) (i : Nat) (added : Bool) : Pool S :=
  match s.peer.workers[i]? with
  | none => s
  | some w =>
    { (s.setBusy i 0).nodeFdAddWithRx w.fd added with lent := s.lent.filter fun k => k ≠ i }

/-- The first worker in round-robin order that is connected, not in pipe mode, and has an
`rx_state_t`. -/
def Pool.sendSlot (s : Pool S) : Option Nat :=
  let n := s.peer.workers.length
  ((List.range n).map fun k => (s.peer.nextWorker + k) % n).find? fun i =>
    (s.peer.workers[i]?).any fun w => decide (0 ≤ w.fd) && w.busy ≠ 2 && (s.rx w.fd).isSome

def Pool.sendFd (s : Pool S) : Option Int :=
  match s.sendSlot with
  | some i => (s.peer.workers[i]?).map Worker.fd
  | none => if 0 ≤ s.peer.ctrlFd ∧ (s.rx s.peer.ctrlFd).isSome then some s.peer.ctrlFd else none

def RxConn.queue (r : RxConn S) (wire : Bytes) : RxConn S :=
  { r with tx := r.tx ++ wire, pendingCount := r.pendingCount + 1 }

/-- The peer is past the first check of `peer_send_wait`. -/
def Pool.Sends (s : Pool S) : Prop := s.peer.ready = true ∧ s.peer.dead = false

instance (s : Pool S) : Decidable s.Sends :=
  inferInstanceAs (Decidable (s.peer.ready = true ∧ s.peer.dead = false))

/-- `peer_send_wait` up to the wait; `wire` is the encoded message, if it could be encoded. -/
def Pool.peerSendWait (s : Pool S) (wire : Option Bytes) : Pool S :=
  if s.Sends then
    match s.sendFd with
    | none => s
    | some fd =>
      { s with
        peer := { s.peer with
          nextWorker := (s.sendSlot.map fun i => (i + 1) % s.peer.workers.length).getD
            s.peer.nextWorker }
        rx := match wire with
          | none => s.rx
          | some wire => Function.update s.rx fd ((s.rx fd).map fun r => r.queue wire) }
  else s

inductive PoolEvent (S : Type) where
  | attach (fd : Int) (ssl : Option S)
  | get (now : Nat)
  | release (i : Nat) (added : Bool)
  | send (wire : Option Bytes)
  | pipe (i : Nat)      -- the worker that was handed out carries raw bytes from now on
  | burn (i : Nat)      -- the thread that used it has closed it

/-- Workers are released, and used otherwise, by those they were handed out to. -/
def poolStep (s : Pool S) : PoolEvent S → Pool S
  | .attach fd ssl => s.attach fd ssl
  | .get now => s.getWorker now
  | .release i added => if i ∈ s.lent then s.releaseWorker i added else s
  | .send wire => s.peerSendWait wire
  | .pipe i => if i ∈ s.lent then s.setBusy i 2 else s
  | .burn i =>
    if i ∈ s.lent then
      { s with
        peer := { s.peer with
          workers := s.peer.workers.modify i fun w => { w with fd := -1, busy := 0 } }
        lent := s.lent.filter fun k => k ≠ i }
    else s

/-- A request is not queued on a worker that is handed out; one that comes back is in the event
loop again, with the session it had. -/
def Exclusive (s : Pool S) : PoolEvent S → Prop
  | .send wire => ∀ i ∈ s.lent, ∀ w, s.peer.workers[i]? = some w →
      (s.peerSendWait wire).rx w.fd = s.rx w.fd
  | .release i added => i ∈ s.lent → ∀ w r, s.peer.workers[i]? = some w → s.rx w.fd = some r →
      (s.releaseWorker i added).watched w.fd = true ∧
        ∃ r', (s.releaseWorker i added).rx w.fd = some r' ∧ r'.ssl = r.ssl
  | _ => True

/-- When a request is sent, the worker whose turn it is has not been handed out. One that comes
back uses no TLS, and can be registered again. -/
def IdleInTurn (s : Pool S) : PoolEvent S → Prop
  | .send (some _) => s.Sends → ∀ i w, s.sendSlot = some i → s.peer.workers[i]? = some w →
      w.busy = 0
  | .release i added => i ∈ s.lent → ∀ w r, s.peer.workers[i]? = some w → s.rx w.fd = some r →
      added = true ∧ r.ssl = none
  | _ => True

/-! ### The invariant -/

/-- No descriptor is listed twice, and the workers that are handed out are the busy ones. -/
structure PoolInv (s : Pool S) : Prop where
  once : ∀ fd, 0 ≤ fd → s.peer.fds.count fd ≤ 1
  lent : ∀ i, i ∈ s.lent ↔ ∃ w, s.peer.workers[i]? = some w ∧ w.busy ≠ 0

theorem poolInv_initial (name : CStr) (ctrlFd : Int) (ssl : Option S) :
    PoolInv (Pool.initial name ctrlFd ssl) where
  once _ _ := count_le_length
  lent i := by simp [Pool.initial, fresh]

section Steps

variable {s : Pool S} {i : Nat}

theorem PoolInv.modify (h : PoolInv s) {f : Worker → Worker} {s' : Pool S}
    (hworkers : s'.peer.workers = s.peer.workers.modify i f)
    (honce : ∀ fd, 0 ≤ fd → s'.peer.fds.count fd ≤ s.peer.fds.count fd)
    (hlent : ∀ w, s.peer.workers[i]? = some w → (i ∈ s'.lent ↔ (f w).busy ≠ 0))
    (hothers : ∀ k, k ≠ i → (k ∈ s'.lent ↔ k ∈ s.lent)) (hi : i < s.peer.workers.length) :
    PoolInv s' where
  once fd hpos := (honce fd hpos).trans (h.once fd hpos)
  lent k := by
    rw [hworkers, getElem?_modify]
    by_cases hk : i = k
    · subst hk
      have hget := getElem?_eq_getElem hi
      rw [hlent _ hget, hget]
      simp
    · rw [hothers k (Ne.symm hk), h.lent k]
      simp [hk]

theorem usableWorker_spec {p : NodePeer} (h : usableWorker p = some i) :
    ∃ w, p.workers[i]? = some w ∧ 0 ≤ w.fd ∧ w.busy = 0 := by
  have hany := find?_some h
  obtain ⟨w, hw, hspec⟩ := (Option.any_eq_true _ _).mp hany
  rw [Bool.and_eq_true, decide_eq_true_eq, decide_eq_true_eq] at hspec
  exact ⟨w, hw, hspec⟩

theorem PoolInv.lt (h : PoolInv s) (hi : i ∈ s.lent) : i < s.peer.workers.length := by
  obtain ⟨w, hw, -⟩ := (h.lent i).mp hi
  exact (List.getElem?_eq_some_iff.mp hw).1

theorem PoolInv.attach (h : PoolInv s) (fd : Int) (ssl : Option S) : PoolInv (s.attach fd ssl) := by
  rw [Pool.attach]
  split
  · rename_i hnew
    have hnone : s.peer.fds.count fd = 0 := by
      rw [count_eq_zero, mem_fds, hnew.2]
      exact Bool.false_ne_true
    constructor
    · intro f hpos
      have hkeeps := (keepsFds_addWorker s.peer fd).count f hpos
      have honce := h.once f hpos
      change (s.peer.addWorker fd).fds.count f ≤ 1
      split at hkeeps
      · rename_i heq
        have hfd : fd = f := (Prod.mk.inj (some.inj heq)).1
        subst hfd
        omega
      · omega
    intro i
    rw [h.lent i, addWorker]
    split
    · simp only [getElem?_append]
      split
      · exact Iff.rfl
      rename_i hlt
      rw [getElem?_eq_none (not_lt.mp hlt)]
      refine iff_of_false (by rintro ⟨w, hw, -⟩; cases hw) ?_
      rintro ⟨w, hw, hbusy⟩
      rw [getElem?_singleton] at hw
      split at hw
      · cases hw
        exact hbusy rfl
      · cases hw
    · exact Iff.rfl
  · exact h

theorem PoolInv.getWorker (h : PoolInv s) (now : Nat) : PoolInv (s.getWorker now) := by
  cases husable : usableWorker s.peer with
  | none =>
    have hpeer : (s.getWorker now).peer.workers = s.peer.workers ∧
        (s.getWorker now).peer.ctrlFd = s.peer.ctrlFd := by
      simp only [Pool.getWorker, lend, husable]
      split <;> exact ⟨rfl, rfl⟩
    have hlent : (s.getWorker now).lent = s.lent := by
      simp only [Pool.getWorker, husable]
      rfl
    constructor
    · intro fd hpos
      rw [fds, hpeer.1, hpeer.2]
      exact h.once fd hpos
    · intro i
      rw [hlent, hpeer.1]
      exact h.lent i
  | some i =>
    obtain ⟨w, hw, -, hidle⟩ := usableWorker_spec husable
    have hpeer : (s.getWorker now).peer = { s.peer with
        workers := s.peer.workers.modify i fun w => { w with busy := 1 }
        nextWorker := (i + 1) % s.peer.workers.length } := by
      simp only [Pool.getWorker, lend, husable]
    have hlent : (s.getWorker now).lent = i :: s.lent := by
      simp only [Pool.getWorker, husable]
      rfl
    apply h.modify
    · rw [hpeer]
    · intro fd _
      rw [hpeer, fds_lend]
    · intro _ _
      rw [hlent]
      simp
    · intro k hk
      rw [hlent, mem_cons]
      simp [hk]
    · exact (List.getElem?_eq_some_iff.mp hw).1

theorem PoolInv.pipe (h : PoolInv s) (hi : i ∈ s.lent) : PoolInv (s.setBusy i 2) := by
  apply h.modify rfl
  · intro fd _
    rw [Pool.setBusy, fds, map_fd_setBusy]
    exact le_rfl
  · intro _ _
    exact iff_of_true hi (Nat.succ_ne_zero 1)
  · exact fun _ _ => Iff.rfl
  · exact h.lt hi

theorem mem_others {lent : List Nat} :
    (i ∉ lent.filter fun k => k ≠ i) ∧
      ∀ k, k ≠ i → (k ∈ (lent.filter fun k => k ≠ i) ↔ k ∈ lent) := by
  constructor
  · simp
  · intro k hk
    simp [hk]

theorem PoolInv.releaseWorker (h : PoolInv s) (hi : i ∈ s.lent) (added : Bool) :
    PoolInv (s.releaseWorker i added) := by
  rw [Pool.releaseWorker]
  split
  · exact h
  apply h.modify rfl
  · intro fd _
    change (s.setBusy i 0).peer.fds.count fd ≤ _
    rw [Pool.setBusy, fds, map_fd_setBusy]
    exact le_rfl
  · intro _ _
    exact iff_of_false mem_others.1 (not_not.mpr rfl)
  · exact mem_others.2
  · exact h.lt hi

theorem PoolInv.step (h : PoolInv s) (e : PoolEvent S) : PoolInv (poolStep s e) := by
  cases e with
  | attach fd ssl => exact h.attach fd ssl
  | get now => exact h.getWorker now
  | release i added =>
    rw [poolStep]
    split
    · exact h.releaseWorker ‹_› added
    · exact h
  | send wire =>
    have hpeer : (s.peerSendWait wire).peer.workers = s.peer.workers ∧
        (s.peerSendWait wire).peer.ctrlFd = s.peer.ctrlFd ∧
        (s.peerSendWait wire).lent = s.lent := by
      rw [Pool.peerSendWait]
      split
      · split <;> exact ⟨rfl, rfl, rfl⟩
      · exact ⟨rfl, rfl, rfl⟩
    constructor
    · intro fd hpos
      rw [poolStep, fds, hpeer.1, hpeer.2.1]
      exact h.once fd hpos
    · intro i
      rw [poolStep, hpeer.1, hpeer.2.2]
      exact h.lent i
  | pipe i =>
    rw [poolStep]
    split
    · exact h.pipe ‹_›
    · exact h
  | burn i =>
    rw [poolStep]
    split
    · rename_i hi
      apply h.modify rfl
      · intro fd hpos
        have hcount := count_burn s.peer.workers i hpos
        rw [fds, fds, count_cons, count_cons]
        simp only
        omega
      · intro _ _
        exact iff_of_false mem_others.1 (not_not.mpr rfl)
      · exact mem_others.2
      · exact h.lt hi
    · exact h

/-! ### Requests -/

theorem sendSlot_spec (h : s.sendSlot = some i) :
    ∃ w r, s.peer.workers[i]? = some w ∧ 0 ≤ w.fd ∧ s.rx w.fd = some r ∧ s.sendFd = some w.fd := by
  have hany := find?_some h
  obtain ⟨w, hw, hspec⟩ := (Option.any_eq_true _ _).mp hany
  rw [Bool.and_eq_true, Bool.and_eq_true, decide_eq_true_eq] at hspec
  obtain ⟨r, hr⟩ := isSome_iff_exists.mp hspec.2
  refine ⟨w, r, hw, hspec.1.1, hr, ?_⟩
  rw [Pool.sendFd, h]
  exact congrArg (Option.map Worker.fd) hw

theorem peerSendWait_rx (hsends : s.Sends) {fd : Int} (hfd : s.sendFd = some fd) (wire : Bytes) :
    (s.peerSendWait (some wire)).rx = update s.rx fd ((s.rx fd).map fun r => r.queue wire) := by
  rw [Pool.peerSendWait, if_pos hsends, hfd]

theorem index_eq_of_count_le_one {l : List Int} {x : Int} (hcount : l.count x ≤ 1) {i j : Nat}
    (hi : l[i]? = some x) (hj : l[j]? = some x) : i = j := by
  by_contra hne
  have hdup : Duplicate x l := duplicate_iff_exists_distinct_get.mpr (by
    obtain ⟨hi', rfl⟩ := List.getElem?_eq_some_iff.mp hi
    obtain ⟨hj', heq⟩ := List.getElem?_eq_some_iff.mp hj
    rcases Nat.lt_or_gt_of_ne hne with hlt | hlt
    · exact ⟨⟨i, hi'⟩, ⟨j, hj'⟩, hlt, rfl, heq.symm⟩
    · exact ⟨⟨j, hj'⟩, ⟨i, hi'⟩, hlt, heq.symm, rfl⟩)
  exact absurd (duplicate_iff_two_le_count.mp hdup) (by omega)

theorem PoolInv.slot_eq (h : PoolInv s) {i j : Nat} {w v : Worker}
    (hw : s.peer.workers[i]? = some w) (hv : s.peer.workers[j]? = some v) (hpos : 0 ≤ w.fd)
    (heq : v.fd = w.fd) : i = j := by
  have hcount := h.once w.fd hpos
  rw [fds, count_cons] at hcount
  apply index_eq_of_count_le_one ((Nat.le_add_right _ _).trans hcount)
  · rw [getElem?_map, hw, map_some]
  · rw [getElem?_map, hv, map_some, heq]

theorem PoolInv.ctrlFd_ne (h : PoolInv s) {w : Worker}
    (hw : s.peer.workers[i]? = some w) (hpos : 0 ≤ w.fd) : s.peer.ctrlFd ≠ w.fd := by
  intro heq
  have honce := h.once w.fd hpos
  have hmem : w.fd ∈ s.peer.workers.map Worker.fd := mem_map_of_mem (mem_of_getElem? hw)
  have hcount := count_pos_iff.mpr hmem
  rw [fds, count_cons, if_pos (beq_iff_eq.mpr heq)] at honce
  omega

/-- A request goes past the workers that are handed out, exactly when the one whose turn it is
is idle. -/
theorem PoolInv.send_iff (h : PoolInv s) (wire : Option Bytes) :
    Exclusive s (.send wire) ↔ IdleInTurn s (.send wire) := by
  cases wire with
  | none =>
    refine iff_of_true (fun i _ w _ => ?_) trivial
    rw [Pool.peerSendWait]
    split
    · split <;> rfl
    · rfl
  | some wire =>
    constructor
    · intro hexcl hsends i w hslot hw
      obtain ⟨v, r, hv, hpos, hr, hfd⟩ := sendSlot_spec hslot
      rw [hw] at hv
      cases hv
      by_contra hbusy
      have hsame := hexcl i ((h.lent i).mpr ⟨w, hw, hbusy⟩) w hw
      rw [peerSendWait_rx hsends hfd, update_self, hr] at hsame
      have hcount := congrArg RxConn.pendingCount (some.inj hsame)
      exact absurd hcount (Nat.succ_ne_self _)
    intro hidle i hi w hw
    by_cases hsends : s.Sends
    · cases hfd : s.sendFd with
      | none => rw [Pool.peerSendWait, if_pos hsends, hfd]
      | some fd =>
        rw [peerSendWait_rx hsends hfd, update_of_ne]
        rintro rfl
        cases hslot : s.sendSlot with
        | some k =>
          obtain ⟨v, -, hv, hpos, -, hvfd⟩ := sendSlot_spec hslot
          obtain rfl := h.slot_eq hv hw hpos (some.inj (hfd.symm.trans hvfd))
          obtain ⟨w', hw', hbusy⟩ := (h.lent k).mp hi
          exact hbusy (hidle hsends k w' hslot hw')
        | none =>
          simp only [Pool.sendFd, hslot] at hfd
          split at hfd
          · rename_i hctrl
            have heq := some.inj hfd
            exact h.ctrlFd_ne hw (heq ▸ hctrl.1) heq
          · cases hfd
    · rw [Pool.peerSendWait, if_neg hsends]

/-- A worker that comes back reads and writes through a new state without a session. -/
theorem release_iff (s : Pool S) (i : Nat) (added : Bool) :
    Exclusive s (.release i added) ↔ IdleInTurn s (.release i added) := by
  refine forall_congr' fun _ => forall₂_congr fun w r => forall₂_congr fun hw _ => ?_
  have hrelease : s.releaseWorker i added =
      { (s.setBusy i 0).nodeFdAddWithRx w.fd added with lent := s.lent.filter fun k => k ≠ i } := by
    rw [Pool.releaseWorker, hw]
  have hrx : (s.releaseWorker i added).rx w.fd = if added then some (.new none) else none := by
    rw [hrelease]
    exact update_self ..
  have hwatched : (s.releaseWorker i added).watched w.fd = added := by
    rw [hrelease]
    exact update_self ..
  rw [hrx, hwatched]
  constructor
  · rintro ⟨hadded, r', hr', hssl⟩
    rw [if_pos hadded] at hr'
    cases hr'
    exact ⟨hadded, hssl.symm⟩
  · rintro ⟨hadded, hssl⟩
    exact ⟨hadded, .new none, if_pos hadded, hssl.symm⟩

theorem PoolInv.exclusive_iff (h : PoolInv s) (e : PoolEvent S) :
    Exclusive s e ↔ IdleInTurn s e := by
  cases e with
  | send wire => exact h.send_iff wire
  | release i added => exact release_iff s i added
  | _ => exact Iff.rfl

end Steps

/-! ### Whole runs -/

/-- Workers are used by one at a time and keep their sessions exactly when the worker whose turn it
is is idle and no worker that comes back uses TLS. -/
theorem workers_exclusive_iff (name : CStr) (ctrlFd : Int) (ssl : Option S)
    (es : List (PoolEvent S)) :
    Along poolStep Exclusive (Pool.initial name ctrlFd ssl) es ↔
      Along poolStep IdleInTurn (Pool.initial name ctrlFd ssl) es :=
  @along_congr _ _ poolStep _ _ PoolInv (fun _ e h => h.step e) (fun _ e h => h.exclusive_iff e) _
    (poolInv_initial name ctrlFd ssl) es

def oneLent : List (PoolEvent Unit) := [.attach 5 (some ()), .get 0]

/-- The request is queued on it while it is handed out; it comes back without its session. -/
theorem workers_exclusive_false :
    let s := run poolStep (Pool.initial (.lit "edge") (-1) none) oneLent
    s.lent = [0] ∧ s.rx 5 = some (.new (some ())) ∧
      (poolStep s (.send (some [1]))).rx 5 = some ⟨some (), [1], 1⟩ ∧
      (poolStep s (.release 0 true)).rx 5 = some (.new none) ∧
      ¬ Along poolStep Exclusive (Pool.initial (.lit "edge") (-1) none)
        (oneLent ++ [.send (some [1])]) ∧
      ¬ Along poolStep Exclusive (Pool.initial (.lit "edge") (-1) none)
        (oneLent ++ [.release 0 true]) := by
  intro s
  have hlent : s.lent = [0] := by decide +kernel
  have hrx : s.rx 5 = some (.new (some ())) := by decide +kernel
  have hworker : s.peer.workers[0]? = some ⟨5, 1⟩ := by decide +kernel
  have hsend : (poolStep s (.send (some [1]))).rx 5 = some ⟨some (), [1], 1⟩ := by decide +kernel
  have hback : (poolStep s (.release 0 true)).rx 5 = some (.new none) := by decide +kernel
  have hmem : 0 ∈ s.lent := hlent ▸ mem_singleton_self 0
  refine ⟨hlent, hrx, hsend, hback, fun hall => ?_, fun hall => ?_⟩
  · obtain ⟨-, hlast, -⟩ := (along_append _ oneLent _).mp hall
    have hsame := hlast 0 hmem _ hworker
    rw [hrx] at hsame
    cases hsend.symm.trans hsame
  obtain ⟨-, hlast, -⟩ := (along_append _ oneLent _).mp hall
  obtain ⟨-, r, hr, hssl⟩ := hlast hmem _ _ hworker hrx
  rw [poolStep, if_pos hmem] at hback
  cases hback.symm.trans hr
  cases hssl

end Portal
