import Portal.Core.Message
import Portal.Lib.Chains
import Portal.Lib.Runs
import Mathlib.Data.List.Perm.Subperm

/-!
The queues of pending requests of `modules/mod_node/mod_node.c`, one per connection:
`peer_send_wait` and `pending_wait`, the response branch of `on_inbound_data`,
`fd_state_fail_pending` and `rx_free`.

A request is a node in the heap, linked by address, and freed by its own waiter; waiters stand on a
stack, and only the innermost one can return. The order of the requests, how each was settled and
what each waiter returned is recorded beside the heap; `fault` is set when freed memory is used or
a loop does not end.

* `QueuesInv` — the queue of each connection is a linked list of exactly the requests that wait.
-/

namespace Portal

open List Chains Runs Option Function
open Prod (mk snd fst)

variable {r c : Nat} {ws : List (Nat × Nat)}

/-- `pending_req_t`, with the number of the request. -/
structure PendingReq where
  next : Option Nat
  resp : PortalResp
  deadlineUs : Nat
  done : Bool
  rc : Int
  serial : Nat
deriving DecidableEq

structure RxPending where
  pendingHead : Option Nat
  pendingTail : Option Nat
  pendingCount : Int
deriving DecidableEq

def RxPending.empty : RxPending := ⟨none, none, 0⟩

inductive Settlement where
  | response
  | timeout
  | failure
deriving DecidableEq

structure Queues where
  reqs : Nat → Option PendingReq
  conns : Nat → Option RxPending
  /-- The connection and the request of every `peer_send_wait` on the stack, the innermost
  first. -/
  waiters : List (Nat × Nat)
  made : Nat
  settled : List (Nat × Settlement)
  returned : List (Nat × Int)
  fault : Bool

def Queues.initial : Queues where
  reqs _ := none
  conns _ := none
  waiters := []
  made := 0
  settled := []
  returned := []
  fault := false

/-! ### Operations -/

def Queues.fail (s : Queues) : Queues := { s with fault := true }

def Queues.store (s : Queues) (r : Nat) (f : PendingReq → PendingReq) : Queues :=
  { s with
    reqs := Function.update s.reqs r ((s.reqs r).map f)
    fault := s.fault || (s.reqs r).isNone }

def Queues.setConn (s : Queues) (c : Nat) (k : Option RxPending) : Queues :=
  { s with conns := Function.update s.conns c k }

def Queues.settle (s : Queues) (r : Nat) (f : PendingReq → PendingReq) (how : Settlement) :
    Queues :=
  { (s.store r fun n => { f n with done := true }) with
    settled := s.settled ++ ((s.reqs r).map fun n => (n.serial, how)).toList }

def PendingReq.unavailable (n : PendingReq) : PendingReq :=
  { n with resp := { n.resp with status := 503 }, rc := -1 }

/-- What `on_inbound_data` gives the waiter; `decoded` is the result of
`portal_wire_decode_resp`. -/
def PendingReq.answered (decoded : Option PortalResp) (n : PendingReq) : PendingReq :=
  match decoded with
  | some resp => { n with resp := resp, rc := 0 }
  | none => { n with resp := { n.resp with status := 500 }, rc := -1 }

def Queues.nextOf (s : Queues) (r : Nat) : Option Nat := (s.reqs r).bind PendingReq.next

def failLoop : Nat → Option Nat → Queues → Queues
  | _, none, s => s
  | 0, some _, s => s.fail
  | fuel + 1, some r, s =>
    failLoop fuel (s.nextOf r) (s.settle r PendingReq.unavailable .failure)

def fdStateFailPending (s : Queues) (c : Nat) : Queues :=
  match s.conns c with
  | none => s.fail
  | some k => (failLoop s.waiters.length k.pendingHead s).setConn c (some .empty)

def rxFree (s : Queues) (c : Nat) : Queues := (fdStateFailPending s c).setConn c none

/-- A complete frame: the response to the first request of the queue, if there is one. -/
def onResponse (s : Queues) (c : Nat) (decoded : Option PortalResp) : Queues :=
  match s.conns c with
  | none => s.fail
  | some k =>
    match k.pendingHead with
    | none => s  -- a request of the peer
    | some r =>
      (s.settle r (PendingReq.answered decoded) .response).setConn c
        (some { pendingHead := s.nextOf r
                pendingTail := if k.pendingTail = some r then none else k.pendingTail
                pendingCount := k.pendingCount - 1 })

/-- `*link = next;` for the link of a request; the head of a queue is not in the heap. -/
def Queues.setLink (s : Queues) (owner next : Option Nat) : Queues :=
  match owner with
  | none => s
  | some o => s.store o fun n => { n with next := next }

/-- `peer_send_wait` on the connection `c`, up to its call of `pending_wait`; `calloc` gives
the address `r`. -/
def peerSendWait (s : Queues) (c r : Nat) (resp : PortalResp) (deadlineUs : Nat) : Queues :=
  match s.conns c with
  | none => s.fail
  | some k =>
    let s := { s with
      reqs := Function.update s.reqs r (some ⟨none, resp, deadlineUs, false, -1, s.made⟩)
      waiters := (c, r) :: s.waiters
      made := s.made + 1 }
    let s := s.setLink k.pendingTail (some r)
    s.setConn c (some { pendingHead := if k.pendingTail.isSome then k.pendingHead else some r
                        pendingTail := some r
                        pendingCount := k.pendingCount + 1 })

/-- The request is unlinked after its deadline, if it is still in the queue. -/
def unlinkPending (s : Queues) (c r : Nat) : Queues :=
  match s.conns c with
  | none => s.fail
  | some k =>
    match findLink PendingReq.next s.reqs r (s.waiters.length + 1) none k.pendingHead with
    | none => s.fail
    | some none => s
    | some (some owner) =>
      let head := if owner.isNone then s.nextOf r else k.pendingHead
      let t := s.setLink owner (s.nextOf r)
      if k.pendingTail = some r then
        match lastFrom PendingReq.next t.reqs (s.waiters.length + 1) head with
        | none => t.fail
        | some tail => t.setConn c (some ⟨head, tail, k.pendingCount - 1⟩)
      else t.setConn c (some ⟨head, k.pendingTail, k.pendingCount - 1⟩)

/-- The innermost `peer_send_wait` returns and frees its request. -/
def sendReturn (s : Queues) : Queues :=
  match s.waiters with
  | [] => s
  | (_, r) :: ws =>
    { s with
      reqs := Function.update s.reqs r none
      waiters := ws
      returned := s.returned ++ ((s.reqs r).map fun n => (n.serial, n.rc)).toList
      fault := s.fault || (s.reqs r).isNone }

/-- One turn of the loop of the innermost `pending_wait`; if it does not end the loop, the
event loop runs. -/
def pendingWait (s : Queues) (now : Nat) : Queues :=
  match s.waiters with
  | [] => s
  | (c, r) :: _ =>
    match s.reqs r with
    | none => s.fail
    | some n =>
      if n.done then sendReturn s
      else if n.deadlineUs ≤ now then
        sendReturn ((unlinkPending s c r).settle r PendingReq.unavailable .timeout)
      else s

inductive QueueEvent where
  | opened (c : Nat)
  | send (c r : Nat) (resp : PortalResp) (deadlineUs : Nat)
  | frame (c : Nat) (decoded : Option PortalResp)
  | writeFailed (c : Nat)
  | teardown (c : Nat)
  | turn (now : Nat)

def queueStep (s : Queues) : QueueEvent → Queues
  | .opened c => s.setConn c (some .empty)
  | .send c r resp deadlineUs => peerSendWait s c r resp deadlineUs
  | .frame c decoded => onResponse s c decoded
  | .writeFailed c => fdStateFailPending s c
  | .teardown c => rxFree s c
  | .turn now => pendingWait s now

/-- Events happen on connections that exist, and memory that is handed out is free. -/
def Happens (s : Queues) : QueueEvent → Prop
  | .opened c => s.conns c = none
  | .send c r _ _ => (s.conns c).isSome ∧ s.reqs r = none
  | .frame c _ => (s.conns c).isSome
  | .writeFailed c => (s.conns c).isSome
  | .teardown c => (s.conns c).isSome
  | .turn _ => True

/-! ### The property -/

/-- The request number `i` is not settled yet. -/
def Open (s : Queues) (i : Nat) : Prop :=
  ∃ r n, s.reqs r = some n ∧ n.serial = i ∧ n.done = false

def InQueue (s : Queues) (c : Nat) (l : List Nat) : Prop :=
  ∃ k, s.conns c = some k ∧ Linked PendingReq.next s.reqs k.pendingHead l

structure QueuesRight (s : Queues) : Prop where
  /-- No freed memory was used, and every loop ended. -/
  noFault : s.fault = false
  /-- A request that is not done is in one queue. -/
  linked : ∀ r n, s.reqs r = some n → n.done = false → ∃! c, ∃ l, InQueue s c l ∧ r ∈ l
  /-- Head, tail and count describe the queue. -/
  described : ∀ c k, s.conns c = some k → ∃ l, InQueue s c l ∧ k.pendingTail = l.getLast? ∧
    (k.pendingTail = none ↔ l = []) ∧ k.pendingCount = l.length
  /-- The requests of a queue are not done, and their waiters have not returned. -/
  waiting : ∀ c l, InQueue s c l → ∀ r ∈ l, (c, r) ∈ s.waiters ∧
    ∃ n, s.reqs r = some n ∧ n.done = false
  /-- Every request is settled once, unless it is still open. -/
  once : (s.settled.map Prod.fst).Nodup ∧
    ∀ i, i ∈ s.settled.map Prod.fst ↔ i < s.made ∧ ¬ Open s i
  /-- Waiters return when their request is settled, and at the latest in the first turn
  after the deadline. -/
  returns : (∀ x ∈ s.returned, x.1 ∈ s.settled.map Prod.fst) ∧
    ∀ c r ws n now, s.waiters = (c, r) :: ws → s.reqs r = some n → n.deadlineUs ≤ now →
      (queueStep s (.turn now)).waiters = ws ∧
      n.serial ∈ (queueStep s (.turn now)).settled.map Prod.fst

/-! ### The invariant -/

def Waits (s : Queues) (c r : Nat) : Prop :=
  (c, r) ∈ s.waiters ∧ ∃ n, s.reqs r = some n ∧ n.done = false

/-- The queue of the connection, as its fields have it, is what waits there. -/
structure Describes (s : Queues) (c : Nat) (k : RxPending) (l : List Nat) : Prop where
  linked : Linked PendingReq.next s.reqs k.pendingHead l
  tail : k.pendingTail = l.getLast?
  count : k.pendingCount = l.length
  mem : ∀ r, r ∈ l ↔ Waits s c r

structure QueuesInv (s : Queues) : Prop where
  noFault : s.fault = false
  live : ∀ c k, s.conns c = some k → ∃ l, Describes s c k l
  waits : ∀ x ∈ s.waiters, ∃ n, s.reqs x.2 = some n ∧ (n.done = false → (s.conns x.1).isSome)
  held : ∀ r n, s.reqs r = some n → ∃ c, (c, r) ∈ s.waiters
  stack : (s.waiters.map Prod.snd).Nodup
  made : ∀ r n, s.reqs r = some n → n.serial < s.made
  serials : ∀ r n, s.reqs r = some n → ∀ r' n', s.reqs r' = some n' →
    n.serial = n'.serial → r = r'
  once : (s.settled.map Prod.fst).Nodup
  settled : ∀ i, i ∈ s.settled.map Prod.fst ↔ i < s.made ∧ ¬ Open s i
  returned : ∀ x ∈ s.returned, x.1 ∈ s.settled.map Prod.fst

theorem queuesInv_initial : QueuesInv .initial := by
  constructor <;> simp [Queues.initial, Open]

variable {s : Queues}

theorem QueuesInv.conn_eq (h : QueuesInv s) {d : Nat} (hc : (c, r) ∈ s.waiters)
    (hd : (d, r) ∈ s.waiters) : c = d :=
  (mk.inj (inj_on_of_nodup_map h.stack hc hd rfl)).1

theorem Describes.length_le {k : RxPending} {l : List Nat} (hd : Describes s c k l) :
    l.length ≤ s.waiters.length := by
  have hsub : l ⊆ s.waiters.map snd := fun r hr =>
    mem_map_of_mem (f := snd) ((hd.mem r).mp hr).1
  have hle := (subperm_of_subset hd.linked.nodup hsub).length_le
  rwa [length_map] at hle

/-! ### Settling requests -/

/-- The requests `l` of the queue `old` of the connection `c` are settled, and in between
links of that queue may have changed. -/
structure Settles (c : Nat) (old l : List Nat) (s s' : Queues) : Prop where
  core : ∀ r, (s'.reqs r).map (fun n => (n.serial, n.done)) =
    (s.reqs r).map fun n => (n.serial, n.done || decide (r ∈ l))
  next : ∀ r ∉ old, (s'.reqs r).map PendingReq.next = (s.reqs r).map PendingReq.next
  conns : ∀ d ≠ c, s'.conns d = s.conns d
  waiters : s'.waiters = s.waiters
  made : s'.made = s.made
  fault : s'.fault = s.fault
  returned : s'.returned = s.returned
  settled : s'.settled.map Prod.fst =
    s.settled.map Prod.fst ++ l.filterMap fun r => (s.reqs r).map PendingReq.serial

section Settling

variable {c : Nat} {old l : List Nat} {s s' t : Queues}

theorem Settles.reqs (hs : Settles c old l s s') {n' : PendingReq} (hr : s'.reqs r = some n') :
    ∃ n, s.reqs r = some n ∧ n'.serial = n.serial ∧
      n'.done = (n.done || decide (r ∈ l)) := by
  have hcore := hs.core r
  rw [hr] at hcore
  obtain ⟨n, hn, heq⟩ := map_eq_some_iff.mp hcore.symm
  obtain ⟨hserial, hdone⟩ := mk.inj heq
  exact ⟨n, hn, hserial.symm, hdone.symm⟩

variable {n : PendingReq} {k : RxPending} {m : List Nat}

theorem Settles.reqs' (hs : Settles c old l s s') (hr : s.reqs r = some n) :
    ∃ n', s'.reqs r = some n' ∧ n'.serial = n.serial ∧
      n'.done = (n.done || decide (r ∈ l)) := by
  have hcore := hs.core r
  rw [hr] at hcore
  obtain ⟨n', hn', heq⟩ := map_eq_some_iff.mp hcore
  obtain ⟨hserial, hdone⟩ := mk.inj heq
  exact ⟨n', hn', hserial, hdone⟩

theorem Settles.waits_iff (hs : Settles c old l s s') (d r : Nat) :
    Waits s' d r ↔ Waits s d r ∧ r ∉ l := by
  constructor
  · rintro ⟨hw, n', hn', hdone⟩
    obtain ⟨n, hn, -, hdone'⟩ := hs.reqs hn'
    rw [hdone] at hdone'
    obtain ⟨hopen, hnot⟩ := Bool.or_eq_false_iff.mp hdone'.symm
    exact ⟨⟨hs.waiters ▸ hw, n, hn, hopen⟩, of_decide_eq_false hnot⟩
  rintro ⟨⟨hw, n, hn, hopen⟩, hnot⟩
  obtain ⟨n', hn', -, hdone⟩ := hs.reqs' hn
  rw [hopen, decide_eq_false hnot] at hdone
  exact ⟨hs.waiters ▸ hw, n', hn', hdone⟩

theorem Settles.open_iff (hs : Settles c old l s s') (h : QueuesInv s) (i : Nat) :
    Open s' i ↔ Open s i ∧ ¬ ∃ r ∈ l, (s.reqs r).map PendingReq.serial = some i := by
  constructor
  · rintro ⟨r, n', hn', hi, hdone⟩
    obtain ⟨n, hn, hserial, hdone'⟩ := hs.reqs hn'
    rw [hdone] at hdone'
    obtain ⟨hopen, hnot⟩ := Bool.or_eq_false_iff.mp hdone'.symm
    refine ⟨⟨r, n, hn, hserial ▸ hi, hopen⟩, ?_⟩
    rintro ⟨q, hq, hqi⟩
    obtain ⟨m, hm, hmi⟩ := map_eq_some_iff.mp hqi
    obtain rfl := h.serials q m hm r n hn (hmi.trans (hi.symm.trans hserial))
    exact of_decide_eq_false hnot hq
  rintro ⟨⟨r, n, hn, hi, hopen⟩, hnot⟩
  obtain ⟨n', hn', hserial, hdone⟩ := hs.reqs' hn
  have hr : r ∉ l := fun hr => hnot ⟨r, hr, by rw [hn, map_some, hi]⟩
  rw [hopen, decide_eq_false hr] at hdone
  exact ⟨r, n', hn', hserial.trans hi, hdone⟩

theorem Describes.settles (h : QueuesInv s) (hs : Settles c old l s s')
    (hold : ∀ r ∈ old, (c, r) ∈ s.waiters) (hsub : l ⊆ old) {d : Nat} (hne : d ≠ c)
    (hd : Describes s d k m) : Describes s' d k m := by
  have hout : ∀ r ∈ m, r ∉ old := fun r hr hrold =>
    hne (h.conn_eq ((hd.mem r).mp hr).1 (hold r hrold))
  refine ⟨hd.linked.congr fun r hr => hs.next r (hout r hr), hd.tail, hd.count, fun r => ?_⟩
  rw [hs.waits_iff, ← hd.mem]
  exact ⟨fun hr => ⟨hr, fun hl => hout r hr (hsub hl)⟩, And.left⟩

theorem mem_serials (hd : Describes s c k old) (hsub : l ⊆ old) {i : Nat} :
    (i ∈ l.filterMap fun r => (s.reqs r).map PendingReq.serial) →
      ∃ r n, r ∈ l ∧ s.reqs r = some n ∧ n.serial = i ∧ n.done = false := by
  intro hi
  obtain ⟨r, hr, hri⟩ := mem_filterMap.mp hi
  obtain ⟨-, n, hn, hopen⟩ := (hd.mem r).mp (hsub hr)
  rw [hn, map_some] at hri
  exact ⟨r, n, hr, hn, some.inj hri, hopen⟩

theorem nodup_serials (h : QueuesInv s) (hnd : l.Nodup) :
    (l.filterMap fun r => (s.reqs r).map PendingReq.serial).Nodup := by
  apply hnd.filterMap
  intro r r' i hr hr'
  obtain ⟨n, hn, rfl⟩ := map_eq_some_iff.mp hr
  obtain ⟨n', hn', heq⟩ := map_eq_some_iff.mp hr'
  exact h.serials r n hn r' n' hn' heq.symm

open PendingReq

/-- Settling requests of one queue, whose fields describe what is left of it, or whose
connection is gone with all of them settled. -/
theorem QueuesInv.settles (h : QueuesInv s) (hd : Describes s c k old)
    (hk : s.conns c = some k) (hsub : l ⊆ old) (hnd : l.Nodup) (hs : Settles c old l s s')
    (hc : ∀ k', s'.conns c = some k' → ∃ l', Describes s' c k' l')
    (hgone : s'.conns c = none → old ⊆ l) : QueuesInv s' where
  noFault := hs.fault.trans h.noFault
  live d k' hk' := by
    by_cases hdc : d = c
    · subst hdc
      exact hc k' hk'
    · rw [hs.conns d hdc] at hk'
      obtain ⟨m, hm⟩ := h.live d k' hk'
      exact ⟨m, hm.settles h hs (fun r hr => ((hd.mem r).mp hr).1) hsub hdc⟩
  waits x hx := by
    rw [hs.waiters] at hx
    obtain ⟨n, hn, hlive⟩ := h.waits x hx
    obtain ⟨n', hn', -, hdone⟩ := hs.reqs' hn
    refine ⟨n', hn', fun hopen => ?_⟩
    rw [hopen] at hdone
    obtain ⟨hopen, hnot⟩ := Bool.or_eq_false_iff.mp hdone.symm
    by_cases hxc : x.1 = c
    · have hmem : x.2 ∈ old := (hd.mem x.2).mpr ⟨hxc ▸ hx, n, hn, hopen⟩
      rw [hxc, Option.isSome_iff_ne_none]
      exact fun hnone => of_decide_eq_false hnot (hgone hnone hmem)
    · rw [hs.conns x.1 hxc]
      exact hlive hopen
  held r n' hn' := by
    obtain ⟨n, hn, -⟩ := hs.reqs hn'
    rw [hs.waiters]
    exact h.held r n hn
  stack := hs.waiters ▸ h.stack
  made r n' hn' := by
    obtain ⟨n, hn, hserial, -⟩ := hs.reqs hn'
    rw [hserial, hs.made]
    exact h.made r n hn
  serials r n' hn' q m' hm' heq := by
    obtain ⟨n, hn, hserial, -⟩ := hs.reqs hn'
    obtain ⟨m, hm, hserial', -⟩ := hs.reqs hm'
    exact h.serials r n hn q m hm (by rw [← hserial, ← hserial', heq])
  once := by
    rw [hs.settled, nodup_append]
    refine ⟨h.once, nodup_serials h hnd, fun i hi j hj heq => ?_⟩
    subst heq
    obtain ⟨r, n, -, hn, hserial, hopen⟩ := mem_serials hd hsub hj
    exact ((h.settled i).mp hi).2 ⟨r, n, hn, hserial, hopen⟩
  settled i := by
    rw [hs.settled, mem_append, h.settled, hs.made, hs.open_iff h]
    have hnew : (i ∈ l.filterMap fun r => (s.reqs r).map serial) ↔
        ∃ r ∈ l, (s.reqs r).map serial = some i := mem_filterMap
    have hmade : (i ∈ l.filterMap fun r => (s.reqs r).map serial) → i < s.made := by
      intro hi
      obtain ⟨r, n, -, hn, hserial, -⟩ := mem_serials hd hsub hi
      exact hserial ▸ h.made r n hn
    rw [← hnew]
    tauto
  returned x hx := by
    rw [hs.settled]
    rw [hs.returned] at hx
    exact mem_append_left _ (h.returned x hx)

/-! ### The settling operations -/

@[simp] theorem conns_setConn (s : Queues) (c : Nat) (k : Option RxPending) :
    (s.setConn c k).conns c = k := update_self ..

theorem conns_setConn_of_ne {d : Nat} {k : Option RxPending} (h : d ≠ c) :
    (s.setConn c k).conns d = s.conns d := update_of_ne h _ _

theorem Settles.setConn (hs : Settles c old l s s') (k : Option RxPending) :
    Settles c old l s (s'.setConn c k) where
  core := hs.core
  next := hs.next
  conns d hd := (conns_setConn_of_ne hd).trans (hs.conns d hd)
  waiters := hs.waiters
  made := hs.made
  fault := hs.fault
  returned := hs.returned
  settled := hs.settled

theorem Settles.trans {l' : List Nat} (hs : Settles c old l s t) (hs' : Settles c old l' t s') :
    Settles c old (l ++ l') s s' where
  core r := by
    rw [hs'.core]
    cases hr : s.reqs r with
    | none =>
      have hcore := hs.core r
      rw [hr, map_none, Option.map_eq_none_iff] at hcore
      rw [hcore]
      rfl
    | some n =>
      obtain ⟨n', hn', hserial, hdone⟩ := hs.reqs' hr
      rw [hn', map_some, map_some, hserial, hdone]
      simp [Bool.or_assoc]
  next r hr := (hs'.next r hr).trans (hs.next r hr)
  conns d hd := (hs'.conns d hd).trans (hs.conns d hd)
  waiters := hs'.waiters.trans hs.waiters
  made := hs'.made.trans hs.made
  fault := hs'.fault.trans hs.fault
  returned := hs'.returned.trans hs.returned
  settled := by
    have hserial (r : Nat) :
        (t.reqs r).map serial = (s.reqs r).map serial := by
      have hcore := congrArg (Option.map fst) (hs.core r)
      simpa [Function.comp_def] using hcore
    rw [hs'.settled, hs.settled, filterMap_append, append_assoc]
    simp only [hserial]

theorem Settles.refl (c : Nat) (old : List Nat) (s : Queues) : Settles c old [] s s := by
  constructor <;> simp

theorem reqs_settle (hr : s.reqs r = some n) (f : PendingReq → PendingReq) (how : Settlement) :
    (s.settle r f how).reqs = update s.reqs r (some { f n with done := true }) := by
  rw [Queues.settle, Queues.store, hr]
  rfl

theorem settles_settle (hr : s.reqs r = some n) {f : PendingReq → PendingReq}
    (hserial : (f n).serial = n.serial) (how : Settlement) (hold : r ∈ old) :
    Settles c old [r] s (s.settle r f how) where
  core q := by
    rw [reqs_settle hr]
    by_cases hq : q = r
    · subst hq
      simp [hr, hserial]
    · simp [hq]
  next q hq := by
    have hne : q ≠ r := fun heq => hq (heq ▸ hold)
    rw [reqs_settle hr, update_of_ne hne]
  conns _ _ := rfl
  waiters := rfl
  made := rfl
  fault := by simp [Queues.settle, Queues.store, hr]
  returned := rfl
  settled := by simp [Queues.settle, hr]

theorem linked_settle (hr : s.reqs r = some n) {f : PendingReq → PendingReq}
    (hnext : (f n).next = n.next) (how : Settlement) {p : Option Nat}
    (hm : Linked PendingReq.next s.reqs p m) :
    Linked PendingReq.next (s.settle r f how).reqs p m := by
  refine hm.congr fun q _ => ?_
  rw [reqs_settle hr]
  by_cases hq : q = r
  · subst hq
    simp [hr, hnext]
  · rw [update_of_ne hq]

theorem settles_failLoop {p : Option Nat} (hl : Linked PendingReq.next s.reqs p l)
    (hsub : l ⊆ old) {fuel : Nat} (hfuel : l.length ≤ fuel) :
    Settles c old l s (failLoop fuel p s) := by
  induction l generalizing p s fuel with
  | nil =>
    cases hl
    rw [failLoop]
    exact .refl c old s
  | cons r l ih =>
    cases hl with
    | @cons _ n _ hr hl =>
      cases fuel with
      | zero => cases hfuel
      | succ fuel =>
        obtain ⟨hrold, hsub⟩ := cons_subset.mp hsub
        have hone : Settles c old [r] s (s.settle r unavailable .failure) :=
          settles_settle hr rfl .failure hrold
        have hrest := linked_settle hr (f := unavailable) rfl .failure hl
        rw [failLoop, Queues.nextOf, hr, bind_some]
        exact hone.trans (ih hrest hsub (Nat.le_of_succ_le_succ hfuel))

theorem fdStateFailPending_spec (h : QueuesInv s) (hlive : (s.conns c).isSome) :
    ∃ k m, s.conns c = some k ∧ Describes s c k m ∧ Settles c m m s (fdStateFailPending s c) ∧
      (fdStateFailPending s c).conns c = some .empty := by
  obtain ⟨k, hk⟩ := isSome_iff_exists.mp hlive
  obtain ⟨m, hm⟩ := h.live c k hk
  refine ⟨k, m, hk, hm, ?_, ?_⟩
  · rw [fdStateFailPending, hk]
    exact (settles_failLoop hm.linked (List.Subset.refl m) hm.length_le).setConn _
  · rw [fdStateFailPending, hk]
    exact update_self ..

theorem describes_empty (hd : Describes s c k old) (hs : Settles c old old s s') :
    Describes s' c .empty [] where
  linked := .nil
  tail := rfl
  count := rfl
  mem r := by
    rw [hs.waits_iff, ← hd.mem]
    simp

theorem QueuesInv.fdStateFailPending (h : QueuesInv s) (hlive : (s.conns c).isSome) :
    QueuesInv (fdStateFailPending s c) := by
  obtain ⟨k, m, hk, hm, hs, hempty⟩ := fdStateFailPending_spec h hlive
  apply h.settles hm hk (List.Subset.refl m) hm.linked.nodup hs
  · intro k' hk'
    rw [hempty] at hk'
    cases hk'
    exact ⟨[], describes_empty hm hs⟩
  · intro hnone
    rw [hempty] at hnone
    cases hnone

theorem QueuesInv.rxFree (h : QueuesInv s) (hlive : (s.conns c).isSome) :
    QueuesInv (rxFree s c) := by
  obtain ⟨k, m, hk, hm, hs, -⟩ := fdStateFailPending_spec h hlive
  have hnone : (Portal.rxFree s c).conns c = none := update_self ..
  apply h.settles hm hk (List.Subset.refl m) hm.linked.nodup (hs.setConn none)
  · intro k' hk'
    exact absurd (hnone.symm.trans hk') (some_ne_none k').symm
  · exact fun _ => List.Subset.refl m

theorem getLast?_of_pop (hnd : (r :: m).Nodup) :
    (if (r :: m).getLast? = some r then none else (r :: m).getLast?) = m.getLast? := by
  cases m with
  | nil => simp
  | cons q m =>
    have hne : (q :: m).getLast? ≠ some r := fun heq =>
      (nodup_cons.mp hnd).1 (mem_of_getLast? heq)
    rw [getLast?_cons_cons, if_neg hne]

theorem mem_of_settled (hnd : (r :: m).Nodup) (hperm : l.Perm (r :: m)) (q : Nat) :
    q ∈ m ↔ q ∈ l ∧ q ∉ [r] := by
  rw [hperm.mem_iff, mem_cons, mem_singleton]
  constructor
  · intro hq
    exact ⟨.inr hq, fun heq => (nodup_cons.mp hnd).1 (heq ▸ hq)⟩
  · rintro ⟨rfl | hq, hne⟩
    · exact absurd rfl hne
    · exact hq

theorem answered_serial (decoded : Option PortalResp) (n : PendingReq) :
    (n.answered decoded).serial = n.serial ∧ (n.answered decoded).next = n.next := by
  cases decoded <;> exact ⟨rfl, rfl⟩

/-- A response settles the first open request of its connection. -/
theorem QueuesInv.onResponse (h : QueuesInv s) (hlive : (s.conns c).isSome)
    (decoded : Option PortalResp) : QueuesInv (onResponse s c decoded) := by
  obtain ⟨k, hk⟩ := isSome_iff_exists.mp hlive
  obtain ⟨m, hm⟩ := h.live c k hk
  rw [Portal.onResponse, hk]
  simp only
  cases m with
  | nil =>
    rw [hm.linked.head]
    exact h
  | cons r m =>
    have hhead : k.pendingHead = some r := hm.linked.head
    obtain ⟨n, hr, hl⟩ : ∃ n, s.reqs r = some n ∧ Linked next s.reqs n.next m := by
      have hlinked := hm.linked
      rw [hhead] at hlinked
      cases hlinked with
      | cons hr hl => exact ⟨_, hr, hl⟩
    rw [hhead]
    obtain ⟨hserial, hnext⟩ := answered_serial decoded n
    have hone : Settles c (r :: m) [r] s (s.settle r (answered decoded) .response) :=
      settles_settle hr hserial .response mem_cons_self
    have hnd := hm.linked.nodup
    apply h.settles hm hk (cons_subset.mpr ⟨mem_cons_self, nil_subset _⟩)
      (nodup_singleton r) (hone.setConn _)
    · intro k' hk'
      rw [conns_setConn] at hk'
      cases hk'
      refine ⟨m, ⟨?_, ?_, ?_, fun q => ?_⟩⟩
      · change Linked _ _ (s.nextOf r) m
        rw [Queues.nextOf, hr, bind_some]
        exact linked_settle hr hnext .response hl
      · change (if k.pendingTail = some r then none else k.pendingTail) = m.getLast?
        rw [hm.tail, getLast?_of_pop hnd]
      · change k.pendingCount - 1 = m.length
        rw [hm.count, length_cons]
        omega
      · rw [(hone.setConn _).waits_iff, ← hm.mem]
        exact mem_of_settled hnd (List.Perm.refl _) q
    · intro hnone
      rw [conns_setConn] at hnone
      cases hnone

/-! ### Unlinking -/

theorem setLink_spec {owner next : Option Nat}
    (howner : ∀ o, owner = some o → o ∈ old ∧ ∃ m, s.reqs o = some m) :
    Settles c old [] s (s.setLink owner next) ∧
      (∀ a, owner = some a → ((s.setLink owner next).reqs a).map PendingReq.next = some next) ∧
      ∀ a, owner ≠ some a →
        ((s.setLink owner next).reqs a).map PendingReq.next = (s.reqs a).map PendingReq.next := by
  cases owner with
  | none => exact ⟨.refl c old s, by simp, fun _ _ => rfl⟩
  | some o =>
    obtain ⟨hold, m, hm⟩ := howner o rfl
    have hreqs : (s.setLink (some o) next).reqs =
        update s.reqs o (some { m with next := next }) := by
      rw [Queues.setLink, Queues.store, hm]
      rfl
    refine ⟨⟨fun q => ?_, fun q hq => ?_, fun _ _ => rfl, rfl, rfl, ?_, rfl, ?_⟩, ?_, ?_⟩
    · rw [hreqs]
      by_cases hq : q = o
      · subst hq
        simp [hm]
      · simp [hq]
    · have hne : q ≠ o := fun heq => hq (heq ▸ hold)
      rw [hreqs, update_of_ne hne]
    · simp [Queues.setLink, Queues.store, hm]
    · simp [Queues.setLink, Queues.store]
    · rintro a ⟨⟩
      simp [hreqs]
    · intro a ha
      have hne : a ≠ o := fun heq => ha (heq ▸ rfl)
      rw [hreqs, update_of_ne hne]

theorem getLast?_of_unlink {l₁ l₂ : List Nat} (h : (l₁ ++ r :: l₂).getLast? ≠ some r) :
    (l₁ ++ r :: l₂).getLast? = (l₁ ++ l₂).getLast? := by
  cases l₂ with
  | nil => simp at h
  | cons q l₂ => simp [getLast?_cons]

theorem unlinkPending_spec {l₁ l₂ : List Nat} (hk : s.conns c = some k)
    (hd : Describes s c k (l₁ ++ r :: l₂)) (hr : s.reqs r = some n) :
    Settles c (l₁ ++ r :: l₂) [] s (unlinkPending s c r) ∧
      ∃ k', (unlinkPending s c r).conns c = some k' ∧
        Linked PendingReq.next (unlinkPending s c r).reqs k'.pendingHead (l₁ ++ l₂) ∧
        k'.pendingTail = (l₁ ++ l₂).getLast? ∧ k'.pendingCount = (l₁ ++ l₂).length := by
  have hlen := hd.length_le
  have hfind := findLink_eq hd.linked (Nat.lt_succ_of_le hlen) none
  rw [Option.or_none] at hfind
  have hnext : s.nextOf r = n.next := by rw [Queues.nextOf, hr, bind_some]
  obtain ⟨hs, hset, hkeep⟩ := @setLink_spec c (l₁ ++ r :: l₂) s l₁.getLast? n.next fun o ho =>
    ⟨mem_append_left _ (mem_of_getLast? ho),
      hd.linked.node (mem_append_left _ (mem_of_getLast? ho))⟩
  have hlinked := hd.linked.unlink hr hset fun a _ ha => hkeep a ha
  have hhead : (if l₁.getLast?.isNone then n.next else k.pendingHead) =
      if l₁ = [] then n.next else k.pendingHead := by
    cases l₁ <;> simp
  have hlast : lastFrom next _ (s.waiters.length + 1) _ = _ :=
    lastFrom_eq hlinked (by
      rw [length_append, length_cons] at hlen
      rw [length_append]
      omega)
  have hcount : k.pendingCount - 1 = ((l₁ ++ l₂).length : Int) := by
    rw [hd.count]
    simp only [length_append, length_cons]
    omega
  rw [unlinkPending, hk]
  simp only [hfind, hnext, hhead]
  split
  · rw [hlast]
    exact ⟨hs.setConn _, _, conns_setConn .., hlinked, rfl, hcount⟩
  rename_i hother
  refine ⟨hs.setConn _, _, conns_setConn .., hlinked, ?_, hcount⟩
  rw [hd.tail] at hother ⊢
  exact getLast?_of_unlink hother

/-- The turn in which the deadline has passed: the request is taken out of its queue and
settled. -/
theorem QueuesInv.expire (h : QueuesInv s) (hw : (c, r) ∈ s.waiters) (hr : s.reqs r = some n)
    (hopen : n.done = false) :
    QueuesInv ((unlinkPending s c r).settle r PendingReq.unavailable .timeout) ∧
      ∃ old, Settles c old [r] s
        ((unlinkPending s c r).settle r PendingReq.unavailable .timeout) := by
  obtain ⟨n', hn', hlive⟩ := h.waits (c, r) hw
  rw [hr] at hn'
  cases hn'
  obtain ⟨k, hk⟩ := isSome_iff_exists.mp (hlive hopen)
  obtain ⟨m, hd⟩ := h.live c k hk
  obtain ⟨l₁, l₂, rfl⟩ := append_of_mem ((hd.mem r).mpr ⟨hw, n, hr, hopen⟩)
  obtain ⟨hs, k', hk', hlinked, htail, hcount⟩ := unlinkPending_spec hk hd hr
  obtain ⟨m, hm, -, -⟩ := hs.reqs' hr
  have hset : Settles c (l₁ ++ r :: l₂) [r] (unlinkPending s c r)
      ((unlinkPending s c r).settle r unavailable .timeout) :=
    settles_settle hm rfl .timeout (by simp)
  have hboth := hs.trans hset
  have hperm : (l₁ ++ r :: l₂).Perm (r :: (l₁ ++ l₂)) := perm_middle
  have hnd := hperm.nodup_iff.mp hd.linked.nodup
  refine ⟨?_, _, hboth⟩
  apply h.settles hd hk (by simp) (nodup_singleton r) hboth
  · intro k'' hk''
    have heq := hk'.symm.trans hk''
    cases heq
    refine ⟨l₁ ++ l₂, ⟨linked_settle hm rfl .timeout hlinked, htail, hcount, fun q => ?_⟩⟩
    rw [hboth.waits_iff, ← hd.mem]
    exact mem_of_settled hnd hperm q
  · intro hnone
    have heq := hk'.symm.trans hnone
    cases heq

end Settling

/-! ### Waiters come and go -/

variable {n : PendingReq}

section Waiters

variable {c r : Nat} {s : Queues}

theorem QueuesInv.mem_settled (h : QueuesInv s) (hr : s.reqs r = some n) (hdone : n.done = true) :
    n.serial ∈ s.settled.map Prod.fst := by
  refine (h.settled n.serial).mpr ⟨h.made r n hr, ?_⟩
  rintro ⟨q, m, hm, hserial, hopen⟩
  obtain rfl := h.serials q m hm r n hr hserial
  rw [hr] at hm
  cases hm
  rw [hdone] at hopen
  cases hopen

/-- The sender may free a request that is done: no queue has it any more. -/
theorem QueuesInv.sendReturn (h : QueuesInv s) (hw : s.waiters = (c, r) :: ws)
    (hr : s.reqs r = some n) (hdone : n.done = true) : QueuesInv (sendReturn s) := by
  have hs : Portal.sendReturn s = { s with
      reqs := update s.reqs r none
      waiters := ws
      returned := s.returned ++ [(n.serial, n.rc)] } := by
    rw [Portal.sendReturn, hw]
    simp [hr]
  have hstack := h.stack
  rw [hw, map_cons, nodup_cons] at hstack
  have hkeep {q : Nat} (hq : q ≠ r) : update s.reqs r none q = s.reqs q := update_of_ne hq _ _
  have hne {q : Nat} {m : PendingReq} (hm : s.reqs q = some m) (hopen : m.done = false) :
      q ≠ r := by
    rintro rfl
    rw [hr] at hm
    cases hm
    rw [hdone] at hopen
    cases hopen
  have hold {q : Nat} {m : PendingReq} (hm : update s.reqs r none q = some m) :
      q ≠ r ∧ s.reqs q = some m := by
    by_cases hq : q = r
    · subst hq
      rw [update_self] at hm
      cases hm
    · exact ⟨hq, hkeep hq ▸ hm⟩
  rw [hs]
  exact {
    noFault := h.noFault
    live := by
      intro d k hk
      obtain ⟨l, hd⟩ := h.live d k hk
      refine ⟨l, ⟨hd.linked.congr fun q hq => ?_, hd.tail, hd.count, fun q => ?_⟩⟩
      · obtain ⟨-, m, hm, hopen⟩ := (hd.mem q).mp hq
        exact congrArg (Option.map PendingReq.next) (hkeep (hne hm hopen))
      rw [hd.mem]
      constructor
      · rintro ⟨hwait, m, hm, hopen⟩
        rw [hw] at hwait
        have hqr := hne hm hopen
        refine ⟨(mem_cons.mp hwait).resolve_left ?_, m, (hkeep hqr).trans hm, hopen⟩
        exact fun heq => hqr (mk.inj heq).2
      · rintro ⟨hwait, m, hm, hopen⟩
        exact ⟨hw ▸ mem_cons_of_mem _ hwait, m, (hold hm).2, hopen⟩
    waits := by
      intro x hx
      obtain ⟨m, hm, hlive⟩ := h.waits x (hw ▸ mem_cons_of_mem _ hx)
      have hxr : x.2 ≠ r := fun heq => hstack.1 (mem_map.mpr ⟨x, hx, heq⟩)
      exact ⟨m, (hkeep hxr).trans hm, hlive⟩
    held := by
      intro q m hm
      obtain ⟨hqr, hm⟩ := hold hm
      obtain ⟨d, hd⟩ := h.held q m hm
      rw [hw] at hd
      exact ⟨d, (mem_cons.mp hd).resolve_left fun heq => hqr (mk.inj heq).2⟩
    stack := hstack.2
    made := fun q m hm => h.made q m (hold hm).2
    serials := fun q m hm q' m' hm' => h.serials q m (hold hm).2 q' m' (hold hm').2
    once := h.once
    settled := by
      intro i
      rw [h.settled]
      refine and_congr_right fun _ => not_congr ?_
      constructor
      · rintro ⟨q, m, hm, hserial, hopen⟩
        exact ⟨q, m, (hkeep (hne hm hopen)).trans hm, hserial, hopen⟩
      · rintro ⟨q, m, hm, hserial, hopen⟩
        exact ⟨q, m, (hold hm).2, hserial, hopen⟩
    returned := by
      intro x hx
      rcases mem_append.mp hx with hx | hx
      · exact h.returned x hx
      · rw [mem_singleton.mp hx]
        exact h.mem_settled hr hdone }

theorem QueuesInv.opened (h : QueuesInv s) (hfree : s.conns c = none) :
    QueuesInv (s.setConn c (some .empty)) := by
  have hnobody {q : Nat} : ¬ Waits s c q := by
    rintro ⟨hwait, m, hm, hopen⟩
    obtain ⟨m', hm', hlive⟩ := h.waits _ hwait
    rw [hm] at hm'
    cases hm'
    have hsome := hlive hopen
    rw [hfree] at hsome
    cases hsome
  refine { h with live := fun d k hk => ?_, waits := fun x hx => ?_ }
  · by_cases hdc : d = c
    · subst hdc
      rw [conns_setConn] at hk
      cases hk
      exact ⟨[], ⟨.nil, rfl, rfl, fun q => ⟨by rintro ⟨⟩, fun hq => absurd hq hnobody⟩⟩⟩
    · rw [conns_setConn_of_ne hdc] at hk
      obtain ⟨l, hd⟩ := h.live d k hk
      exact ⟨l, ⟨hd.linked, hd.tail, hd.count, hd.mem⟩⟩
  obtain ⟨m, hm, hlive⟩ := h.waits x hx
  refine ⟨m, hm, fun hopen => ?_⟩
  by_cases hxc : x.1 = c
  · rw [hxc, conns_setConn]
    rfl
  · rw [conns_setConn_of_ne hxc]
    exact hlive hopen

/-- The request `r` is new in `s'` and waits on `c`, and in between links of the queue `old`
of that connection may have changed. -/
structure Adds (c r : Nat) (old : List Nat) (s s' : Queues) : Prop where
  fresh : s.reqs r = none
  self : ∃ n, s'.reqs r = some n ∧ n.serial = s.made ∧ n.done = false
  core : ∀ q ≠ r, (s'.reqs q).map (fun n => (n.serial, n.done)) =
    (s.reqs q).map fun n => (n.serial, n.done)
  next : ∀ q ≠ r, q ∉ old → (s'.reqs q).map PendingReq.next = (s.reqs q).map PendingReq.next
  conns : ∀ d ≠ c, s'.conns d = s.conns d
  waiters : s'.waiters = (c, r) :: s.waiters
  made : s'.made = s.made + 1
  fault : s'.fault = s.fault
  returned : s'.returned = s.returned
  settled : s'.settled.map Prod.fst = s.settled.map Prod.fst

section Adding

variable {old : List Nat} {s' : Queues}

section

variable (ha : Adds c r old s s')

include ha

theorem Adds.ne {q : Nat} (hn : s.reqs q = some n) : q ≠ r := by
  rintro rfl
  rw [ha.fresh] at hn
  cases hn

theorem Adds.forward {q : Nat} (hn : s.reqs q = some n) :
    ∃ n', s'.reqs q = some n' ∧ n'.serial = n.serial ∧ n'.done = n.done := by
  have hcore := ha.core q (ha.ne hn)
  rw [hn] at hcore
  obtain ⟨n', hn', heq⟩ := map_eq_some_iff.mp hcore
  exact ⟨n', hn', mk.inj heq⟩

theorem Adds.back {q : Nat} {n' : PendingReq}
    (hn' : s'.reqs q = some n') : (q = r ∧ n'.serial = s.made ∧ n'.done = false) ∨
      ∃ n, s.reqs q = some n ∧ n'.serial = n.serial ∧ n'.done = n.done := by
  by_cases hq : q = r
  · subst hq
    obtain ⟨n, hn, hserial, hdone⟩ := ha.self
    rw [hn'] at hn
    cases hn
    exact .inl ⟨rfl, hserial, hdone⟩
  · have hcore := ha.core q hq
    rw [hn'] at hcore
    obtain ⟨n, hn, heq⟩ := map_eq_some_iff.mp hcore.symm
    obtain ⟨hserial, hdone⟩ := mk.inj heq
    exact .inr ⟨n, hn, hserial.symm, hdone.symm⟩

theorem Adds.waits_iff (h : QueuesInv s) (d q : Nat) :
    Waits s' d q ↔ Waits s d q ∨ d = c ∧ q = r := by
  constructor
  · rintro ⟨hw, n', hn', hdone⟩
    rw [ha.waiters] at hw
    rcases mem_cons.mp hw with heq | hw
    · exact .inr (mk.inj heq)
    · obtain ⟨n, hn, -⟩ := h.waits _ hw
      obtain ⟨m, hm, -, hdone'⟩ := ha.forward hn
      rw [hn'] at hm
      cases hm
      exact .inl ⟨hw, n, hn, hdone'.symm.trans hdone⟩
  rintro (⟨hw, n, hn, hdone⟩ | ⟨rfl, rfl⟩)
  · obtain ⟨n', hn', -, hdone'⟩ := ha.forward hn
    exact ⟨ha.waiters ▸ mem_cons_of_mem _ hw, n', hn', hdone'.trans hdone⟩
  · obtain ⟨n, hn, -, hdone⟩ := ha.self
    exact ⟨ha.waiters ▸ mem_cons_self, n, hn, hdone⟩

theorem Adds.open_iff (i : Nat) : Open s' i ↔ Open s i ∨ i = s.made := by
  constructor
  · rintro ⟨q, n', hn', rfl, hdone⟩
    rcases ha.back hn' with ⟨-, hserial, -⟩ | ⟨n, hn, hserial, hdone'⟩
    · exact .inr hserial
    · exact .inl ⟨q, n, hn, hserial.symm, hdone'.symm.trans hdone⟩
  rintro (⟨q, n, hn, rfl, hdone⟩ | rfl)
  · obtain ⟨n', hn', hserial, hdone'⟩ := ha.forward hn
    exact ⟨q, n', hn', hserial, hdone'.trans hdone⟩
  · obtain ⟨n, hn, hserial, hdone⟩ := ha.self
    exact ⟨r, n, hn, hserial, hdone⟩

end

theorem QueuesInv.adds (h : QueuesInv s) {k k' : RxPending} (hd : Describes s c k old)
    (ha : Adds c r old s s') (hk' : s'.conns c = some k') (hd' : Describes s' c k' (old ++ [r])) :
    QueuesInv s' where
  noFault := ha.fault.trans h.noFault
  live d j hj := by
    by_cases hdc : d = c
    · subst hdc
      rw [hk'] at hj
      cases hj
      exact ⟨_, hd'⟩
    · rw [ha.conns d hdc] at hj
      obtain ⟨l, hl⟩ := h.live d j hj
      refine ⟨l, ⟨hl.linked.congr fun q hq => ?_, hl.tail, hl.count, fun q => ?_⟩⟩
      · obtain ⟨hw, n, hn, -⟩ := (hl.mem q).mp hq
        exact ha.next q (ha.ne hn) fun hold => hdc (h.conn_eq hw ((hd.mem q).mp hold).1)
      · rw [ha.waits_iff h, hl.mem]
        simp [hdc]
  waits x hx := by
    rw [ha.waiters] at hx
    rcases mem_cons.mp hx with rfl | hx
    · obtain ⟨n, hn, -⟩ := ha.self
      exact ⟨n, hn, fun _ => by rw [hk']; rfl⟩
    · obtain ⟨n, hn, hlive⟩ := h.waits x hx
      obtain ⟨n', hn', -, hdone⟩ := ha.forward hn
      refine ⟨n', hn', fun hopen => ?_⟩
      by_cases hxc : x.1 = c
      · rw [hxc, hk']
        rfl
      · rw [ha.conns x.1 hxc]
        exact hlive (hdone.symm.trans hopen)
  held q n' hn' := by
    rw [ha.waiters]
    rcases ha.back hn' with ⟨rfl, -⟩ | ⟨n, hn, -⟩
    · exact ⟨c, mem_cons_self⟩
    · obtain ⟨d, hw⟩ := h.held q n hn
      exact ⟨d, mem_cons_of_mem _ hw⟩
  stack := by
    rw [ha.waiters, map_cons, nodup_cons]
    refine ⟨fun hmem => ?_, h.stack⟩
    obtain ⟨x, hx, heq⟩ := mem_map.mp hmem
    obtain ⟨n, hn, -⟩ := h.waits x hx
    exact ha.ne hn heq
  made q n' hn' := by
    rw [ha.made]
    rcases ha.back hn' with ⟨-, hserial, -⟩ | ⟨n, hn, hserial, -⟩
    · rw [hserial]
      exact Nat.lt_succ_self _
    · rw [hserial]
      exact Nat.lt_succ_of_lt (h.made q n hn)
  serials q n' hn' q' m' hm' heq := by
    rcases ha.back hn' with ⟨rfl, hserial, -⟩ | ⟨n, hn, hserial, -⟩ <;>
      rcases ha.back hm' with ⟨rfl, hserial', -⟩ | ⟨m, hm, hserial', -⟩
    · rfl
    · have hlt := h.made q' m hm
      omega
    · have hlt := h.made q n hn
      omega
    · exact h.serials q n hn q' m hm (by rw [← hserial, ← hserial', heq])
  once := ha.settled ▸ h.once
  settled i := by
    rw [ha.settled, h.settled, ha.made, ha.open_iff]
    constructor
    · rintro ⟨hlt, hclosed⟩
      exact ⟨Nat.lt_succ_of_lt hlt, fun ho => ho.elim hclosed (Nat.ne_of_lt hlt)⟩
    · rintro ⟨hlt, hclosed⟩
      obtain ⟨hclosed, hne⟩ := not_or.mp hclosed
      exact ⟨Nat.lt_of_le_of_ne (Nat.le_of_lt_succ hlt) hne, hclosed⟩
  returned x hx := by
    rw [ha.settled]
    exact h.returned x (ha.returned ▸ hx)

end Adding

/-- A new request goes behind the open ones of its connection. -/
theorem QueuesInv.peerSendWait (h : QueuesInv s) (hlive : (s.conns c).isSome)
    (hfree : s.reqs r = none) (resp : PortalResp) (deadlineUs : Nat) :
    QueuesInv (peerSendWait s c r resp deadlineUs) := by
  obtain ⟨k, hk⟩ := isSome_iff_exists.mp hlive
  obtain ⟨m, hd⟩ := h.live c k hk
  set t : Queues := { s with
    reqs := update s.reqs r (some ⟨none, resp, deadlineUs, false, -1, s.made⟩)
    waiters := (c, r) :: s.waiters
    made := s.made + 1 } with ht
  have hr : t.reqs r = some ⟨none, resp, deadlineUs, false, -1, s.made⟩ := update_self ..
  have hkeep {q : Nat} (hq : q ≠ r) : t.reqs q = s.reqs q := update_of_ne hq _ _
  have hnew {q : Nat} (hq : q ∈ m) : q ≠ r := by
    rintro rfl
    obtain ⟨n, hn⟩ := hd.linked.node hq
    rw [hfree] at hn
    cases hn
  obtain ⟨hs, hset, hrest⟩ := @setLink_spec c m t k.pendingTail (some r) fun o ho => by
    have hmem : o ∈ m := mem_of_getLast? (hd.tail.symm.trans ho)
    obtain ⟨n, hn⟩ := hd.linked.node hmem
    exact ⟨hmem, n, (hkeep (hnew hmem)).trans hn⟩
  rw [Portal.peerSendWait, hk]
  change QueuesInv ((t.setLink k.pendingTail (some r)).setConn c _)
  generalize t.setLink k.pendingTail (some r) = u at hs hset hrest
  have ha (k' : RxPending) : Adds c r m s (u.setConn c (some k')) := by
    refine ⟨hfree, ?_, fun q hq => ?_, fun q hq hqm => ?_, fun d hdc => ?_, hs.waiters, hs.made,
      hs.fault, hs.returned, ?_⟩
    · obtain ⟨n, hn, hserial, hdone⟩ := hs.reqs' hr
      exact ⟨n, hn, hserial, hdone.trans (by simp)⟩
    · have hcore := hs.core q
      simp only [not_mem_nil, decide_false, Bool.or_false] at hcore
      rw [← hkeep hq]
      exact hcore
    · rw [← hkeep hq]
      exact hs.next q hqm
    · rw [conns_setConn_of_ne hdc]
      exact hs.conns d hdc
    · have hsettled := hs.settled
      rwa [filterMap_nil, append_nil] at hsettled
  apply h.adds hd (ha _) (conns_setConn ..)
  refine ⟨?_, ?_, ?_, fun q => ?_⟩
  · have htail : k.pendingTail ≠ some r := fun heq =>
      hnew (mem_of_getLast? (hd.tail.symm.trans heq)) rfl
    have hhead : (if k.pendingTail.isSome then k.pendingHead else some r) =
        k.pendingHead.or (some r) := by
      rw [hd.tail, hd.linked.head]
      cases m <;> simp
    change Linked _ u.reqs (if k.pendingTail.isSome then k.pendingHead else some r) _
    rw [hhead]
    apply hd.linked.append
    · exact fun a hlast => hset a (hd.tail.trans hlast)
    · intro a hmem hlast
      rw [hrest a fun heq => hlast (hd.tail.symm.trans heq), hkeep (hnew hmem)]
    · rw [hrest r htail, hr]
      rfl
  · simp
  · simp [hd.count]
  · rw [(ha _).waits_iff h, ← hd.mem]
    simp

end Waiters

/-! ### Runs -/

theorem sendReturn_cons (hw : s.waiters = (c, r) :: ws) :
    (sendReturn s).waiters = ws ∧ (sendReturn s).settled = s.settled := by
  rw [sendReturn, hw]
  exact ⟨rfl, rfl⟩

/-- The innermost waiter goes on waiting, or returns with its request settled. -/
theorem QueuesInv.pendingWait (h : QueuesInv s) (hw : s.waiters = (c, r) :: ws)
    (hr : s.reqs r = some n) (now : Nat) :
    QueuesInv (pendingWait s now) ∧ (n.deadlineUs ≤ now → (pendingWait s now).waiters = ws ∧
      n.serial ∈ (pendingWait s now).settled.map Prod.fst) := by
  rw [Portal.pendingWait, hw]
  simp only [hr]
  split
  · rename_i hdone
    obtain ⟨hws, hsettled⟩ := sendReturn_cons hw
    rw [hws, hsettled]
    exact ⟨h.sendReturn hw hr hdone, fun _ => ⟨rfl, h.mem_settled hr hdone⟩⟩
  rename_i hopen
  split
  · obtain ⟨hinv, old, hs⟩ := h.expire (hw ▸ mem_cons_self) hr (Bool.eq_false_iff.mpr hopen)
    obtain ⟨n', hn', hserial, hdone⟩ := hs.reqs' hr
    have hdone : n'.done = true := by simpa using hdone
    have hw' := hs.waiters.trans hw
    obtain ⟨hws, hsettled⟩ := sendReturn_cons hw'
    rw [hws, hsettled, ← hserial]
    exact ⟨hinv.sendReturn hw' hn' hdone, fun _ => ⟨rfl, hinv.mem_settled hn' hdone⟩⟩
  · rename_i hlate
    exact ⟨h, fun hle => absurd hle hlate⟩

theorem queuesInv_step (h : QueuesInv s) (e : QueueEvent) (he : Happens s e) :
    QueuesInv (queueStep s e) := by
  cases e with
  | opened c => exact h.opened he
  | send c r resp deadlineUs => exact h.peerSendWait he.1 he.2 resp deadlineUs
  | frame c decoded => exact h.onResponse he decoded
  | writeFailed c => exact h.fdStateFailPending he
  | teardown c => exact h.rxFree he
  | turn now =>
    change QueuesInv (pendingWait s now)
    cases hw : s.waiters with
    | nil =>
      rw [pendingWait, hw]
      exact h
    | cons x ws =>
      obtain ⟨n, hn, -⟩ := h.waits x (hw ▸ mem_cons_self)
      exact (h.pendingWait hw hn now).1

theorem QueuesInv.right (h : QueuesInv s) : QueuesRight s := by
  have hqueue {c : Nat} {l : List Nat} (hl : InQueue s c l) : ∃ k, Describes s c k l := by
    obtain ⟨k, hk, hl⟩ := hl
    obtain ⟨m, hd⟩ := h.live c k hk
    exact ⟨k, hl.unique hd.linked ▸ hd⟩
  refine ⟨h.noFault, ?_, ?_, ?_, ⟨h.once, h.settled⟩, h.returned, ?_⟩
  · intro r n hr hopen
    obtain ⟨c, hw⟩ := h.held r n hr
    obtain ⟨n', hn', hlive⟩ := h.waits (c, r) hw
    rw [hr] at hn'
    cases hn'
    obtain ⟨k, hk⟩ := isSome_iff_exists.mp (hlive hopen)
    obtain ⟨l, hd⟩ := h.live c k hk
    refine ⟨c, ⟨l, ⟨k, hk, hd.linked⟩, (hd.mem r).mpr ⟨hw, n, hr, hopen⟩⟩, ?_⟩
    rintro d ⟨m, hm, hrm⟩
    obtain ⟨k', hd'⟩ := hqueue hm
    exact h.conn_eq ((hd'.mem r).mp hrm).1 hw
  · intro c k hk
    obtain ⟨l, hd⟩ := h.live c k hk
    refine ⟨l, ⟨k, hk, hd.linked⟩, hd.tail, ?_, hd.count⟩
    rw [hd.tail, getLast?_eq_none_iff]
  · intro c l hl r hr
    obtain ⟨k, hd⟩ := hqueue hl
    exact (hd.mem r).mp hr
  · intro c r ws n now hw hr hle
    exact (h.pendingWait hw hr now).2 hle

/-- In every run, with any number of connections and any nesting of waiters, the queues are
intact. -/
theorem queues_right (es : List QueueEvent) (h : Along queueStep Happens .initial es) :
    QueuesRight (run queueStep .initial es) :=
  QueuesInv.right (Along.invariant
    (fun s e (hs : QueuesInv s) he => queuesInv_step hs e he) queuesInv_initial h)

/-- Two nested requests on one connection: the outer one is answered, the inner one times
out, and both return. -/
def nestedEvents : List QueueEvent :=
  [.opened 1, .send 1 10 .zero 100, .send 1 11 .zero 50, .frame 1 (some .zero), .turn 60, .turn 60,
    .teardown 1]

theorem queues_right_nestedEvents :
    (run queueStep .initial nestedEvents).settled = [(0, .response), (1, .timeout)] ∧
      (run queueStep .initial nestedEvents).returned = [(1, -1), (0, 0)] ∧
      QueuesRight (run queueStep .initial nestedEvents) := by
  refine ⟨by decide +kernel, by decide +kernel, queues_right nestedEvents ?_⟩
  refine ⟨rfl, ⟨rfl, rfl⟩, ⟨rfl, rfl⟩, rfl, trivial, trivial, rfl, trivial⟩

end Portal
