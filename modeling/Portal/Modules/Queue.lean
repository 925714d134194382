import Portal.Core.Message
import Portal.Lib.Runs
import Portal.Lib.Slots

/-!
The message queues of `mod_queue`. An entry holds 63 bytes of a queue's name, and is found by
comparing the whole of it. An item is a copy of a C string: the data header, or the body, which has
no terminator of its own, so that the memory behind it is an argument.

What the queues are for is a ledger of what was pushed to each of them and popped since its
creation; `Delivers` says that the items of a queue are what is still to come.
-/

namespace Portal.MessageQueue

open List Runs Slots Option Function

/-! ### The module -/

def queueMaxQueues : Nat := 64
def queueMaxDepth : Int := 10000

/-- `named_queue_t`, with its items from the head on. -/
structure NamedQueue where
  name : CStr
  items : List CStr
  depth : Int
  maxDepth : Int
  pushed : Int
  popped : Int
  active : Bool
deriving DecidableEq

/-- The first `g_count` entries of `g_queues`. -/
structure Queues where
  queues : List NamedQueue
  defaultDepth : Int
deriving DecidableEq

def queueLoad (maxDepth : Option CStr) : Queues :=
  ⟨[], maxDepth.elim queueMaxDepth fun v => atoi v.bytes⟩

structure QueueReply where
  status : PortalStatus
  rc : Int
  item : Option CStr
deriving DecidableEq

def QueueReply.fail (status : PortalStatus) : QueueReply := ⟨status, -1, none⟩

def QueueReply.done (status : PortalStatus) : QueueReply := ⟨status, 0, none⟩

def NamedQueue.isNamed (name : CStr) (q : NamedQueue) : Bool := q.active && q.name = name

def findQueue (queues : List NamedQueue) (name : CStr) : Option (Nat × NamedQueue) :=
  (queues.findIdx? (NamedQueue.isNamed name)).bind fun i => queues[i]?.map fun q => (i, q)

def queueCreate (s : Queues) (msg : ModMsg) : Queues × QueueReply :=
  match msg.hdr "name" with
  | none => (s, .fail .badRequest)
  | some name =>
    if (findQueue s.queues name).isSome ∨ queueMaxQueues ≤ s.queues.length then
      (s, .fail .conflict)
    else
      ({ s with queues := s.queues ++ [⟨name.truncate 63, [], 0, s.defaultDepth, 0, 0, true⟩] },
        .done .created)

/-- What a push copies: the data header, or the body and what follows it up to a NUL. -/
def pushData (behind : Bytes) (msg : ModMsg) : Option CStr :=
  match msg.hdr "data" with
  | some data => some data
  | none => if msg.body = [] then none else some (.ofBytes (msg.body ++ behind))

def NamedQueue.push (q : NamedQueue) (data : CStr) : NamedQueue :=
  { q with items := q.items ++ [data], depth := q.depth + 1, pushed := q.pushed + 1 }

def queuePush (s : Queues) (behind : Bytes) (msg : ModMsg) : Queues × QueueReply :=
  match msg.hdr "name", pushData behind msg with
  | some name, some data =>
    match findQueue s.queues name with
    | none => (s, .fail .notFound)
    | some (i, q) =>
      if q.maxDepth ≤ q.depth then (s, .fail .conflict)
      else ({ s with queues := s.queues.set i (q.push data) }, .done .ok)
  | _, _ => (s, .fail .badRequest)

def NamedQueue.pop (q : NamedQueue) (rest : List CStr) : NamedQueue :=
  { q with items := rest, depth := q.depth - 1, popped := q.popped + 1 }

def queuePop (s : Queues) (msg : ModMsg) : Queues × QueueReply :=
  match msg.hdr "name" with
  | none => (s, .fail .badRequest)
  | some name =>
    match findQueue s.queues name with
    | none => (s, .fail .notFound)
    | some (i, q) =>
      match q.items with
      | [] => (s, .done .ok)
      | item :: rest => ({ s with queues := s.queues.set i (q.pop rest) }, ⟨.ok, 0, some item⟩)

def queuePeek (s : Queues) (msg : ModMsg) : Queues × QueueReply :=
  match msg.hdr "name" with
  | none => (s, .fail .badRequest)
  | some name =>
    match findQueue s.queues name with
    | none => (s, .fail .notFound)
    | some (_, q) => (s, ⟨.ok, 0, q.items.head?⟩)

/-- The items are freed, and the entry is not used again. -/
def NamedQueue.destroy (q : NamedQueue) : NamedQueue := { q with items := [], active := false }

def queueDestroy (s : Queues) (msg : ModMsg) : Queues × QueueReply :=
  match msg.hdr "name" with
  | none => (s, .fail .badRequest)
  | some name =>
    match findQueue s.queues name with
    | none => (s, .fail .notFound)
    | some (i, q) => ({ s with queues := s.queues.set i q.destroy }, .done .ok)

inductive QueueOp where
  | status | list | create | push | pop | peek | destroy | unknown
deriving DecidableEq

def queueOp (path : CStr) : QueueOp :=
  if path = .lit "/queue/resources/status" then .status
  else if path = .lit "/queue/resources/list" then .list
  else if path = .lit "/queue/functions/create" then .create
  else if path = .lit "/queue/functions/push" then .push
  else if path = .lit "/queue/functions/pop" then .pop
  else if path = .lit "/queue/functions/peek" then .peek
  else if path = .lit "/queue/functions/destroy" then .destroy
  else .unknown

/-- `portal_module_handle`, with the memory behind the body of the message. -/
def queueHandle (s : Queues) (behind : Bytes) (msg : ModMsg) : Queues × QueueReply :=
  match queueOp msg.path with
  | .status | .list => (s, .done .ok)
  | .create => queueCreate s msg
  | .push => queuePush s behind msg
  | .pop => queuePop s msg
  | .peek => queuePeek s msg
  | .destroy => queueDestroy s msg
  | .unknown => (s, .fail .notFound)

/-! ### The ledger -/

structure Ledger where
  pushed : List Bytes
  popped : List Bytes
deriving DecidableEq

abbrev Ledgers := CStr → Option Ledger

def pushBody (msg : ModMsg) : Bytes := (msg.hdr "data").elim msg.body CStr.bytes

def ledgerPop (ledgers : Ledgers) (name : CStr) : Option CStr → Ledgers
  | none => ledgers
  | some item =>
    Function.update ledgers name
      ((ledgers name).map fun l => { l with popped := l.popped ++ [item.bytes] })

def ledgerStep (ledgers : Ledgers) (name : CStr) (msg : ModMsg) (r : QueueReply) : Ledgers :=
  match queueOp msg.path with
  | .create =>
    if r.status = .created then Function.update ledgers name (some ⟨[], []⟩) else ledgers
  | .push =>
    if r.status = .ok then
      Function.update ledgers name
        ((ledgers name).map fun l => { l with pushed := l.pushed ++ [pushBody msg] })
    else ledgers
  | .pop => ledgerPop ledgers name r.item
  | .destroy => if r.status = .ok then Function.update ledgers name none else ledgers
  | .status | .list | .peek | .unknown => ledgers

def queueStep (x : Queues × Ledgers) (e : Bytes × ModMsg) : Queues × Ledgers :=
  let r := queueHandle x.1 e.1 e.2
  (r.1, (e.2.hdr "name").elim x.2 fun name => ledgerStep x.2 name e.2 r.2)

/-- Every queue that was created, and not destroyed since, is found by its name, and what was
popped from it and what it still holds is what was pushed. -/
def Delivers (x : Queues × Ledgers) : Prop :=
  ∀ name l, x.2 name = some l →
    ∃ i q, findQueue x.1.queues name = some (i, q) ∧ l.popped ++ q.items.map CStr.bytes = l.pushed

/-- A queue that is created has a name that fits its entry, and a body that is pushed is a C
string, with its terminator behind it. -/
def Storable (x : Queues × Ledgers) (e : Bytes × ModMsg) : Prop :=
  ∀ name, e.2.hdr "name" = some name →
    (queueOp e.2.path = .create → findQueue x.1.queues name = none →
      x.1.queues.length < queueMaxQueues → name.bytes.length ≤ 63) ∧
    (queueOp e.2.path = .push → e.2.hdr "data" = none → e.2.body ≠ [] →
      ((findQueue x.1.queues name).any fun found => found.2.depth < found.2.maxDepth) = true →
      (0 : UInt8) ∉ e.2.body ∧ cText e.1 = [])

/-! ### The table -/

def NamedQueue.view (q : NamedQueue) : Option (CStr × List CStr) :=
  if q.active then some (q.name, q.items) else none

structure Queues.Holds (s : Queues) (held : CStr → Option (List CStr)) : Prop where
  represents : Represents (contents NamedQueue.view s.queues) held
  names : ∀ q ∈ s.queues, q.name.bytes.length ≤ 63

section Table

variable {s : Queues} {held : CStr → Option (List CStr)} {name : CStr} {i : Nat} {q : NamedQueue}

open NamedQueue

theorem findQueue_eq_some (h : findQueue s.queues name = some (i, q)) :
    s.queues[i]? = some q ∧ q.active = true ∧ q.name = name := by
  obtain ⟨j, hj, hq⟩ := bind_eq_some_iff.mp h
  obtain ⟨q', hq', heq⟩ := map_eq_some_iff.mp hq
  cases heq
  obtain ⟨hlt, hnamed, -⟩ := findIdx?_eq_some_iff_getElem.mp hj
  rw [getElem?_eq_getElem hlt, some.injEq] at hq'
  rw [isNamed, Bool.and_eq_true, decide_eq_true_eq, hq'] at hnamed
  exact ⟨hq' ▸ getElem?_eq_getElem hlt, hnamed⟩

theorem view_of_active (hactive : q.active = true) : q.view = some (q.name, q.items) :=
  if_pos hactive

section

variable (h : s.Holds held)

include h

theorem Queues.Holds.found (hfind : findQueue s.queues name = some (i, q)) :
    contents NamedQueue.view s.queues i = some (name, q.items) ∧ held name = some q.items := by
  obtain ⟨hi, hactive, rfl⟩ := findQueue_eq_some hfind
  have hslot : contents view s.queues i = some (q.name, q.items) := by
    rw [contents, hi]
    exact view_of_active hactive
  exact ⟨hslot, h.represents.mem.mpr ⟨i, hslot⟩⟩

theorem Queues.Holds.absent (hfind : findQueue s.queues name = none) : held name = none := by
  refine h.represents.eq_none ?_
  intro j items hj
  obtain ⟨q, hq, hview⟩ := bind_eq_some_iff.mp hj
  unfold view at hview
  split at hview
  · rename_i hactive
    obtain ⟨hname, -⟩ := Prod.mk.inj (some.inj hview)
    cases hidx : s.queues.findIdx? (isNamed name) with
    | none =>
      have hnot := findIdx?_eq_none_iff.mp hidx q (mem_of_getElem? hq)
      simp [isNamed, hactive, hname] at hnot
    | some k =>
      obtain ⟨hlt, -⟩ := findIdx?_eq_some_iff_getElem.mp hidx
      rw [findQueue, hidx, bind_some, getElem?_eq_getElem hlt] at hfind
      cases hfind
  · cases hview

theorem Queues.Holds.find {items : List CStr} (hheld : held name = some items) :
    ∃ i q, findQueue s.queues name = some (i, q) ∧ q.items = items := by
  cases hfind : findQueue s.queues name with
  | none =>
    rw [h.absent hfind] at hheld
    cases hheld
  | some found =>
    obtain ⟨i, q⟩ := found
    refine ⟨i, q, rfl, ?_⟩
    rw [(h.found hfind).2] at hheld
    exact some.inj hheld

theorem Queues.Holds.append (hfind : findQueue s.queues name = none)
    (hfits : name.bytes.length ≤ 63) :
    Queues.Holds
      { s with queues := s.queues ++ [⟨name.truncate 63, [], 0, s.defaultDepth, 0, 0, true⟩] }
      (update held name (some [])) where
  represents := by
    rw [CStr.truncate_eq_self hfits, contents_append]
    exact h.represents.insert (contents_length _ _) (h.absent hfind) []
  names := forall_mem_append.mpr
    ⟨h.names, forall_mem_singleton.mpr (length_take_le _ _)⟩

theorem Queues.Holds.set (hfind : findQueue s.queues name = some (i, q))
    {q' : NamedQueue} (hname : q'.name = q.name) (hactive : q'.active = q.active) :
    Queues.Holds { s with queues := s.queues.set i q' }
      (update held name (some q'.items)) := by
  obtain ⟨hi, hactive', hname'⟩ := findQueue_eq_some hfind
  obtain ⟨hlt, -⟩ := List.getElem?_eq_some_iff.mp hi
  constructor
  · have hrep := h.represents.replace (h.found hfind).1 (.inl rfl) q'.items
    rw [update_idem] at hrep
    rw [contents_set _ hlt, view_of_active (hactive.trans hactive'), hname, hname']
    exact hrep
  intro u hu
  rcases mem_or_eq_of_mem_set hu with hu | rfl
  · exact h.names u hu
  · rw [hname]
    exact h.names q (mem_of_getElem? hi)

theorem Queues.Holds.destroy (hfind : findQueue s.queues name = some (i, q)) :
    Queues.Holds { s with queues := s.queues.set i q.destroy }
      (update held name none) := by
  obtain ⟨hi, -⟩ := findQueue_eq_some hfind
  obtain ⟨hlt, -⟩ := List.getElem?_eq_some_iff.mp hi
  constructor
  · rw [contents_set _ hlt]
    exact h.represents.erase (h.found hfind).1
  intro u hu
  rcases mem_or_eq_of_mem_set hu with hu | rfl
  · exact h.names u hu
  · exact h.names q (mem_of_getElem? hi)

end

end Table

/-! ### The table against the ledger -/

def Agrees : Option (List CStr) → Option Ledger → Prop
  | none, none => True
  | some items, some l => l.popped ++ items.map CStr.bytes = l.pushed
  | _, _ => False

def Kept (x : Queues × Ledgers) : Prop :=
  ∃ held, x.1.Holds held ∧ ∀ name, Agrees (held name) (x.2 name)

section Operations

variable {s : Queues} {ledgers : Ledgers} {msg : ModMsg} {behind : Bytes} {name : CStr}

theorem agrees_update {held : CStr → Option (List CStr)} (h : ∀ n, Agrees (held n) (ledgers n))
    {items : Option (List CStr)} {l : Option Ledger} (hl : Agrees items l) (n : CStr) :
    Agrees (update held name items n) (update ledgers name l n) := by
  by_cases hn : n = name
  · subst hn
    rw [update_self, update_self]
    exact hl
  · rw [update_of_ne hn, update_of_ne hn]
    exact h n

theorem agrees_some {items : List CStr} {l : Option Ledger} (h : Agrees (some items) l) :
    ∃ l', l = some l' ∧ l'.popped ++ items.map CStr.bytes = l'.pushed := by
  cases l with
  | none => exact h.elim
  | some l' => exact ⟨l', rfl, h⟩

theorem Kept.delivers {x : Queues × Ledgers} (h : Kept x) : Delivers x := by
  obtain ⟨held, hholds, hagree⟩ := h
  intro name l hl
  have hname := hagree name
  rw [hl] at hname
  cases hheld : held name with
  | none =>
    rw [hheld] at hname
    exact hname.elim
  | some items =>
    obtain ⟨i, q, hfind, rfl⟩ := hholds.find hheld
    rw [hheld] at hname
    exact ⟨i, q, hfind, hname⟩

theorem queueCreate_eq (s : Queues) (hname : msg.hdr "name" = some name) :
    queueCreate s msg =
      if (findQueue s.queues name).isSome ∨ queueMaxQueues ≤ s.queues.length then
        (s, .fail .conflict)
      else
        ({ s with queues := s.queues ++ [⟨name.truncate 63, [], 0, s.defaultDepth, 0, 0, true⟩] },
          .done .created) := by
  rw [queueCreate, hname]

open QueueReply

theorem Kept.create (h : Kept (s, ledgers)) (hname : msg.hdr "name" = some name)
    (hfits : findQueue s.queues name = none → s.queues.length < queueMaxQueues →
      name.bytes.length ≤ 63) :
    Kept ((queueCreate s msg).1, if (queueCreate s msg).2.status = .created then
      update ledgers name (some ⟨[], []⟩) else ledgers) := by
  obtain ⟨held, hholds, hagree⟩ := h
  rw [queueCreate_eq s hname]
  by_cases hrefused : (findQueue s.queues name).isSome ∨ queueMaxQueues ≤ s.queues.length
  · simp only [if_pos hrefused, fail, reduceCtorEq, if_false]
    exact ⟨held, hholds, hagree⟩
  · simp only [if_neg hrefused, done, if_true]
    rw [not_or, Option.not_isSome_iff_eq_none, not_le] at hrefused
    obtain ⟨hfind, hroom⟩ := hrefused
    exact ⟨_, hholds.append hfind (hfits hfind hroom), agrees_update hagree rfl⟩

theorem queuePush_cases (s : Queues) (behind : Bytes) (hname : msg.hdr "name" = some name) :
    (∃ status, status ≠ .ok ∧ queuePush s behind msg = (s, .fail status)) ∨
      ∃ data i q, pushData behind msg = some data ∧ findQueue s.queues name = some (i, q) ∧
        q.depth < q.maxDepth ∧ queuePush s behind msg =
          ({ s with queues := s.queues.set i (q.push data) }, .done .ok) := by
  simp only [queuePush, hname]
  cases hdata : pushData behind msg with
  | none => exact .inl ⟨.badRequest, by decide, rfl⟩
  | some data =>
    dsimp only
    cases hfind : findQueue s.queues name with
    | none => exact .inl ⟨.notFound, by decide, rfl⟩
    | some found =>
      obtain ⟨i, q⟩ := found
      dsimp only
      split
      · exact .inl ⟨.conflict, by decide, rfl⟩
      · rename_i hroom
        exact .inr ⟨data, i, q, rfl, rfl, not_le.mp hroom, rfl⟩

theorem Kept.push (h : Kept (s, ledgers)) (hname : msg.hdr "name" = some name)
    (hwhole : ∀ data i q, pushData behind msg = some data →
      findQueue s.queues name = some (i, q) → q.depth < q.maxDepth → data.bytes = pushBody msg) :
    Kept ((queuePush s behind msg).1, if (queuePush s behind msg).2.status = .ok then
      update ledgers name
        ((ledgers name).map fun l => { l with pushed := l.pushed ++ [pushBody msg] })
      else ledgers) := by
  obtain ⟨held, hholds, hagree⟩ := h
  rcases queuePush_cases s behind hname with ⟨status, hstatus, heq⟩ |
    ⟨data, i, q, hdata, hfind, hroom, heq⟩
  · simp only [heq, fail, hstatus, if_false]
    exact ⟨held, hholds, hagree⟩
  · simp only [heq, done, if_true]
    have hname' := hagree name
    rw [(hholds.found hfind).2] at hname'
    obtain ⟨l, hl, hitems⟩ := agrees_some hname'
    refine ⟨_, hholds.set hfind rfl rfl, agrees_update hagree ?_⟩
    rw [show ledgers name = some l from hl, map_some]
    simp only [Agrees, NamedQueue.push, map_append, map_singleton,
      hwhole data i q hdata hfind hroom]
    rw [← append_assoc, hitems]

theorem queuePop_cases (s : Queues) (hname : msg.hdr "name" = some name) :
    ((queuePop s msg).1 = s ∧ (queuePop s msg).2.item = none) ∨
      ∃ i q item rest, findQueue s.queues name = some (i, q) ∧ q.items = item :: rest ∧
        queuePop s msg =
          ({ s with queues := s.queues.set i (q.pop rest) }, ⟨.ok, 0, some item⟩) := by
  simp only [queuePop, hname]
  cases hfind : findQueue s.queues name with
  | none => exact .inl ⟨rfl, rfl⟩
  | some found =>
    obtain ⟨i, q⟩ := found
    dsimp only
    cases hitems : q.items with
    | nil => exact .inl ⟨rfl, rfl⟩
    | cons item rest => exact .inr ⟨i, q, item, rest, rfl, hitems, rfl⟩

theorem Kept.pop (h : Kept (s, ledgers)) (hname : msg.hdr "name" = some name) :
    Kept ((queuePop s msg).1, ledgerPop ledgers name (queuePop s msg).2.item) := by
  obtain ⟨held, hholds, hagree⟩ := h
  rcases queuePop_cases s hname with ⟨hsame, hnone⟩ | ⟨i, q, item, rest, hfind, hitems, heq⟩
  · rw [hsame, hnone]
    exact ⟨held, hholds, hagree⟩
  · rw [heq]
    have hname' := hagree name
    rw [(hholds.found hfind).2] at hname'
    obtain ⟨l, hl, hledger⟩ := agrees_some hname'
    refine ⟨_, hholds.set hfind rfl rfl, agrees_update hagree ?_⟩
    rw [show ledgers name = some l from hl, map_some]
    rw [hitems, map_cons] at hledger
    simp only [Agrees, append_assoc, singleton_append]
    exact hledger

theorem queuePeek_queues (s : Queues) (msg : ModMsg) : (queuePeek s msg).1 = s := by
  unfold queuePeek
  split
  · rfl
  · split <;> rfl

theorem Kept.destroy (h : Kept (s, ledgers)) (hname : msg.hdr "name" = some name) :
    Kept ((queueDestroy s msg).1, if (queueDestroy s msg).2.status = .ok then
      update ledgers name none else ledgers) := by
  obtain ⟨held, hholds, hagree⟩ := h
  cases hfind : findQueue s.queues name with
  | none =>
    simp only [queueDestroy, hname, hfind, fail, reduceCtorEq, if_false]
    exact ⟨held, hholds, hagree⟩
  | some found =>
    simp only [queueDestroy, hname, hfind, done, if_true]
    exact ⟨_, hholds.destroy hfind, agrees_update hagree trivial⟩

theorem queueHandle_noName (s : Queues) (behind : Bytes) (hname : msg.hdr "name" = none) :
    (queueHandle s behind msg).1 = s := by
  simp only [queueHandle, queueCreate, queuePush, queuePop, queuePeek, queueDestroy, hname]
  cases queueOp msg.path <;> rfl

theorem pushData_eq {data : CStr} (h : pushData behind msg = some data) :
    data.bytes = pushBody msg ↔
      (msg.hdr "data" = none → msg.body ≠ [] → (0 : UInt8) ∉ msg.body ∧ cText behind = []) := by
  unfold pushData at h
  unfold pushBody
  cases hdata : msg.hdr "data" with
  | some d =>
    rw [hdata] at h
    obtain rfl := some.inj h
    simp
  | none =>
    simp only [hdata] at h
    split at h
    · cases h
    rename_i hbody
    obtain rfl := some.inj h
    simp only [CStr.ofBytes, elim_none, forall_const, hbody, ne_eq, not_false_eq_true]
    by_cases hnul : (0 : UInt8) ∈ msg.body
    · rw [cText_append_of_mem hnul]
      refine iff_of_false (fun heq => ?_) fun hcontra => hcontra.1 hnul
      exact nul_notMem_cText msg.body (heq.symm ▸ hnul)
    · rw [cText_append_of_notMem hnul]
      simp [hnul]

end Operations

section Histories

variable {x : Queues × Ledgers} {behind : Bytes} {msg : ModMsg} {name : CStr}

theorem queueStep_noName (x : Queues × Ledgers) (behind : Bytes) (hname : msg.hdr "name" = none) :
    queueStep x (behind, msg) = x := by
  rw [queueStep, queueHandle_noName x.1 behind hname, hname]
  rfl

theorem queueStep_eq (x : Queues × Ledgers) (behind : Bytes) (hname : msg.hdr "name" = some name) :
    queueStep x (behind, msg) = ((queueHandle x.1 behind msg).1,
      ledgerStep x.2 name msg (queueHandle x.1 behind msg).2) := by
  rw [queueStep, hname]
  rfl

theorem Kept.step (h : Kept x) (hs : Storable x (behind, msg)) :
    Kept (queueStep x (behind, msg)) := by
  cases hname : msg.hdr "name" with
  | none =>
    rw [queueStep_noName x behind hname]
    exact h
  | some name =>
    obtain ⟨hcreate, hpush⟩ := hs name hname
    rw [queueStep_eq x behind hname, queueHandle, ledgerStep]
    cases hop : queueOp msg.path with
    | status | list | unknown => exact h
    | create => exact h.create hname (hcreate hop)
    | push =>
      refine h.push hname fun data i q hdata hfind hroom => (pushData_eq hdata).mpr ?_
      intro hnone hbody
      refine hpush hop hnone hbody ?_
      rw [hfind, Option.any_some, decide_eq_true_eq]
      exact hroom
    | pop => exact h.pop hname
    | peek =>
      rw [queuePeek_queues]
      exact h
    | destroy => exact h.destroy hname

theorem Kept.create_fits (h : Kept x) (hdelivers : Delivers (queueStep x (behind, msg)))
    (hop : queueOp msg.path = .create) (hname : msg.hdr "name" = some name)
    (hfind : findQueue x.1.queues name = none) (hroom : x.1.queues.length < queueMaxQueues) :
    name.bytes.length ≤ 63 := by
  obtain ⟨held, hholds, -⟩ := h
  have hrefused : ¬ ((findQueue x.1.queues name).isSome ∨ queueMaxQueues ≤ x.1.queues.length) := by
    rw [hfind, not_or, not_le]
    exact ⟨Bool.false_ne_true, hroom⟩
  simp only [queueStep_eq x behind hname, queueHandle, ledgerStep, hop, queueCreate_eq x.1 hname,
    if_neg hrefused] at hdelivers
  obtain ⟨i, q, hq, -⟩ := hdelivers name ⟨[], []⟩ (by simp [QueueReply.done])
  obtain ⟨hi, -, rfl⟩ := findQueue_eq_some hq
  rcases mem_append.mp (mem_of_getElem? hi) with hmem | hmem
  · exact hholds.names q hmem
  · rw [mem_singleton.mp hmem]
    exact length_take_le _ _

/-- An item that is not what was pushed stays in the queue, or was popped. -/
theorem Kept.push_whole (h : Kept x) (hdelivers : Delivers (queueStep x (behind, msg)))
    (hop : queueOp msg.path = .push) (hname : msg.hdr "name" = some name)
    {data : CStr} {i : Nat} {q : NamedQueue} (hdata : pushData behind msg = some data)
    (hfind : findQueue x.1.queues name = some (i, q)) (hroom : q.depth < q.maxDepth) :
    data.bytes = pushBody msg := by
  obtain ⟨held, hholds, hagree⟩ := h
  have hheld := hagree name
  rw [(hholds.found hfind).2] at hheld
  obtain ⟨l, hl, hitems⟩ := agrees_some hheld
  have hpushed : queuePush x.1 behind msg =
      ({ x.1 with queues := x.1.queues.set i (q.push data) }, .done .ok) := by
    simp only [queuePush, hname, hdata, hfind, if_neg (not_le.mpr hroom)]
  simp only [queueStep_eq x behind hname, queueHandle, ledgerStep, hop, hpushed] at hdelivers
  obtain ⟨j, q', hq', hledger⟩ := hdelivers name
    { l with pushed := l.pushed ++ [pushBody msg] } (by simp [QueueReply.done, hl])
  -- the queue under that name is the one that was pushed to
  have hset := (hholds.set hfind (rfl : (q.push data).name = q.name) rfl).found hq'
  rw [update_self, some.injEq] at hset
  rw [← hset.2, NamedQueue.push, map_append, ← append_assoc, hitems,
    append_cancel_left_eq] at hledger
  exact (List.cons.inj hledger).1

theorem Kept.storable (h : Kept x) (hdelivers : Delivers (queueStep x (behind, msg))) :
    Storable x (behind, msg) := by
  intro name hname
  constructor
  · intro hop hfind hroom
    exact h.create_fits hdelivers hop hname hfind hroom
  intro hop hnone hbody hany
  cases hfind : findQueue x.1.queues name with
  | none =>
    rw [hfind] at hany
    cases hany
  | some found =>
    rw [hfind, Option.any_some, decide_eq_true_eq] at hany
    have hdata : pushData behind msg = some (.ofBytes (msg.body ++ behind)) := by
      simp only [pushData, hnone, if_neg hbody]
    exact (pushData_eq hdata).mp (h.push_whole hdelivers hop hname hdata hfind hany)
      hnone hbody

end Histories

/-- What is popped from a queue and what it still holds is what was pushed, byte for byte and in
order, and it is found by its name, exactly as long as every queue and every body can be stored. -/
theorem delivers_iff (maxDepth : Option CStr) (es : List (Bytes × ModMsg)) :
    (∀ es', es' <+: es → Delivers (run queueStep (queueLoad maxDepth, fun _ => none) es')) ↔
      Along queueStep Storable (queueLoad maxDepth, fun _ => none) es := by
  have hstart : Kept (queueLoad maxDepth, fun _ => none) :=
    ⟨fun _ => none, ⟨represents_empty, forall_mem_nil _⟩, fun _ => trivial⟩
  exact along_iff_forall (D := fun _ _ => True) (fun _ h => h.delivers)
    (fun _ _ h _ hs => h.step hs) (fun _ _ h _ hd => h.storable hd) hstart
    (along_of_forall (fun _ _ _ => trivial) _)

def queueRequest (path name : String) (body : Bytes) : ModMsg :=
  ⟨.lit path, [(.lit "name", .lit name)], body⟩

/-- A body with a NUL in it is cut there. -/
theorem delivers_nul :
    ¬ Delivers (run queueStep (queueLoad none, fun _ => none)
      [([], queueRequest "/queue/functions/create" "q" []),
        ([0], queueRequest "/queue/functions/push" "q" [97, 0, 98])]) := by
  intro h
  obtain ⟨i, q, hfind, hitems⟩ := h (.lit "q") ⟨[[97, 0, 98]], []⟩ (by decide +kernel)
  have hq : findQueue (run queueStep (queueLoad none, fun _ => none)
      [([], queueRequest "/queue/functions/create" "q" []),
        ([0], queueRequest "/queue/functions/push" "q" [97, 0, 98])]).1.queues (.lit "q") =
      some (0, ⟨.lit "q", [.lit "a"], 1, 10000, 1, 0, true⟩) := by
    decide +kernel
  rw [hq] at hfind
  obtain ⟨-, rfl⟩ := Prod.mk.inj (some.inj hfind)
  exact absurd hitems (by decide +kernel)

end Portal.MessageQueue
