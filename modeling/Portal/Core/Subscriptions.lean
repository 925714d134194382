import Portal.Core.Events

/-!
What a caller of the event registry can rely on: room for a new entry, and that an accepted
subscription is served.

Entries are released by a flag, and only `portal_events_subscribe_pattern` looks for a released
one. The exact forms take a second subscription of one subscriber to one path for the first,
whatever its handler; the pattern form leaves the access check to the emit.
-/

namespace Portal

open List Runs Slots Option

variable {pattern : CStr}

def registryStep (reg : PortalEventRegistry) (c : EventCall) : PortalEventRegistry :=
  (eventCall reg c).1

/-! ### What the subscribing calls return -/

def subscribed (reg : PortalEventRegistry) (eventPath subscriber : CStr) : Bool :=
  reg.subs.any fun s => s.active && (s.eventPath = eventPath && s.subscriber = subscriber)

def handles (reg : PortalEventRegistry) (pattern : CStr) (h : Ptr) : Bool :=
  reg.subs.any fun s => s.active && (s.handler = some h && s.eventPath = pattern)

structure AllowedNew (reg : PortalEventRegistry) (eventPath subscriber : CStr)
    (labels : Option PortalLabels) : Prop where
  allowed : ∃ d, portalEventsFind reg eventPath = some d ∧ checkAcl d labels = true
  new : subscribed reg eventPath subscriber = false

section Calls

variable {reg : PortalEventRegistry} {eventPath subscriber : CStr} {labels : Option PortalLabels}
  {handler : Option Ptr} {userdata : Ptr} {notifyFd : Int32}

def exactSub (eventPath subscriber : CStr) (labels : Option PortalLabels) (handler : Option Ptr)
    (userdata : Ptr) (notifyFd : Int32) : PortalSub where
  eventPath := eventPath.truncate 1023
  subscriber := subscriber.truncate 63
  subscriberLabels := labels.getD .empty
  handler := handler
  userdata := userdata
  notifyFd := notifyFd
  active := true

theorem subscribeExact_new (h : AllowedNew reg eventPath subscriber labels) :
    subscribeExact reg eventPath subscriber labels handler userdata notifyFd =
      if eventMaxSubs ≤ reg.subs.length then (reg, -1)
      else ({ reg with subs := reg.subs ++
        [exactSub eventPath subscriber labels handler userdata notifyFd] }, 0) := by
  obtain ⟨⟨d, hfind, hacl⟩, hnew⟩ := h
  have hnew' : (reg.subs.any fun s =>
      s.active && (s.eventPath = eventPath && s.subscriber = subscriber)) = false := hnew
  simp only [subscribeExact, hfind, hacl, hnew', Bool.not_true, Bool.false_eq_true, if_false]
  rfl

def patternSub (pattern : CStr) (subscriber : Option CStr) (labels : Option PortalLabels)
    (h userdata : Ptr) : PortalSub where
  eventPath := pattern.truncate 1023
  subscriber := (subscriber.getD (.lit "module")).truncate 63
  subscriberLabels := labels.getD (portalLabelsAdd .empty (.lit "root")).1
  handler := some h
  userdata := userdata
  notifyFd := -1
  active := true

theorem subscribePattern_new {subscriber : Option CStr} {h : Ptr}
    (hnew : handles reg pattern h = false) :
    portalEventsSubscribePattern reg pattern subscriber labels (some h) userdata =
      match reg.subs.findIdx? fun s => !s.active with
      | some i =>
        ({ reg with subs := reg.subs.set i (patternSub pattern subscriber labels h userdata) }, 0)
      | none =>
        if eventMaxSubs ≤ reg.subs.length then (reg, -1)
        else ({ reg with
          subs := reg.subs ++ [patternSub pattern subscriber labels h userdata] }, 0) := by
  have hnew' : (reg.subs.any fun s =>
      s.active && (s.handler = some h && s.eventPath = pattern)) = false := hnew
  simp only [portalEventsSubscribePattern, hnew', Bool.false_eq_true, if_false]
  rfl

theorem subscribePattern_again {subscriber : Option CStr} {h : Ptr}
    (hdup : handles reg pattern h = true) :
    portalEventsSubscribePattern reg pattern subscriber labels (some h) userdata = (reg, 0) :=
  if_pos hdup

end Calls

/-! ### Room for new entries -/

def activeDefs (reg : PortalEventRegistry) : Nat := reg.defs.countP PortalEventDef.active

def activeSubs (reg : PortalEventRegistry) : Nat := reg.subs.countP PortalSub.active

/-- The call asks for an entry that is permitted and not there yet. -/
def NewEntry (reg : PortalEventRegistry) : EventCall → Prop
  | .register path _ _ => portalEventsFind reg path = none
  | .subscribe eventPath subscriber labels _ _ => AllowedNew reg eventPath subscriber labels
  | .subscribeFd eventPath subscriber labels _ => AllowedNew reg eventPath subscriber labels
  | .subscribePattern pattern _ _ handler _ => ∃ h, handler = some h ∧ handles reg pattern h = false
  | _ => False

def LiveRoom (reg : PortalEventRegistry) : EventCall → Prop
  | .register _ _ _ => activeDefs reg < eventMaxDefs
  | _ => activeSubs reg < eventMaxSubs

/-- A new entry is accepted if there is room for it. -/
def Available (reg : PortalEventRegistry) (c : EventCall) : Prop :=
  NewEntry reg c → LiveRoom reg c → (eventCall reg c).2 = 0

/-- If all slots of the table the call appends to have been used, none is released. -/
def NoneReleased (reg : PortalEventRegistry) : EventCall → Prop
  | .register _ _ _ => reg.defs.length = eventMaxDefs → ∀ d ∈ reg.defs, d.active = true
  | .subscribe _ _ _ _ _ => reg.subs.length = eventMaxSubs → ∀ s ∈ reg.subs, s.active = true
  | .subscribeFd _ _ _ _ => reg.subs.length = eventMaxSubs → ∀ s ∈ reg.subs, s.active = true
  | _ => True

structure WithinArrays (reg : PortalEventRegistry) : Prop where
  defs : reg.defs.length ≤ eventMaxDefs
  subs : reg.subs.length ≤ eventMaxSubs

section Capacity

variable {reg : PortalEventRegistry} {c : EventCall} {labels : Option PortalLabels}

/-- A table with room among the live entries has room behind the last one, unless all its
slots have been used and one was released. -/
theorem room_iff {α : Type} {p : α → Bool} {xs : List α} {n : Nat} (hle : xs.length ≤ n) :
    (xs.countP p < n → xs.length < n) ↔ (xs.length = n → ∀ x ∈ xs, p x = true) := by
  rw [← countP_eq_length]
  have hcount := countP_le_length (p := p) (l := xs)
  constructor
  · intro h heq
    by_contra hne
    have := h (by omega)
    omega
  intro h hlt
  by_contra hge
  have := h (by omega)
  omega

theorem subscribeExact_rc {eventPath subscriber : CStr}
    (h : AllowedNew reg eventPath subscriber labels) (handler : Option Ptr) (userdata : Ptr)
    (notifyFd : Int32) :
    (subscribeExact reg eventPath subscriber labels handler userdata notifyFd).2 = 0 ↔
      reg.subs.length < eventMaxSubs := by
  rw [subscribeExact_new h]
  split
  · simp; omega
  · simp; omega

theorem register_rc {path module : CStr} (h : portalEventsFind reg path = none) :
    (portalEventsRegister reg path module labels).2 = 0 ↔ reg.defs.length < eventMaxDefs := by
  rw [portalEventsRegister, h]
  simp only [isSome_none, Bool.false_eq_true, if_false]
  split
  · simp; omega
  · simp; omega

/-- A pattern subscription finds a released slot, so the live ones are all that count. -/
theorem subscribePattern_rc {subscriber : Option CStr} {h userdata : Ptr}
    (hnew : handles reg pattern h = false) (hroom : activeSubs reg < eventMaxSubs) :
    (portalEventsSubscribePattern reg pattern subscriber labels (some h) userdata).2 = 0 := by
  rw [subscribePattern_new hnew]
  cases hfind : reg.subs.findIdx? fun s => !s.active with
  | some i => rfl
  | none =>
    have hall : ∀ s ∈ reg.subs, s.active = true := by
      intro s hs
      simpa using findIdx?_eq_none_iff.mp hfind s hs
    have hlen : reg.subs.length < eventMaxSubs := by
      rw [← countP_eq_length.mpr hall]
      exact hroom
    simp only [if_neg (not_le.mpr hlen)]

theorem available_iff (hwithin : WithinArrays reg) :
    Available reg c ↔ (NewEntry reg c → NoneReleased reg c) := by
  refine forall_congr' fun hnew => ?_
  cases c with
  | register path module labels =>
    exact (imp_congr_right fun _ => register_rc hnew).trans (room_iff hwithin.defs)
  | subscribe eventPath subscriber labels handler userdata
  | subscribeFd eventPath subscriber labels notifyFd =>
    exact (imp_congr_right fun _ => subscribeExact_rc hnew _ _ _).trans (room_iff hwithin.subs)
  | subscribePattern pattern subscriber labels handler userdata =>
    obtain ⟨h, rfl, hnot⟩ := hnew
    exact iff_of_true (fun hroom => subscribePattern_rc hnot hroom) trivial
  | unregister | unregisterModule | unsubscribe | unsubscribeHandler | unsubscribeAll | emit =>
    exact hnew.elim

theorem WithinArrays.subscribeExact (h : WithinArrays reg) (eventPath subscriber : CStr)
    (labels : Option PortalLabels) (handler : Option Ptr) (userdata : Ptr) (notifyFd : Int32) :
    WithinArrays (subscribeExact reg eventPath subscriber labels handler userdata notifyFd).1 := by
  unfold Portal.subscribeExact
  repeat' split
  case h_2.isFalse.isFalse.isFalse hroom =>
    refine ⟨h.defs, ?_⟩
    rw [length_append, length_singleton]
    omega
  all_goals exact h

theorem WithinArrays.subscribePattern (h : WithinArrays reg) (pattern : CStr)
    (subscriber : Option CStr) (labels : Option PortalLabels) (handler : Option Ptr)
    (userdata : Ptr) :
    WithinArrays
      (portalEventsSubscribePattern reg pattern subscriber labels handler userdata).1 := by
  cases handler with
  | none => exact h
  | some p =>
    cases hdup : handles reg pattern p with
    | true =>
      rw [subscribePattern_again hdup]
      exact h
    | false =>
      rw [subscribePattern_new hdup]
      split
      · exact ⟨h.defs, (length_set ..).trans_le h.subs⟩
      split
      · exact h
      · refine ⟨h.defs, ?_⟩
        rw [length_append, length_singleton]
        omega

theorem WithinArrays.removeFirst (h : WithinArrays reg) (p : PortalSub → Bool) :
    WithinArrays (removeFirst reg p).1 := by
  unfold Portal.removeFirst
  split
  · exact h
  · exact ⟨h.defs, (length_modify ..).trans_le h.subs⟩

theorem WithinArrays.step (h : WithinArrays reg) (c : EventCall) :
    WithinArrays (registryStep reg c) := by
  cases c with
  | register path module labels =>
    simp only [registryStep, eventCall, portalEventsRegister]
    repeat' split
    · exact h
    · exact h
    · refine ⟨?_, h.subs⟩
      rw [length_append, length_singleton]
      omega
  | unregister path =>
    simp only [registryStep, eventCall, portalEventsUnregister]
    split
    · exact h
    · exact ⟨(length_modify ..).trans_le h.defs, h.subs⟩
  | unregisterModule module => exact ⟨(length_map _).trans_le h.defs, h.subs⟩
  | subscribe | subscribeFd => exact h.subscribeExact ..
  | subscribePattern => exact h.subscribePattern ..
  | unsubscribe => exact h.removeFirst _
  | unsubscribeHandler pattern handler =>
    cases handler with
    | none => exact h
    | some p => exact h.removeFirst _
  | unsubscribeAll subscriber => exact ⟨h.defs, (length_map _).trans_le h.subs⟩
  | emit path written => exact ⟨h.defs, (length_mapIdx).trans_le h.subs⟩

end Capacity

/-- Every new entry for which there is room among the live ones is accepted exactly when none comes
while all slots have been used and one was released. -/
theorem registry_capacity_iff (calls : List EventCall) :
    Along registryStep Available portalEventsInit calls ↔
      Along registryStep (fun reg c => NewEntry reg c → NoneReleased reg c) portalEventsInit
        calls := by
  have hstep : ∀ reg c, WithinArrays reg → WithinArrays (registryStep reg c) :=
    fun _ c h => h.step c
  have hinit : WithinArrays portalEventsInit := ⟨Nat.zero_le _, Nat.zero_le _⟩
  exact along_congr hstep (fun _ _ h => available_iff h) hinit calls

/-- A module that registers its event when it is loaded, and unregisters it when it goes. -/
def loadCycle : List EventCall :=
  [.register (.lit "/e") (.lit "m") none, .unregister (.lit "/e")]

def visitCycle : List EventCall :=
  [.subscribeFd (.lit "/e") (.lit "u") none 5, .unsubscribe (.lit "/e") (.lit "u")]

def liveDef : PortalEventDef := ⟨.lit "/e", .lit "m", .empty, true⟩

def deadDef : PortalEventDef := { liveDef with active := false }

def liveSub : PortalSub := ⟨.lit "/e", .lit "u", .empty, none, 0, 5, true⟩

def deadSub : PortalSub := { liveSub with active := false }

/-- Switching off the entry behind `n` that are off gives one more that is off. -/
theorem modify_last {α : Type} {x y : α} {f : α → α} (hf : f y = x) (n : Nat) :
    (replicate n x ++ [y]).modify n f = replicate (n + 1) x := by
  rw [replicate_succ', ← hf]
  induction n with
  | zero => rfl
  | succ n ih => simpa [replicate_succ] using ih

theorem findIdx?_last {α : Type} {p : α → Bool} {x y : α} (hx : p x = false) (hy : p y = true)
    (n : Nat) : (replicate n x ++ [y]).findIdx? p = some n := by
  induction n with
  | zero => simp [hy]
  | succ n ih => simp [replicate_succ, findIdx?_cons, hx, ih]

theorem register_load {n : Nat} (hn : n < eventMaxDefs) (subs : List PortalSub) :
    registryStep ⟨replicate n deadDef, subs⟩ (.register (.lit "/e") (.lit "m") none)
      = ⟨replicate n deadDef ++ [liveDef], subs⟩ := by
  have hpath : (CStr.lit "/e").truncate 1023 = .lit "/e" := by decide
  have hmodule : (CStr.lit "m").truncate 63 = .lit "m" := by decide
  have hfind : portalEventsFind ⟨replicate n deadDef, subs⟩ (.lit "/e") = none :=
    find?_replicate_of_neg Bool.false_ne_true
  simp only [registryStep, eventCall, portalEventsRegister, hfind, hpath, hmodule,
    length_replicate, if_neg (not_le.mpr hn), isSome_none, Bool.false_eq_true,
    if_false]
  rfl

theorem run_loadCycle {n : Nat} (hn : n < eventMaxDefs) (subs : List PortalSub) :
    run registryStep ⟨replicate n deadDef, subs⟩ loadCycle
      = ⟨replicate (n + 1) deadDef, subs⟩ := by
  rw [loadCycle, run_cons, run_cons, run_nil, register_load hn]
  simp only [registryStep, eventCall, portalEventsUnregister]
  rw [findIdx?_last rfl (by decide)]
  refine congrArg (PortalEventRegistry.mk · subs) (modify_last ?_ n)
  rfl

theorem allowedNew_visit (n : Nat) :
    AllowedNew ⟨[liveDef], replicate n deadSub⟩ (.lit "/e") (.lit "u") none := by
  refine ⟨⟨_, rfl, by decide⟩, ?_⟩
  rw [subscribed, List.any_eq_false]
  intro s hs
  rw [eq_of_mem_replicate hs]
  exact Bool.false_ne_true

theorem run_visitCycle {n : Nat} (hn : n < eventMaxSubs) :
    run registryStep ⟨[liveDef], replicate n deadSub⟩ visitCycle
      = ⟨[liveDef], replicate (n + 1) deadSub⟩ := by
  have hpath : (CStr.lit "/e").truncate 1023 = .lit "/e" := by decide
  have hname : (CStr.lit "u").truncate 63 = .lit "u" := by decide
  have hsubscribe : registryStep ⟨[liveDef], replicate n deadSub⟩
      (.subscribeFd (.lit "/e") (.lit "u") none 5)
      = ⟨[liveDef], replicate n deadSub ++ [liveSub]⟩ := by
    simp only [registryStep, eventCall, portalEventsSubscribeFd,
      subscribeExact_new (allowedNew_visit n), length_replicate,
      if_neg (not_le.mpr hn), exactSub, hpath, hname]
    rfl
  rw [visitCycle, run_cons, run_cons, run_nil, hsubscribe]
  simp only [registryStep, eventCall, portalEventsUnsubscribe, removeFirst]
  rw [findIdx?_last rfl (by decide)]
  refine congrArg (PortalEventRegistry.mk _) (modify_last ?_ n)
  rfl

theorem run_cycles {cycle : List EventCall} {m : Nat} (st : Nat → PortalEventRegistry)
    (hcycle : ∀ n < m, run registryStep (st n) cycle = st (n + 1)) {n : Nat} (hn : n ≤ m) :
    run registryStep (st 0) (replicate n cycle).flatten = st n := by
  induction n with
  | zero => rfl
  | succ n ih =>
    rw [replicate_succ', flatten_append, run_append, ih (Nat.le_of_succ_le hn),
      flatten_singleton, hcycle n hn]

/-- After 256 loads and unloads of a module no event can be registered, and after 1024 visits of a
subscriber nobody can subscribe. -/
theorem registry_capacity_false :
    (∃ reg,
      reg = run registryStep portalEventsInit (replicate eventMaxDefs loadCycle).flatten ∧
      activeDefs reg = 0 ∧ portalEventsFind reg (.lit "/e") = none ∧
      (portalEventsRegister reg (.lit "/e") (.lit "m") none).2 = -1) ∧
    (∃ reg, reg = run registryStep portalEventsInit (.register (.lit "/e") (.lit "m") none ::
        (replicate eventMaxSubs visitCycle).flatten) ∧
      activeSubs reg = 0 ∧ AllowedNew reg (.lit "/e") (.lit "u") none ∧
      (portalEventsSubscribeFd reg (.lit "/e") (.lit "u") none 5).2 = -1) := by
  have hloads := run_cycles (fun n => ⟨replicate n deadDef, []⟩)
    (fun n (hn : n < eventMaxDefs) => run_loadCycle hn []) (le_refl _)
  have hvisits := run_cycles (fun n => ⟨[liveDef], replicate n deadSub⟩)
    (fun n (hn : n < eventMaxSubs) => run_visitCycle hn) (le_refl _)
  have hfind : portalEventsFind ⟨replicate eventMaxDefs deadDef, []⟩ (.lit "/e") = none :=
    find?_replicate_of_neg Bool.false_ne_true
  refine ⟨⟨_, hloads.symm, ?_, hfind, ?_⟩, ⟨_, ?_, ?_, allowedNew_visit eventMaxSubs, ?_⟩⟩
  · rw [activeDefs, countP_replicate]
    rfl
  · simp [portalEventsRegister, hfind]
  · rw [run_cons, ← hvisits]
    exact congrArg (run registryStep · _) (register_load (n := 0) (by decide) []).symm
  · rw [activeSubs, countP_replicate]
    rfl
  · rw [portalEventsSubscribeFd, subscribeExact_new (allowedNew_visit _), length_replicate,
      if_pos (le_refl _)]

/-! ### Delivery -/

inductive SubTarget where
  | handler (h : Ptr)
  | descriptor (fd : Int32)
deriving DecidableEq

/-- Whom an emit serves the subscription to: its handler, or else its descriptor. -/
def PortalSub.target (s : PortalSub) : Option SubTarget :=
  match s.handler with
  | some h => some (.handler h)
  | none => if 0 ≤ s.notifyFd then some (.descriptor s.notifyFd) else none

def emitWrites (reg : PortalEventRegistry) (path : CStr) : List Int32 :=
  reg.subs.filterMap fun s =>
    if notifies (portalEventsFind reg path) path s then some s.notifyFd else none

/-- An emit of the event calls the handler, or writes to the descriptor. -/
def EmitReaches (reg : PortalEventRegistry) (path : CStr) : SubTarget → Prop
  | .handler h => ∀ written, ∃ u, (h, u) ∈ (portalEventsEmit reg path written).calls
  | .descriptor fd => fd ∈ emitWrites reg path

def emitPermits (d : Option PortalEventDef) (labels : PortalLabels) : Bool :=
  match d with
  | some d => checkAcl d (some labels)
  | none => portalLabelsHas labels (.lit "root")

/-- The labels of a handler's subscription to a pattern after it asked for it with `labels`: those
of the entry that is there, or the new ones. -/
def labelsInForce (reg : PortalEventRegistry) (pattern : CStr) (h : Ptr)
    (labels : Option PortalLabels) : PortalLabels :=
  match reg.subs.find? fun s => s.active && (s.handler = some h && s.eventPath = pattern) with
  | some s => s.subscriberLabels
  | none => labels.getD (portalLabelsAdd .empty (.lit "root")).1

/-- The call subscribes the target to the event, as the subscriber's first to the path, or to a
pattern that matches it, with labels that permit the event. -/
def SubscribesTo (reg : PortalEventRegistry) (path : CStr) (t : SubTarget) : EventCall → Prop
  | .subscribe eventPath subscriber _ handler _ =>
    eventPath = path ∧ handler.map .handler = some t ∧ subscribed reg eventPath subscriber = false
  | .subscribeFd eventPath subscriber _ notifyFd =>
    eventPath = path ∧ 0 ≤ notifyFd ∧ t = .descriptor notifyFd ∧
      subscribed reg eventPath subscriber = false
  | .subscribePattern pattern _ labels handler _ =>
    ∃ h, handler = some h ∧ t = .handler h ∧ pattern.bytes.length ≤ 1023 ∧ Matches pattern path ∧
      emitPermits (portalEventsFind reg path) (labelsInForce reg pattern h labels) = true
  | _ => False

/-- The call removes no subscription and leaves the definition alone; an emit of another event
finds all its descriptors writable. -/
def KeepsEvent (path : CStr) (reg : PortalEventRegistry) : EventCall → Prop
  | .register p m labels =>
    portalEventsFind (portalEventsRegister reg p m labels).1 path = portalEventsFind reg path
  | .unregister p =>
    portalEventsFind (portalEventsUnregister reg p).1 path = portalEventsFind reg path
  | .unregisterModule m =>
    portalEventsFind (portalEventsUnregisterModule reg m).1 path = portalEventsFind reg path
  | .unsubscribe _ _ => False
  | .unsubscribeHandler _ _ => False
  | .unsubscribeAll _ => False
  | .emit p written => p ≠ path ∧ ∀ i, written i = true
  | _ => True

section Delivery

variable {reg : PortalEventRegistry} {path : CStr} {t : SubTarget} {s : PortalSub}
  {labels : Option PortalLabels}

theorem emitAllowed_eq (d : Option PortalEventDef) (s : PortalSub) :
    emitAllowed d s = emitPermits d s.subscriberLabels := by
  cases d <;> rfl

theorem emitReaches_of_reached (hs : s ∈ reg.subs)
    (hreached : reached (portalEventsFind reg path) path s = true) (ht : s.target = some t) :
    EmitReaches reg path t := by
  unfold PortalSub.target at ht
  cases hhandler : s.handler with
  | some h =>
    rw [hhandler] at ht
    obtain rfl := some.inj ht
    intro written
    refine ⟨s.userdata, mem_filterMap.mpr ⟨s, hs, ?_⟩⟩
    rw [handlerCall, if_pos hreached, hhandler, map_some]
  | none =>
    simp only [hhandler] at ht
    split at ht
    · rename_i hfd
      obtain rfl := some.inj ht
      refine mem_filterMap.mpr ⟨s, hs, ?_⟩
      rw [if_pos]
      simp [notifies, hreached, hhandler, hfd]
    · cases ht

/-- An active entry that serves the target when the event is emitted. -/
structure Serves (reg : PortalEventRegistry) (path : CStr) (t : SubTarget)
    (d : Option PortalEventDef) (s : PortalSub) : Prop where
  mem : s ∈ reg.subs
  active : s.active = true
  pattern : patternMatches s.eventPath path = true
  permits : emitPermits d s.subscriberLabels = true
  target : s.target = some t

theorem Serves.emitReaches {d : Option PortalEventDef} (h : Serves reg path t d s)
    (hd : portalEventsFind reg path = d) : EmitReaches reg path t := by
  refine emitReaches_of_reached h.mem ?_ h.target
  rw [reached, h.active, h.pattern, emitAllowed_eq, hd, h.permits]
  rfl

/-- The definitions are the same, and the active entries are still there. -/
def Extends (reg reg' : PortalEventRegistry) : Prop :=
  reg'.defs = reg.defs ∧ ∀ s ∈ reg.subs, s.active = true → s ∈ reg'.subs

theorem extends_refl (reg : PortalEventRegistry) : Extends reg reg := ⟨rfl, fun _ hs _ => hs⟩

theorem extends_append (reg : PortalEventRegistry) (s : PortalSub) :
    Extends reg { reg with subs := reg.subs ++ [s] } :=
  ⟨rfl, fun _ hs _ => mem_append_left _ hs⟩

theorem Extends.keeps {reg' : PortalEventRegistry} (h : Extends reg reg') :
    portalEventsFind reg' path = portalEventsFind reg path ∧
      ∀ s ∈ reg.subs, s.active = true → s ∈ reg'.subs :=
  ⟨by rw [portalEventsFind, h.1, portalEventsFind], h.2⟩

theorem subscribeExact_extends (eventPath subscriber : CStr) (labels : Option PortalLabels)
    (handler : Option Ptr) (userdata : Ptr) (notifyFd : Int32) : Extends reg
      (subscribeExact reg eventPath subscriber labels handler userdata notifyFd).1 := by
  unfold subscribeExact
  repeat' split
  case h_2.isFalse.isFalse.isFalse => exact extends_append reg _
  all_goals exact extends_refl reg

/-- A pattern subscription changes nothing, or puts its entry into a slot that is not
active or behind the last. -/
theorem subscribePattern_extends (pattern : CStr) (subscriber : Option CStr)
    (labels : Option PortalLabels) (handler : Option Ptr) (userdata : Ptr) : Extends reg
      (portalEventsSubscribePattern reg pattern subscriber labels handler userdata).1 := by
  cases handler with
  | none => exact extends_refl reg
  | some h =>
    cases hdup : handles reg pattern h with
    | true =>
      rw [subscribePattern_again hdup]
      exact extends_refl reg
    | false =>
      rw [subscribePattern_new hdup]
      cases hfind : reg.subs.findIdx? fun s => !s.active with
      | some i =>
        refine ⟨rfl, ?_⟩
        intro s hs hactive
        obtain ⟨hlt, hidle, -⟩ := findIdx?_eq_some_iff_getElem.mp hfind
        obtain ⟨j, hj, rfl⟩ := getElem_of_mem hs
        have hne : i ≠ j := by
          rintro rfl
          rw [hactive] at hidle
          exact Bool.false_ne_true hidle
        refine mem_of_getElem? (i := j) ?_
        rw [getElem?_set_ne hne, getElem?_eq_getElem hj]
      | none =>
        by_cases hfull : eventMaxSubs ≤ reg.subs.length
        · simp only [if_pos hfull]
          exact extends_refl reg
        · simp only [if_neg hfull]
          exact extends_append reg _

theorem emit_registry (reg : PortalEventRegistry) (p : CStr) {written : Nat → Bool}
    (h : ∀ i, written i = true) : (portalEventsEmit reg p written).registry = reg := by
  have hsame : (fun i s => afterNotify (portalEventsFind reg p) p (written i) s)
      = fun _ (s : PortalSub) => s := by
    funext i s
    rw [afterNotify, h i, Bool.not_true, Bool.and_false, if_neg Bool.false_ne_true]
  have hsubs : (reg.subs.mapIdx fun i s => afterNotify (portalEventsFind reg p) p (written i) s)
      = reg.subs := by
    rw [hsame]
    exact ext_getElem (by simp) fun i _ _ => by simp
  rw [portalEventsEmit]
  simp only [hsubs]

/-- A call that keeps the event leaves its definition and the active entries. -/
theorem KeepsEvent.step {c : EventCall} (h : KeepsEvent path reg c) :
    portalEventsFind (registryStep reg c) path = portalEventsFind reg path ∧
      ∀ s ∈ reg.subs, s.active = true → s ∈ (registryStep reg c).subs := by
  cases c with
  | register p m labels =>
    refine ⟨h, ?_⟩
    intro s hs _
    simp only [registryStep, eventCall, portalEventsRegister]
    repeat' split
    all_goals exact hs
  | unregister p =>
    refine ⟨h, ?_⟩
    intro s hs _
    simp only [registryStep, eventCall, portalEventsUnregister]
    split
    all_goals exact hs
  | unregisterModule m => exact ⟨h, fun s hs _ => hs⟩
  | subscribe | subscribeFd => exact (subscribeExact_extends ..).keeps
  | subscribePattern => exact (subscribePattern_extends ..).keeps
  | unsubscribe | unsubscribeHandler | unsubscribeAll => exact h.elim
  | emit p written =>
    have hsame := emit_registry reg p h.2
    simp only [registryStep, eventCall, hsame]
    exact ⟨trivial, fun s hs _ => hs⟩

/-- What the calls between the subscription and the emit keep. -/
theorem Serves.run {d : Option PortalEventDef} {calls : List EventCall}
    (hkeeps : Along registryStep (KeepsEvent path) reg calls) (h : Serves reg path t d s)
    (hd : portalEventsFind reg path = d) :
    Serves (run registryStep reg calls) path t d s ∧
      portalEventsFind (Runs.run registryStep reg calls) path = d := by
  have hstep : ∀ reg c, (Serves reg path t d s ∧ portalEventsFind reg path = d) →
      KeepsEvent path reg c →
      Serves (registryStep reg c) path t d s ∧ portalEventsFind (registryStep reg c) path = d := by
    rintro reg c ⟨hserves, hfind⟩ hc
    obtain ⟨hdef, hsubs⟩ := hc.step
    exact ⟨{ hserves with mem := hsubs s hserves.mem hserves.active }, hdef.trans hfind⟩
  exact Along.invariant hstep ⟨h, hd⟩ hkeeps

/-- An element of a list after one was changed, and what it was before. -/
theorem exists_of_mem_modify {α β : Type} {f : α → α} {view : α → β} {xs : List α} {i : Nat} {y : α}
    (hf : ∀ x, view (f x) = view x) (hy : y ∈ xs.modify i f) : ∃ x ∈ xs, view y = view x := by
  obtain ⟨j, hj, rfl⟩ := getElem_of_mem hy
  rw [length_modify] at hj
  refine ⟨xs[j], getElem_mem hj, ?_⟩
  rw [getElem_modify]
  split
  · exact hf _
  · rfl

/-- A stored path fits its field, so a defined event has a path that fits. -/
def ShortPaths (reg : PortalEventRegistry) : Prop := ∀ d ∈ reg.defs, d.path.bytes.length ≤ 1023

theorem ShortPaths.of_extends {reg' : PortalEventRegistry} (h : ShortPaths reg)
    (hreg : Extends reg reg') : ShortPaths reg' := fun d hd => h d (hreg.1 ▸ hd)

theorem ShortPaths.step (h : ShortPaths reg) (c : EventCall) : ShortPaths (registryStep reg c) := by
  cases c with
  | register p m labels =>
    simp only [registryStep, eventCall, portalEventsRegister]
    repeat' split
    · exact h
    · exact h
    intro d hd
    rcases mem_append.mp hd with hd | hd
    · exact h d hd
    · obtain rfl := mem_singleton.mp hd
      exact length_take_le ..
  | unregister p =>
    simp only [registryStep, eventCall, portalEventsUnregister]
    split
    · exact h
    intro d hd
    have hsame (e : PortalEventDef) :
        ({ e with active := false } : PortalEventDef).path = e.path := rfl
    obtain ⟨e, he, hpath⟩ := exists_of_mem_modify hsame hd
    exact hpath ▸ h e he
  | unregisterModule m =>
    intro d hd
    obtain ⟨e, he, rfl⟩ := mem_map.mp hd
    split
    · exact h e he
    · exact h e he
  | subscribe | subscribeFd => exact h.of_extends (subscribeExact_extends ..)
  | subscribePattern => exact h.of_extends (subscribePattern_extends ..)
  | unsubscribe eventPath subscriber =>
    simp only [registryStep, eventCall, portalEventsUnsubscribe, removeFirst]
    split <;> exact h
  | unsubscribeHandler pattern handler =>
    cases handler with
    | none => exact h
    | some p =>
      simp only [registryStep, eventCall, portalEventsUnsubscribeHandler, removeFirst]
      split <;> exact h
  | unsubscribeAll | emit => exact h

theorem ShortPaths.length_le (h : ShortPaths reg) {d : PortalEventDef}
    (hfind : portalEventsFind reg path = some d) : path.bytes.length ≤ 1023 := by
  have hmatch := find?_some hfind
  simp only [Bool.and_eq_true, decide_eq_true_eq] at hmatch
  exact hmatch.2 ▸ h d (mem_of_find?_eq_some hfind)

theorem patternMatches_self (p : CStr) : patternMatches p p = true :=
  (patternMatches_iff p p).mpr (.inl rfl)

/-- What passes the check of a subscription passes that of an emit: missing labels pass
only where there are none to match. -/
theorem checkAcl_getD {d : PortalEventDef} (h : checkAcl d labels = true) :
    checkAcl d (some (labels.getD .empty)) = true := by
  cases labels with
  | some ls => exact h
  | none =>
    unfold checkAcl at h ⊢
    split at h
    · rw [if_pos ‹_›]
    · exact absurd h (by simp)

theorem allowedNew_of_rc {eventPath subscriber : CStr} {handler : Option Ptr} {userdata : Ptr}
    {notifyFd : Int32}
    (hrc : (subscribeExact reg eventPath subscriber labels handler userdata notifyFd).2 = 0)
    (hnew : subscribed reg eventPath subscriber = false) :
    AllowedNew reg eventPath subscriber labels := by
  unfold subscribeExact at hrc
  cases hfind : portalEventsFind reg eventPath with
  | none =>
    rw [hfind] at hrc
    exact absurd (show (-1 : Int) = 0 from hrc) (by decide)
  | some d =>
    cases hacl : checkAcl d labels with
    | true => exact ⟨⟨d, hfind, hacl⟩, hnew⟩
    | false =>
      simp only [hfind, hacl, Bool.not_false, if_true] at hrc
      exact absurd hrc (by decide)

/-- An exact subscription that is accepted and new serves its target. -/
theorem serves_exact {eventPath subscriber : CStr} {handler : Option Ptr} {userdata : Ptr}
    {notifyFd : Int32} (hshort : ShortPaths reg)
    (hrc : (subscribeExact reg eventPath subscriber labels handler userdata notifyFd).2 = 0)
    (hnew : subscribed reg eventPath subscriber = false)
    (ht : (exactSub eventPath subscriber labels handler userdata notifyFd).target = some t) :
    ∃ s, Serves (subscribeExact reg eventPath subscriber labels handler userdata notifyFd).1
      eventPath t (portalEventsFind reg eventPath) s := by
  have hallowed := allowedNew_of_rc hrc hnew
  obtain ⟨d, hfind, hacl⟩ := hallowed.allowed
  have hroom := (subscribeExact_rc hallowed handler userdata notifyFd).mp hrc
  have hpath : eventPath.truncate 1023 = eventPath := CStr.truncate_eq_self (hshort.length_le hfind)
  rw [subscribeExact_new hallowed, if_neg (not_le.mpr hroom), hfind]
  refine ⟨exactSub eventPath subscriber labels handler userdata notifyFd, ?_, rfl, ?_, ?_, ht⟩
  · exact mem_append_right _ (mem_singleton_self _)
  · exact (congrArg (patternMatches · eventPath) hpath).trans (patternMatches_self eventPath)
  · exact checkAcl_getD hacl

/-- A pattern subscription that is accepted serves its handler where the labels in force
permit the event. -/
theorem serves_pattern {subscriber : Option CStr} {h userdata : Ptr}
    (hrc : (portalEventsSubscribePattern reg pattern subscriber labels (some h) userdata).2 = 0)
    (hlen : pattern.bytes.length ≤ 1023) (hmatch : Matches pattern path)
    (hpermits : emitPermits (portalEventsFind reg path)
      (labelsInForce reg pattern h labels) = true) :
    ∃ s, Serves (portalEventsSubscribePattern reg pattern subscriber labels (some h) userdata).1
      path (.handler h) (portalEventsFind reg path) s := by
  have hpattern := (patternMatches_iff pattern path).mpr hmatch
  cases hdup : handles reg pattern h with
  | true =>
    have hsome := find?_isSome.mpr (any_eq_true.mp hdup)
    obtain ⟨s, hs⟩ := isSome_iff_exists.mp hsome
    have htest := find?_some hs
    simp only [Bool.and_eq_true, decide_eq_true_eq] at htest
    obtain ⟨hactive, hhandler, hpath⟩ := htest
    simp only [labelsInForce, hs] at hpermits
    rw [subscribePattern_again hdup]
    refine ⟨s, mem_of_find?_eq_some hs, hactive, hpath ▸ hpattern, hpermits, ?_⟩
    rw [PortalSub.target, hhandler]
  | false =>
    have hnone : (reg.subs.find? fun s =>
        s.active && (s.handler = some h && s.eventPath = pattern)) = none := by
      rw [find?_eq_none]
      exact fun s hs => any_eq_false.mp hdup s hs
    simp only [labelsInForce, hnone] at hpermits
    have hcut : pattern.truncate 1023 = pattern := CStr.truncate_eq_self hlen
    have hserves : ∀ reg', patternSub pattern subscriber labels h userdata ∈ reg'.subs →
        Serves reg' path (.handler h) (portalEventsFind reg path)
          (patternSub pattern subscriber labels h userdata) := by
      intro reg' hmem
      exact ⟨hmem, rfl, (congrArg (patternMatches · path) hcut).trans hpattern, hpermits, rfl⟩
    rw [subscribePattern_new hdup] at hrc ⊢
    cases hfind : reg.subs.findIdx? fun s => !s.active with
    | some i =>
      obtain ⟨hlt, -, -⟩ := findIdx?_eq_some_iff_getElem.mp hfind
      exact ⟨_, hserves _ (mem_set hlt _)⟩
    | none =>
      rw [hfind] at hrc
      by_cases hfull : eventMaxSubs ≤ reg.subs.length
      · simp only [if_pos hfull] at hrc
        exact absurd hrc (by decide)
      · simp only [if_neg hfull]
        exact ⟨_, hserves _ (mem_append_right _ (mem_singleton_self _))⟩

theorem SubscribesTo.serves {c : EventCall} (hshort : ShortPaths reg)
    (h : SubscribesTo reg path t c) (hrc : (eventCall reg c).2 = 0) :
    ∃ s, Serves (registryStep reg c) path t (portalEventsFind reg path) s := by
  cases c with
  | subscribe eventPath subscriber labels handler userdata =>
    obtain ⟨rfl, htarget, hnew⟩ := h
    obtain ⟨p, rfl, rfl⟩ := map_eq_some_iff.mp htarget
    exact serves_exact hshort hrc hnew rfl
  | subscribeFd eventPath subscriber labels notifyFd =>
    obtain ⟨rfl, hfd, rfl, hnew⟩ := h
    refine serves_exact hshort hrc hnew ?_
    rw [PortalSub.target]
    exact if_pos hfd
  | subscribePattern pattern subscriber labels handler userdata =>
    obtain ⟨p, rfl, rfl, hlen, hmatch, hpermits⟩ := h
    exact serves_pattern hrc hlen hmatch hpermits
  | register | unregister | unregisterModule | unsubscribe | unsubscribeHandler | unsubscribeAll
  | emit => exact h.elim

theorem SubscribesTo.find_eq {c : EventCall} (h : SubscribesTo reg path t c) :
    portalEventsFind (registryStep reg c) path = portalEventsFind reg path := by
  have hkeeps : KeepsEvent path reg c := by
    cases c with
    | subscribe | subscribeFd | subscribePattern => exact trivial
    | register | unregister | unregisterModule | unsubscribe | unsubscribeHandler
    | unsubscribeAll | emit => exact h.elim
  exact hkeeps.step.1

end Delivery

/-- After any history, an accepted subscription of a target, of which an exact one is the
subscriber's first to the path and a pattern one has labels that permit the event, is served by the
next emit, whatever calls come in between that keep the definition and remove no subscription. -/
theorem accepted_delivered (done between : List EventCall) (c : EventCall) (path : CStr)
    (t : SubTarget) (hsub : SubscribesTo (run registryStep portalEventsInit done) path t c)
    (hrc : (eventCall (run registryStep portalEventsInit done) c).2 = 0)
    (hkeeps : Along registryStep (KeepsEvent path)
      (run registryStep portalEventsInit (done ++ [c])) between) :
    EmitReaches (run registryStep portalEventsInit (done ++ c :: between)) path t := by
  have hstep : ∀ reg c, ShortPaths reg → ShortPaths (registryStep reg c) := fun _ c h => h.step c
  have hinit : ShortPaths portalEventsInit := fun d hd => absurd hd not_mem_nil
  have hshort := run_invariant hstep hinit done
  obtain ⟨s, hserves⟩ := hsub.serves hshort hrc
  have hdef := hsub.find_eq
  rw [run_append] at hkeeps
  obtain ⟨hstill, hfind⟩ := hserves.run hkeeps hdef
  rw [run_append, run_cons]
  exact hstill.emitReaches hfind

/-- A member of the staff subscribes to the staff's event, another subscriber follows, and
the event reaches the first. -/
theorem accepted_delivered_staff :
    let staff := (portalLabelsAdd .empty (.lit "staff")).1
    let done := [EventCall.register (.lit "/e") (.lit "m") (some staff)]
    let c := EventCall.subscribe (.lit "/e") (.lit "a") (some staff) (some 1) 0
    let between := [EventCall.subscribeFd (.lit "/e") (.lit "b") (some staff) 5]
    EmitReaches (run registryStep portalEventsInit (done ++ c :: between)) (.lit "/e")
      (.handler 1) := by
  intro staff done c between
  have hnew : subscribed (run registryStep portalEventsInit done) (.lit "/e") (.lit "a")
      = false := by
    decide
  exact accepted_delivered done between c (.lit "/e") (.handler 1) ⟨rfl, rfl, hnew⟩ (by decide)
    ⟨trivial, trivial⟩

/-- A guest's subscription to the pattern of the staff's event is accepted, and the next emit calls
no one. -/
theorem guest_pattern_not_delivered :
    let done := [EventCall.register (.lit "/e") (.lit "m")
      (some (portalLabelsAdd .empty (.lit "staff")).1)]
    let c := EventCall.subscribePattern (.lit "/e") none
      (some (portalLabelsAdd .empty (.lit "guest")).1) (some 1) 0
    (eventCall (run registryStep portalEventsInit done) c).2 = 0 ∧
      (portalEventsEmit (run registryStep portalEventsInit (done ++ [c])) (.lit "/e")
        fun _ => true).calls = [] := by
  decide

end Portal
