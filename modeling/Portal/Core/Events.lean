import Portal.Core.Router
import Portal.Lib.Slots
import Mathlib.Data.Multiset.Filter
import Mathlib.Data.Multiset.AddSub

/-!
The event registry: `src/core/core_events.c`. Definitions are only ever appended, subscriptions
appended or put by `portal_events_subscribe_pattern` into the first inactive slot. `EventBook` is
what the registry is for; `Records` says what each call does to the book, given what it returned.
-/

namespace Portal

open List Runs Slots Option

def eventMaxDefs : Nat := 256

def eventMaxSubs : Nat := 1024

abbrev Ptr := Nat

/-- `portal_event_def_t`, without its description. -/
structure PortalEventDef where
  path : CStr
  module : CStr
  labels : PortalLabels
  active : Bool
deriving DecidableEq

/-- `portal_sub_t`, without the token, which nothing reads. -/
structure PortalSub where
  eventPath : CStr
  subscriber : CStr
  subscriberLabels : PortalLabels
  handler : Option Ptr
  userdata : Ptr
  notifyFd : Int32
  active : Bool
deriving DecidableEq

/-- `portal_event_registry_t`. The counters are the lengths. -/
structure PortalEventRegistry where
  defs : List PortalEventDef
  subs : List PortalSub

def portalEventsInit : PortalEventRegistry := ⟨[], []⟩

section Registry

variable (reg : PortalEventRegistry)

def portalEventsFind (path : CStr) : Option PortalEventDef :=
  reg.defs.find? fun d => d.active && d.path = path

def portalEventsRegister (path module : CStr) (labels : Option PortalLabels) :
    PortalEventRegistry × Int :=
  if (portalEventsFind reg path).isSome then (reg, -1)
  else if eventMaxDefs ≤ reg.defs.length then (reg, -1)
  else
    ({ reg with
        defs := reg.defs ++
          [{ path := path.truncate 1023
             module := module.truncate 63
             labels := labels.getD .empty
             active := true }] }, 0)

def portalEventsUnregister (path : CStr) : PortalEventRegistry × Int :=
  match reg.defs.findIdx? fun d => d.active && d.path = path with
  | none => (reg, -1)
  | some i => ({ reg with defs := reg.defs.modify i fun d => { d with active := false } }, 0)

def portalEventsUnregisterModule (module : CStr) : PortalEventRegistry × Int :=
  ({ reg with
      defs := reg.defs.map fun d =>
        if d.active && d.module = module then { d with active := false } else d },
    reg.defs.countP fun d => d.active && d.module = module)

/-! ### Subscriptions -/

def star : UInt8 := 42

/-- `/…/*` matches what starts with its part before the star, `*` everything, any other
pattern itself. -/
def patternMatches (pattern path : CStr) : Bool :=
  if 2 ≤ pattern.bytes.length ∧ pattern.bytes.drop (pattern.bytes.length - 2) = [slash, star] then
    decide (pattern.bytes.take (pattern.bytes.length - 1) <+: path.bytes)
  else if pattern = .lit "*" then true
  else pattern = path

/-- `NULL` labels have nothing and intersect nothing. -/
def checkAcl (d : PortalEventDef) (labels : Option PortalLabels) : Bool :=
  if d.labels.count = 0 then true
  else if labels.any fun ls => portalLabelsHas ls (.lit "root") then true
  else labels.any fun ls => portalLabelsIntersects d.labels ls

/-- Both forms of exact subscription: with a handler, or with a descriptor to notify. -/
def subscribeExact (eventPath subscriber : CStr) (labels : Option PortalLabels)
    (handler : Option Ptr) (userdata : Ptr) (notifyFd : Int32) : PortalEventRegistry × Int :=
  match portalEventsFind reg eventPath with
  | none => (reg, -1)
  | some d =>
    if !checkAcl d labels then (reg, -1)
    else if reg.subs.any fun s =>
        s.active && (s.eventPath = eventPath && s.subscriber = subscriber) then
      (reg, 0)  -- already subscribed
    else if eventMaxSubs ≤ reg.subs.length then (reg, -1)
    else
      ({ reg with
          subs := reg.subs ++
            [{ eventPath := eventPath.truncate 1023
               subscriber := subscriber.truncate 63
               subscriberLabels := labels.getD .empty
               handler
               userdata
               notifyFd
               active := true }] }, 0)

def portalEventsSubscribe (eventPath subscriber : CStr) (labels : Option PortalLabels)
    (handler : Option Ptr) (userdata : Ptr) : PortalEventRegistry × Int :=
  subscribeExact reg eventPath subscriber labels handler userdata (-1)

def portalEventsSubscribeFd (eventPath subscriber : CStr) (labels : Option PortalLabels)
    (notifyFd : Int32) : PortalEventRegistry × Int :=
  subscribeExact reg eventPath subscriber labels none 0 notifyFd

def portalEventsSubscribePattern (pattern : CStr) (subscriber : Option CStr)
    (labels : Option PortalLabels) (handler : Option Ptr) (userdata : Ptr) :
    PortalEventRegistry × Int :=
  match handler with
  | none => (reg, -1)
  | some h =>
    if reg.subs.any fun s => s.active && (s.handler = some h && s.eventPath = pattern) then
      (reg, 0)  -- already subscribed
    else
      let sub : PortalSub :=
        { eventPath := pattern.truncate 1023
          subscriber := (subscriber.getD (.lit "module")).truncate 63
          -- an internal subscriber without labels is trusted
          subscriberLabels := labels.getD (portalLabelsAdd .empty (.lit "root")).1
          handler := some h
          userdata
          notifyFd := -1
          active := true }
      match reg.subs.findIdx? fun s => !s.active with
      | some i => ({ reg with subs := reg.subs.set i sub }, 0)
      | none =>
        if eventMaxSubs ≤ reg.subs.length then (reg, -1)
        else ({ reg with subs := reg.subs ++ [sub] }, 0)

def removeFirst (p : PortalSub → Bool) : PortalEventRegistry × Int :=
  match reg.subs.findIdx? fun s => s.active && p s with
  | none => (reg, -1)
  | some i => ({ reg with subs := reg.subs.modify i fun s => { s with active := false } }, 0)

def portalEventsUnsubscribe (eventPath subscriber : CStr) : PortalEventRegistry × Int :=
  removeFirst reg fun s => s.eventPath = eventPath && s.subscriber = subscriber

def portalEventsUnsubscribeHandler (pattern : CStr) (handler : Option Ptr) :
    PortalEventRegistry × Int :=
  match handler with
  | none => (reg, -1)
  | some h => removeFirst reg fun s => s.handler = some h && s.eventPath = pattern

def portalEventsUnsubscribeAll (subscriber : CStr) : PortalEventRegistry × Int :=
  ({ reg with
      subs := reg.subs.map fun s =>
        if s.active && s.subscriber = subscriber then { s with active := false } else s },
    reg.subs.countP fun s => s.active && s.subscriber = subscriber)

end Registry

/-! ### Emit -/

def emitAllowed (d : Option PortalEventDef) (s : PortalSub) : Bool :=
  match d with
  | some d => checkAcl d (some s.subscriberLabels)
  | none => portalLabelsHas s.subscriberLabels (.lit "root")

def reached (d : Option PortalEventDef) (path : CStr) (s : PortalSub) : Bool :=
  s.active && patternMatches s.eventPath path && emitAllowed d s

def handlerCall (d : Option PortalEventDef) (path : CStr) (s : PortalSub) : Option (Ptr × Ptr) :=
  if reached d path s then s.handler.map fun h => (h, s.userdata) else none

def notifies (d : Option PortalEventDef) (path : CStr) (s : PortalSub) : Bool :=
  reached d path s && s.handler.isNone && decide (0 ≤ s.notifyFd)

/-- The subscription after it was served; one whose descriptor cannot be written to
goes. -/
def afterNotify (d : Option PortalEventDef) (path : CStr) (written : Bool) (s : PortalSub) :
    PortalSub :=
  if notifies d path s && !written then { s with active := false } else s

structure EmitResult where
  calls : List (Ptr × Ptr)
  delivered : Nat
  registry : PortalEventRegistry

/-- The handlers leave the registry alone; `written i` says whether the notification of
slot `i` can be written. -/
def portalEventsEmit (reg : PortalEventRegistry) (path : CStr) (written : Nat → Bool) :
    EmitResult :=
  let d := portalEventsFind reg path
  let calls := reg.subs.filterMap (handlerCall d path)
  { calls
    delivered := calls.length +
      (reg.subs.zipIdx.countP fun (s, i) => notifies d path s && written i)
    registry :=
      { reg with subs := reg.subs.mapIdx fun i s => afterNotify d path (written i) s } }

inductive EventCall where
  | register (path module : CStr) (labels : Option PortalLabels)
  | unregister (path : CStr)
  | unregisterModule (module : CStr)
  | subscribe (eventPath subscriber : CStr) (labels : Option PortalLabels)
      (handler : Option Ptr) (userdata : Ptr)
  | subscribeFd (eventPath subscriber : CStr) (labels : Option PortalLabels) (notifyFd : Int32)
  | subscribePattern (pattern : CStr) (subscriber : Option CStr) (labels : Option PortalLabels)
      (handler : Option Ptr) (userdata : Ptr)
  | unsubscribe (eventPath subscriber : CStr)
  | unsubscribeHandler (pattern : CStr) (handler : Option Ptr)
  | unsubscribeAll (subscriber : CStr)
  | emit (path : CStr) (written : Nat → Bool)

def eventCall (reg : PortalEventRegistry) : EventCall → PortalEventRegistry × Int
  | .register path module labels => portalEventsRegister reg path module labels
  | .unregister path => portalEventsUnregister reg path
  | .unregisterModule module => portalEventsUnregisterModule reg module
  | .subscribe eventPath subscriber labels handler userdata =>
    portalEventsSubscribe reg eventPath subscriber labels handler userdata
  | .subscribeFd eventPath subscriber labels notifyFd =>
    portalEventsSubscribeFd reg eventPath subscriber labels notifyFd
  | .subscribePattern pattern subscriber labels handler userdata =>
    portalEventsSubscribePattern reg pattern subscriber labels handler userdata
  | .unsubscribe eventPath subscriber => portalEventsUnsubscribe reg eventPath subscriber
  | .unsubscribeHandler pattern handler => portalEventsUnsubscribeHandler reg pattern handler
  | .unsubscribeAll subscriber => portalEventsUnsubscribeAll reg subscriber
  | .emit path written =>
    ((portalEventsEmit reg path written).registry, (portalEventsEmit reg path written).delivered)

/-! ### The book -/

structure Subscription where
  pattern : CStr
  subscriber : CStr
  labels : PortalLabels
  handler : Option Ptr
  userdata : Ptr
  notifyFd : Int32
deriving DecidableEq

/-- The module and the labels of each defined event, and the recorded subscriptions. -/
structure EventBook where
  defs : CStr → Option (CStr × PortalLabels)
  subs : Multiset Subscription

/-- A pattern matches itself, `*` everything, and `<dir>/*` what lies under `<dir>/`. -/
def Matches (pattern path : CStr) : Prop :=
  pattern = path ∨ pattern = .lit "*" ∨
    ∃ dir, pattern.bytes = dir ++ [slash, star] ∧ dir ++ [slash] <+: path.bytes

/-- A defined event is for root and for who shares a label with it, or for everyone if it has none;
one that is not defined is for root. -/
def EventAllows : Option (CStr × PortalLabels) → PortalLabels → Prop
  | some (_, labels), ls =>
    labels.labels = [] ∨ .lit "root" ∈ ls.labels ∨ ∃ l ∈ labels.labels, l ∈ ls.labels
  | none, ls => .lit "root" ∈ ls.labels

def SubscribedTo (b : EventBook) (path : CStr) (s : Subscription) : Prop :=
  Matches s.pattern path ∧ EventAllows (b.defs path) s.labels

/-- An exact subscription is refused, ignored because there is one for that path, or recorded, for
a defined event that is for the subscriber. -/
def RecordsExact (b : EventBook) (labels : Option PortalLabels) (s : Subscription) (rc : Int)
    (b' : EventBook) : Prop :=
  rc = -1 ∧ b' = b ∨
  rc = 0 ∧ (∃ y ∈ b.subs, y.pattern = s.pattern ∧ y.subscriber = s.subscriber) ∧ b' = b ∨
  rc = 0 ∧ (∀ y ∈ b.subs, ¬ (y.pattern = s.pattern ∧ y.subscriber = s.subscriber)) ∧
    (b.defs s.pattern).isSome ∧ EventAllows (b.defs s.pattern) (labels.getD .empty) ∧
    b' = { b with subs := s ::ₘ b.subs }

def RemovesOne (b : EventBook) (p : Subscription → Prop) (rc : Int) (b' : EventBook) : Prop :=
  (∃ y ∈ b.subs, p y ∧ rc = 0 ∧ b' = { b with subs := b.subs.erase y }) ∨
    (∀ y ∈ b.subs, ¬ p y) ∧ rc = -1 ∧ b' = b

def Records (b : EventBook) (rc : Int) (b' : EventBook) : EventCall → Prop
  | .register path module labels =>
    (b.defs path).isSome ∧ rc = -1 ∧ b' = b ∨
    b.defs path = none ∧ (rc = -1 ∧ b' = b ∨
      rc = 0 ∧ b' = { b with
        defs := Function.update b.defs path (some (module, labels.getD .empty)) })
  | .unregister path =>
    (b.defs path).isSome ∧ rc = 0 ∧ b' = { b with defs := Function.update b.defs path none } ∨
    b.defs path = none ∧ rc = -1 ∧ b' = b
  | .unregisterModule module =>
    b' = { b with defs := fun path => (b.defs path).filter fun d => decide (d.1 ≠ module) }
  | .subscribe eventPath subscriber labels handler userdata =>
    RecordsExact b labels ⟨eventPath, subscriber, labels.getD .empty, handler, userdata, -1⟩ rc b'
  | .subscribeFd eventPath subscriber labels notifyFd =>
    RecordsExact b labels ⟨eventPath, subscriber, labels.getD .empty, none, 0, notifyFd⟩ rc b'
  | .subscribePattern pattern subscriber labels handler userdata =>
    rc = -1 ∧ b' = b ∨
    rc = 0 ∧ handler.isSome ∧ (∃ y ∈ b.subs, y.handler = handler ∧ y.pattern = pattern) ∧ b' = b ∨
    rc = 0 ∧ handler.isSome ∧ (∀ y ∈ b.subs, ¬ (y.handler = handler ∧ y.pattern = pattern)) ∧
      b' = { b with
        subs := ⟨pattern, subscriber.getD (.lit "module"),
          labels.getD (portalLabelsAdd .empty (.lit "root")).1, handler, userdata, -1⟩ ::ₘ
            b.subs }
  | .unsubscribe eventPath subscriber =>
    RemovesOne b (fun y => y.pattern = eventPath ∧ y.subscriber = subscriber) rc b'
  | .unsubscribeHandler pattern handler =>
    RemovesOne b (fun y => handler.isSome ∧ y.handler = handler ∧ y.pattern = pattern) rc b'
  | .unsubscribeAll subscriber =>
    b' = { b with subs := b.subs.filter fun y => y.subscriber ≠ subscriber }
  | .emit path _ =>
    -- only subscriptions without a handler can go
    ∃ gone ≤ b.subs, (∀ y ∈ gone, SubscribedTo b path y ∧ y.handler = none) ∧
      b' = { b with subs := b.subs - gone }

def eventTrace (reg : PortalEventRegistry) : List EventCall → List (EventCall × Int)
  | [] => []
  | c :: cs => (c, (eventCall reg c).2) :: eventTrace (eventCall reg c).1 cs

inductive BookOf : EventBook → List (EventCall × Int) → EventBook → Prop where
  | nil (b : EventBook) : BookOf b [] b
  | cons {b b' b'' : EventBook} {c : EventCall} {rc : Int} {cs : List (EventCall × Int)}
      (h : Records b rc b' c) (rest : BookOf b' cs b'') : BookOf b ((c, rc) :: cs) b''

def EventBook.empty : EventBook := ⟨fun _ => none, 0⟩

def EventCall.Fits : EventCall → Prop
  | .register path module _ => path.bytes.length ≤ 1023 ∧ module.bytes.length ≤ 63
  | .subscribe eventPath subscriber _ _ _ =>
    eventPath.bytes.length ≤ 1023 ∧ subscriber.bytes.length ≤ 63
  | .subscribeFd eventPath subscriber _ _ =>
    eventPath.bytes.length ≤ 1023 ∧ subscriber.bytes.length ≤ 63
  | .subscribePattern pattern subscriber _ _ _ =>
    pattern.bytes.length ≤ 1023 ∧ (subscriber.getD (.lit "module")).bytes.length ≤ 63
  | _ => True

/-! ### Matching and access -/

theorem endsInWildcard_iff (bs : Bytes) :
    2 ≤ bs.length ∧ bs.drop (bs.length - 2) = [slash, star] ↔ ∃ dir, bs = dir ++ [slash, star] := by
  constructor
  · rintro ⟨-, htail⟩
    refine ⟨bs.take (bs.length - 2), ?_⟩
    rw [← htail, take_append_drop]
  · rintro ⟨dir, rfl⟩
    simp

theorem patternMatches_iff (pattern path : CStr) :
    patternMatches pattern path = true ↔ Matches pattern path := by
  unfold patternMatches Matches
  by_cases h : ∃ dir, pattern.bytes = dir ++ [slash, star]
  · rw [if_pos ((endsInWildcard_iff _).mpr h), decide_eq_true_iff]
    obtain ⟨dir, hdir⟩ := h
    have hcut : pattern.bytes.take (pattern.bytes.length - 1) = dir ++ [slash] := by
      rw [hdir]
      simp [take_append]
    rw [hcut]
    constructor
    · exact fun hpre => .inr (.inr ⟨dir, hdir, hpre⟩)
    rintro (rfl | rfl | ⟨dir', hdir', hpre⟩)
    · exact ⟨[star], by rw [hdir]; simp⟩
    · have hlen := congrArg List.length hdir
      rw [length_append] at hlen
      exact absurd hlen (by change 1 ≠ dir.length + 2; omega)
    · obtain ⟨rfl, -⟩ := append_inj' (hdir.symm.trans hdir') rfl
      exact hpre
  · rw [if_neg (fun hend => h ((endsInWildcard_iff _).mp hend))]
    by_cases hstar : pattern = .lit "*"
    · simp [hstar]
    · rw [if_neg hstar, decide_eq_true_iff]
      constructor
      · exact .inl
      rintro (rfl | hstar' | ⟨dir, hdir, -⟩)
      · rfl
      · exact absurd hstar' hstar
      · exact absurd ⟨dir, hdir⟩ h

instance (pattern path : CStr) : Decidable (Matches pattern path) :=
  decidable_of_iff _ (patternMatches_iff pattern path)

instance : (d : Option (CStr × PortalLabels)) → (ls : PortalLabels) → Decidable (EventAllows d ls)
  | some _, _ => inferInstanceAs (Decidable (_ ∨ _ ∨ _))
  | none, ls => inferInstanceAs (Decidable (_ ∈ ls.labels))

instance (b : EventBook) (path : CStr) (s : Subscription) : Decidable (SubscribedTo b path s) :=
  inferInstanceAs (Decidable (_ ∧ _))

theorem checkAcl_iff (d : PortalEventDef) (labels : Option PortalLabels) :
    checkAcl d labels = true ↔ EventAllows (some (d.module, d.labels)) (labels.getD .empty) := by
  unfold checkAcl EventAllows
  cases labels with
  | none => simp [PortalLabels.count, PortalLabels.empty]
  | some ls =>
    by_cases hopen : d.labels.labels = []
    · simp [PortalLabels.count, hopen]
    · by_cases hroot : CStr.lit "root" ∈ ls.labels
      · simp [PortalLabels.count, portalLabelsHas, hroot]
      · simp [PortalLabels.count, portalLabelsHas, hopen, hroot, portalLabelsIntersects_iff]

/-! ### The registry keeps the book -/

def defView (d : PortalEventDef) : Option (CStr × (CStr × PortalLabels)) :=
  if d.active then some (d.path, d.module, d.labels) else none

def subView (s : PortalSub) : Option Subscription :=
  if s.active then
    some ⟨s.eventPath, s.subscriber, s.subscriberLabels, s.handler, s.userdata, s.notifyFd⟩
  else none

structure Keeps (reg : PortalEventRegistry) (b : EventBook) : Prop where
  defs : Represents (contents defView reg.defs) b.defs
  subs : b.subs = (reg.subs.filterMap subView : List Subscription)

theorem keeps_init : Keeps portalEventsInit .empty where
  defs := represents_empty
  subs := rfl

section Defs

variable {reg : PortalEventRegistry} {b : EventBook}

theorem Keeps.find (h : Keeps reg b) (path : CStr) :
    b.defs path = (portalEventsFind reg path).map fun d => (d.module, d.labels) := by
  unfold portalEventsFind
  cases hfind : reg.defs.find? fun d => d.active && d.path = path with
  | none =>
    apply h.defs.eq_none
    intro i v hv
    obtain ⟨d, hd, hview⟩ := bind_eq_some_iff.mp hv
    have hmiss := find?_eq_none.mp hfind d (mem_of_getElem? hd)
    unfold defView at hview
    split at hview
    · rename_i hactive
      obtain ⟨rfl, -⟩ := Prod.mk.inj (some.inj hview)
      simp [hactive] at hmiss
    · cases hview
  | some d =>
    have hd : d.active = true ∧ d.path = path := by simpa using find?_some hfind
    obtain ⟨i, hi⟩ := mem_iff_getElem?.mp (mem_of_find?_eq_some hfind)
    apply h.defs.mem.mpr
    exact ⟨i, by simp [contents, hi, defView, hd.1, hd.2]⟩

theorem keeps_register (h : Keeps reg b) {path module : CStr} {labels : Option PortalLabels}
    (hfit : (EventCall.register path module labels).Fits) :
    ∃ b', Records b (portalEventsRegister reg path module labels).2 b'
        (.register path module labels) ∧
      Keeps (portalEventsRegister reg path module labels).1 b' := by
  have hfind := h.find path
  unfold portalEventsRegister
  cases hdef : portalEventsFind reg path with
  | some d =>
    rw [hdef] at hfind
    exact ⟨b, .inl ⟨by rw [hfind]; rfl, rfl, rfl⟩, h⟩
  | none =>
    rw [hdef] at hfind
    simp only [isSome_none, Bool.false_eq_true, if_false]
    split
    · exact ⟨b, .inr ⟨hfind, .inl ⟨rfl, rfl⟩⟩, h⟩
    · refine ⟨_, .inr ⟨hfind, .inr ⟨rfl, rfl⟩⟩, ?_, h.subs⟩
      rw [contents_append, CStr.truncate_eq_self hfit.1, CStr.truncate_eq_self hfit.2]
      exact h.defs.insert (contents_length _ _) hfind _

theorem keeps_unregister (h : Keeps reg b) (path : CStr) :
    ∃ b', Records b (portalEventsUnregister reg path).2 b' (.unregister path) ∧
      Keeps (portalEventsUnregister reg path).1 b' := by
  have hfind := h.find path
  unfold portalEventsUnregister
  cases hidx : reg.defs.findIdx? fun d => d.active && d.path = path with
  | none =>
    have hnone : portalEventsFind reg path = none := by
      unfold portalEventsFind
      rw [find?_eq_none]
      intro d hd
      simpa using findIdx?_eq_none_iff.mp hidx d hd
    rw [hnone] at hfind
    exact ⟨b, .inr ⟨hfind, rfl, rfl⟩, h⟩
  | some i =>
    obtain ⟨hlt, hp, -⟩ := findIdx?_eq_some_iff_getElem.mp hidx
    have hd : (reg.defs[i]).active = true ∧ (reg.defs[i]).path = path := by simpa using hp
    have hcontents : contents defView reg.defs i
        = some (path, (reg.defs[i]).module, (reg.defs[i]).labels) := by
      simp [contents, getElem?_eq_getElem hlt, defView, hd.1, hd.2]
    refine ⟨_, .inl ⟨?_, rfl, rfl⟩, ?_, h.subs⟩
    · rw [h.defs.mem.mpr ⟨i, hcontents⟩]
      rfl
    · rw [contents_modify_none defView fun _ => rfl]
      exact h.defs.erase hcontents

theorem keeps_unregisterModule (h : Keeps reg b) (module : CStr) :
    ∃ b', Records b (portalEventsUnregisterModule reg module).2 b' (.unregisterModule module) ∧
      Keeps (portalEventsUnregisterModule reg module).1 b' := by
  refine ⟨_, rfl, ?_, h.subs⟩
  have hdrop : contents defView (portalEventsUnregisterModule reg module).1.defs = fun i =>
      (contents defView reg.defs i).filter fun e => decide (e.2.1 ≠ module) := by
    funext i
    rw [portalEventsUnregisterModule, contents_map, contents]
    cases reg.defs[i]? with
    | none => rfl
    | some d =>
      obtain ⟨path, module', labels, active⟩ := d
      cases active with
      | false => rfl
      | true =>
        by_cases hm : module' = module
        · simp [defView, hm, Option.filter]
        · simp [defView, hm, Option.filter]
  rw [hdrop]
  exact h.defs.filter fun _ d => decide (d.1 ≠ module)

end Defs

section Subs

variable {reg : PortalEventRegistry} {b : EventBook} {y : Subscription}

theorem subView_eq_some {s : PortalSub} :
    subView s = some y ↔ s.active = true ∧
      y = ⟨s.eventPath, s.subscriber, s.subscriberLabels, s.handler, s.userdata, s.notifyFd⟩ := by
  unfold subView
  cases s.active <;> simp [eq_comm]

section

variable (h : Keeps reg b)

include h

theorem Keeps.mem_subs : y ∈ b.subs ↔ ∃ s ∈ reg.subs, subView s = some y := by
  rw [h.subs, Multiset.mem_coe, mem_filterMap]

/-- A loop over the active slots looks for a subscription in the book. -/
theorem Keeps.any_iff {p : PortalSub → Bool} {q : Subscription → Prop}
    (hpq : ∀ s y, subView s = some y → (p s = true ↔ q y)) :
    (reg.subs.any fun s => s.active && p s) = true ↔ ∃ y ∈ b.subs, q y := by
  simp only [List.any_eq_true, Bool.and_eq_true, h.mem_subs]
  constructor
  · rintro ⟨s, hs, hactive, hp⟩
    have hview := subView_eq_some.mpr ⟨hactive, rfl⟩
    exact ⟨_, ⟨s, hs, hview⟩, (hpq s _ hview).mp hp⟩
  · rintro ⟨y, ⟨s, hs, hview⟩, hq⟩
    exact ⟨s, hs, (subView_eq_some.mp hview).1, (hpq s y hview).mpr hq⟩

theorem Keeps.add {subs : List PortalSub}
    (hperm : (subs.filterMap subView).Perm (y :: reg.subs.filterMap subView)) :
    Keeps { reg with subs } { b with subs := y ::ₘ b.subs } where
  defs := h.defs
  subs := by
    rw [h.subs]
    exact (Multiset.coe_eq_coe.mpr hperm).symm

theorem keeps_subscribeExact {eventPath subscriber : CStr}
    (hpath : eventPath.bytes.length ≤ 1023) (hname : subscriber.bytes.length ≤ 63)
    (labels : Option PortalLabels) (handler : Option Ptr) (userdata : Ptr) (notifyFd : Int32) :
    ∃ b', RecordsExact b labels
        ⟨eventPath, subscriber, labels.getD .empty, handler, userdata, notifyFd⟩
        (subscribeExact reg eventPath subscriber labels handler userdata notifyFd).2 b' ∧
      Keeps (subscribeExact reg eventPath subscriber labels handler userdata notifyFd).1 b' := by
  have hfind := h.find eventPath
  have hdup := h.any_iff (p := fun s => s.eventPath = eventPath && s.subscriber = subscriber)
    (q := fun y => y.pattern = eventPath ∧ y.subscriber = subscriber) (by
      intro s y hview
      obtain ⟨-, rfl⟩ := subView_eq_some.mp hview
      simp)
  unfold subscribeExact
  cases hdef : portalEventsFind reg eventPath with
  | none => exact ⟨b, .inl ⟨rfl, rfl⟩, h⟩
  | some d =>
    rw [hdef, map_some] at hfind
    by_cases hacl : checkAcl d labels = true
    · simp only [hacl, Bool.not_true, Bool.false_eq_true, if_false]
      split
      · rename_i hany
        exact ⟨b, .inr (.inl ⟨rfl, hdup.mp hany, rfl⟩), h⟩
      rename_i hany
      split
      · exact ⟨b, .inl ⟨rfl, rfl⟩, h⟩
      refine ⟨_, .inr (.inr ⟨rfl, ?_, ?_, ?_, rfl⟩), h.add ?_⟩
      · intro y hy hsame
        exact hany (hdup.mpr ⟨y, hy, hsame⟩)
      · rw [hfind]
        rfl
      · rw [hfind]
        exact (checkAcl_iff d labels).mp hacl
      · rw [filterMap_append, CStr.truncate_eq_self hpath, CStr.truncate_eq_self hname]
        exact perm_append_singleton _ _
    · simp only [hacl, Bool.not_false, if_true]
      exact ⟨b, .inl ⟨rfl, rfl⟩, h⟩

theorem keeps_subscribePattern {pattern : CStr} {subscriber : Option CStr}
    {labels : Option PortalLabels} {handler : Option Ptr} {userdata : Ptr}
    (hfit : (EventCall.subscribePattern pattern subscriber labels handler userdata).Fits) :
    ∃ b', Records b
        (portalEventsSubscribePattern reg pattern subscriber labels handler userdata).2 b'
        (.subscribePattern pattern subscriber labels handler userdata) ∧
      Keeps (portalEventsSubscribePattern reg pattern subscriber labels handler userdata).1 b' := by
  cases handler with
  | none => exact ⟨b, .inl ⟨rfl, rfl⟩, h⟩
  | some fn =>
    have hdup := h.any_iff (p := fun s => s.handler = some fn && s.eventPath = pattern)
      (q := fun y => y.handler = some fn ∧ y.pattern = pattern) (by
        intro s y hview
        obtain ⟨-, rfl⟩ := subView_eq_some.mp hview
        simp)
    unfold portalEventsSubscribePattern
    simp only [CStr.truncate_eq_self hfit.1, CStr.truncate_eq_self hfit.2]
    split
    · rename_i hany
      exact ⟨b, .inr (.inl ⟨rfl, rfl, hdup.mp hany, rfl⟩), h⟩
    rename_i hany
    have hnew : ∀ y ∈ b.subs, ¬ (y.handler = some fn ∧ y.pattern = pattern) :=
      fun y hy hsame => hany (hdup.mpr ⟨y, hy, hsame⟩)
    cases hidle : reg.subs.findIdx? fun s => !s.active with
    | some i =>
      obtain ⟨hlt, hp, -⟩ := findIdx?_eq_some_iff_getElem.mp hidle
      have hview : subView reg.subs[i] = none := by
        have : (reg.subs[i]).active = false := by simpa using hp
        simp [subView, this]
      refine ⟨_, .inr (.inr ⟨rfl, rfl, hnew, rfl⟩), h.add ?_⟩
      have hperm := filterMap_set_perm subView hlt
        { eventPath := pattern
          subscriber := subscriber.getD (.lit "module")
          subscriberLabels := labels.getD (portalLabelsAdd .empty (.lit "root")).1
          handler := some fn
          userdata
          notifyFd := -1
          active := true }
      rw [hview] at hperm
      exact hperm
    | none =>
      simp only
      split
      · exact ⟨b, .inl ⟨rfl, rfl⟩, h⟩
      · refine ⟨_, .inr (.inr ⟨rfl, rfl, hnew, rfl⟩), h.add ?_⟩
        rw [filterMap_append]
        exact perm_append_singleton _ _

theorem keeps_removeFirst {p : PortalSub → Bool} {q : Subscription → Prop}
    (hpq : ∀ s y, subView s = some y → (p s = true ↔ q y)) :
    ∃ b', RemovesOne b q (removeFirst reg p).2 b' ∧ Keeps (removeFirst reg p).1 b' := by
  unfold removeFirst
  cases hidx : reg.subs.findIdx? fun s => s.active && p s with
  | none =>
    refine ⟨b, .inr ⟨?_, rfl, rfl⟩, h⟩
    intro y hy hq
    obtain ⟨s, hs, hview⟩ := h.mem_subs.mp hy
    have hmiss := findIdx?_eq_none_iff.mp hidx s hs
    simp [(subView_eq_some.mp hview).1, (hpq s y hview).mpr hq] at hmiss
  | some i =>
    obtain ⟨hlt, hp, -⟩ := findIdx?_eq_some_iff_getElem.mp hidx
    rw [Bool.and_eq_true] at hp
    obtain ⟨y, hview⟩ : ∃ y, subView reg.subs[i] = some y := ⟨_, subView_eq_some.mpr ⟨hp.1, rfl⟩⟩
    have hy : y ∈ b.subs := h.mem_subs.mpr ⟨_, getElem_mem hlt, hview⟩
    refine ⟨_, .inl ⟨y, hy, (hpq _ y hview).mp hp.2, rfl, rfl⟩, h.defs, ?_⟩
    have hperm := filterMap_set_perm subView hlt { reg.subs[i] with active := false }
    rw [hview] at hperm
    have hcons : y ::ₘ
        (↑((reg.subs.modify i fun s => { s with active := false }).filterMap subView)
        : Multiset Subscription) = b.subs := by
      rw [h.subs, modify_eq_set_get _ hlt]
      exact Multiset.coe_eq_coe.mpr hperm
    rw [← hcons, Multiset.erase_cons_head]

theorem keeps_unsubscribeAll (subscriber : CStr) :
    ∃ b', Records b (portalEventsUnsubscribeAll reg subscriber).2 b' (.unsubscribeAll subscriber) ∧
      Keeps (portalEventsUnsubscribeAll reg subscriber).1 b' := by
  refine ⟨_, rfl, h.defs, ?_⟩
  simp only [h.subs, portalEventsUnsubscribeAll, Multiset.filter_coe]
  congr 1
  induction reg.subs with
  | nil => rfl
  | cons s subs ih =>
    obtain ⟨eventPath, name, labels, handler, userdata, notifyFd, active⟩ := s
    cases active with
    | false => simpa [subView] using ih
    | true =>
      by_cases hs : name = subscriber
      · simpa [subView, hs] using ih
      · simpa [subView, hs] using ih

/-- A slot is reached by an emit if it holds a subscription to which the event is
delivered. -/
theorem Keeps.reached_iff (path : CStr) {s : PortalSub} (hview : subView s = some y) :
    reached (portalEventsFind reg path) path s = true ↔ SubscribedTo b path y := by
  obtain ⟨hactive, rfl⟩ := subView_eq_some.mp hview
  have hallowed : emitAllowed (portalEventsFind reg path) s = true ↔
      EventAllows (b.defs path) s.subscriberLabels := by
    rw [h.find]
    cases portalEventsFind reg path with
    | none => simp [emitAllowed, EventAllows, portalLabelsHas]
    | some d => exact checkAcl_iff d (some s.subscriberLabels)
  simp [reached, hactive, patternMatches_iff, hallowed, SubscribedTo]

end

theorem not_reached (d : Option PortalEventDef) (path : CStr) {s : PortalSub}
    (hview : subView s = none) : reached d path s = false := by
  unfold subView at hview
  split at hview
  · cases hview
  · rename_i hactive
    simp [reached, hactive]

/-- The subscriptions dropped by an emit: those of a sublist of the slots. -/
theorem exists_dropped (d : Option PortalEventDef) (path : CStr) (subs : List PortalSub)
    (written : Nat → Bool) :
    ∃ gone : List Subscription,
      (subs.filterMap subView).Perm
        (gone ++ (subs.mapIdx fun i s => afterNotify d path (written i) s).filterMap subView) ∧
      ∀ y ∈ gone, ∃ s ∈ subs, subView s = some y ∧ notifies d path s = true := by
  -- by induction on the slots; the write outcomes are shifted with them
  induction subs generalizing written with
  | nil => exact ⟨[], by simp, by simp⟩
  | cons s subs ih =>
    obtain ⟨gone, hperm, hgone⟩ := ih fun i => written (i + 1)
    have hgone' : ∀ y ∈ gone, ∃ s' ∈ s :: subs, subView s' = some y ∧ notifies d path s' = true :=
      fun y hy => by
        obtain ⟨s', hs', hrest⟩ := hgone y hy
        exact ⟨s', mem_cons_of_mem _ hs', hrest⟩
    rw [mapIdx_cons]
    by_cases hdrop : (notifies d path s && !written 0) = true
    · have hnotify : notifies d path s = true := by simpa using (Bool.and_eq_true _ _ ▸ hdrop).1
      cases hview : subView s with
      | none =>
        have hno := not_reached d path hview
        simp [notifies, hno] at hnotify
      | some y =>
        refine ⟨y :: gone, ?_, ?_⟩
        · have hoff : subView (afterNotify d path (written 0) s) = none := by
            simp [afterNotify, hdrop, subView]
          rw [filterMap_cons_some hview, filterMap_cons_none hoff]
          exact hperm.cons y
        intro z hz
        rcases mem_cons.mp hz with rfl | hz
        · exact ⟨s, mem_cons_self, hview, hnotify⟩
        · exact hgone' z hz
    · have hsame : afterNotify d path (written 0) s = s := by
        simp [afterNotify, hdrop]
      refine ⟨gone, ?_, hgone'⟩
      rw [hsame]
      cases hview : subView s with
      | none =>
        rw [filterMap_cons_none hview, filterMap_cons_none hview]
        exact hperm
      | some y =>
        rw [filterMap_cons_some hview, filterMap_cons_some hview]
        exact (hperm.cons y).trans List.perm_middle.symm

theorem keeps_emit (h : Keeps reg b) (path : CStr) (written : Nat → Bool) (rc : Int) :
    ∃ b', Records b rc b' (.emit path written) ∧
      Keeps (portalEventsEmit reg path written).registry b' := by
  obtain ⟨gone, hperm, hgone⟩ := exists_dropped (portalEventsFind reg path) path reg.subs written
  have hsubs : b.subs = (gone : Multiset Subscription) +
      ((portalEventsEmit reg path written).registry.subs.filterMap subView :
        List Subscription) := by
    rw [h.subs, Multiset.coe_add]
    exact Multiset.coe_eq_coe.mpr hperm
  refine ⟨_, ⟨gone, ?_, ?_, rfl⟩, h.defs, ?_⟩
  · rw [hsubs]
    exact Multiset.le_add_right _ _
  · intro y hy
    obtain ⟨s, -, hview, hnotify⟩ := hgone y hy
    have hparts : (reached (portalEventsFind reg path) path s = true ∧ s.handler = none) ∧
        0 ≤ s.notifyFd := by simpa [notifies] using hnotify
    refine ⟨(h.reached_iff path hview).mp hparts.1.1, ?_⟩
    rw [(subView_eq_some.mp hview).2]
    exact hparts.1.2
  · change b.subs - _ = _
    rw [hsubs]
    exact add_tsub_cancel_left _ _

end Subs

/-! ### Whole histories -/

variable {reg : PortalEventRegistry} {b : EventBook}

/-- Every call keeps the book: what it does to the registry and what it returns is what
it does to the book. -/
theorem eventRegistry_records (h : Keeps reg b)
    (c : EventCall) (hfit : c.Fits) :
    ∃ b', Records b (eventCall reg c).2 b' c ∧ Keeps (eventCall reg c).1 b' := by
  cases c with
  | register path module labels => exact keeps_register h hfit
  | unregister path => exact keeps_unregister h path
  | unregisterModule module => exact keeps_unregisterModule h module
  | subscribe eventPath subscriber labels handler userdata =>
    exact keeps_subscribeExact h hfit.1 hfit.2 labels handler userdata (-1)
  | subscribeFd eventPath subscriber labels notifyFd =>
    exact keeps_subscribeExact h hfit.1 hfit.2 labels none 0 notifyFd
  | subscribePattern pattern subscriber labels handler userdata =>
    exact keeps_subscribePattern h hfit
  | unsubscribe eventPath subscriber =>
    apply keeps_removeFirst h
    intro s y hview
    obtain ⟨-, rfl⟩ := subView_eq_some.mp hview
    simp
  | unsubscribeHandler pattern handler =>
    cases handler with
    | none => exact ⟨b, .inr ⟨by simp, rfl, rfl⟩, h⟩
    | some fn =>
      apply keeps_removeFirst h
      intro s y hview
      obtain ⟨-, rfl⟩ := subView_eq_some.mp hview
      simp
  | unsubscribeAll subscriber => exact keeps_unsubscribeAll h subscriber
  | emit path written => exact keeps_emit h path written _

def eventRun (calls : List EventCall) : PortalEventRegistry :=
  run (fun reg c => (eventCall reg c).1) portalEventsInit calls

theorem exists_bookOf (h : Keeps reg b)
    (calls : List EventCall) (hfit : ∀ c ∈ calls, c.Fits) :
    ∃ b', BookOf b (eventTrace reg calls) b' ∧
      Keeps (run (fun reg c => (eventCall reg c).1) reg calls) b' := by
  induction calls generalizing reg b with
  | nil => exact ⟨b, .nil b, h⟩
  | cons c calls ih =>
    obtain ⟨b', hrec, hkeeps⟩ := eventRegistry_records h c (hfit c mem_cons_self)
    obtain ⟨b'', hbook, hkeeps'⟩ := ih hkeeps fun c hc => hfit c (mem_cons_of_mem _ hc)
    exact ⟨b'', .cons hrec hbook, hkeeps'⟩

def Subscription.call (y : Subscription) : Option (Ptr × Ptr) :=
  y.handler.map fun h => (h, y.userdata)

theorem Keeps.emit_calls (h : Keeps reg b)
    (path : CStr) (written : Nat → Bool) :
    ((portalEventsEmit reg path written).calls : Multiset (Ptr × Ptr))
      = (b.subs.filter (SubscribedTo b path)).filterMap Subscription.call := by
  have hcall : ∀ s, handlerCall (portalEventsFind reg path) path s =
      (subView s).bind fun y => if SubscribedTo b path y then y.call else none := by
    intro s
    unfold handlerCall
    cases hview : subView s with
    | none => simp [not_reached _ path hview]
    | some y =>
      have hreach := h.reached_iff path hview
      have hsame : (s.handler.map fun h => (h, s.userdata)) = y.call := by
        rw [(subView_eq_some.mp hview).2]
        rfl
      rw [hsame, bind_some]
      by_cases hd : SubscribedTo b path y
      · rw [if_pos hd, if_pos (hreach.mpr hd)]
      · rw [if_neg hd, if_neg fun hr => hd (hreach.mp hr)]
  rw [h.subs, Multiset.filter_coe, Multiset.filterMap_coe, filterMap_filter, filterMap_filterMap]
  apply congrArg Multiset.ofList
  apply filterMap_congr
  intro s _
  rw [hcall]
  cases subView s <;> simp

/-- After every history of calls whose names fit, there is a book of what they recorded and
removed, and an emit calls the handlers of the subscriptions it is delivered to, once for each. -/
theorem portalEventsEmit_exact (calls : List EventCall) (hfit : ∀ c ∈ calls, c.Fits) :
    ∃ b, BookOf .empty (eventTrace portalEventsInit calls) b ∧
      ∀ path written,
        ((portalEventsEmit (eventRun calls) path written).calls : Multiset (Ptr × Ptr))
        = (b.subs.filter (SubscribedTo b path)).filterMap Subscription.call := by
  obtain ⟨b, hbook, hkeeps⟩ := exists_bookOf keeps_init calls hfit
  exact ⟨b, hbook, hkeeps.emit_calls⟩

def staffCalls : List EventCall :=
  [.register (.lit "/e") (.lit "m") (some (portalLabelsAdd .empty (.lit "staff")).1),
    .subscribePattern (.lit "*") none none (some 1) 0,
    .subscribe (.lit "/e") (.lit "b") (some (portalLabelsAdd .empty (.lit "staff")).1) (some 2) 0]

theorem portalEventsEmit_exact_staff :
    ∃ b, BookOf .empty (eventTrace portalEventsInit staffCalls) b ∧
      ∀ path written,
        ((portalEventsEmit (eventRun staffCalls) path written).calls : Multiset (Ptr × Ptr))
          = (b.subs.filter (SubscribedTo b path)).filterMap Subscription.call := by
  apply portalEventsEmit_exact staffCalls
  intro c hc
  simp only [staffCalls, mem_cons, not_mem_nil, or_false] at hc
  rcases hc with rfl | rfl | rfl <;> exact ⟨by decide, by decide⟩

/-- Both handlers are called for `/e`; once it is not defined any more, only the trusted
one is. -/
example :
    (portalEventsEmit (eventRun staffCalls) (.lit "/e") fun _ => true).calls = [(1, 0), (2, 0)] ∧
      (portalEventsEmit (eventRun (staffCalls ++ [.unregister (.lit "/e")])) (.lit "/e")
        fun _ => true).calls = [(1, 0)] := by
  decide

end Portal
