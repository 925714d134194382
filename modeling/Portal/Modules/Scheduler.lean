import Portal.Core.Message
import Portal.Lib.Results
import Portal.Lib.Slots

/-!
The one-shot task scheduler of `mod_scheduler`. Every request first runs the tasks that are due.
Running one sends a message, and an event is emitted afterwards; either call may come back to the
scheduler's own handler. `SchedEnv` gives the requests that each call out makes, its result, and
the readings of the clock.

A call out is made only after a task has left the state in which it waits, or a slot was taken, so
`weight` bounds the depth of the calls: `handles_schedHandle`.
-/

namespace Portal

open List Results Slots Option

variable {i : Nat} {maxTasks : Option CStr} (depth : Nat)

/-! ### The module -/

def schedMaxTasks : Nat := 256

inductive SchedStatus where
  | pending | running | done | failed | cancelled
deriving DecidableEq

structure SchedTask where
  id : Int
  name : CStr
  path : CStr
  runAt : Int
  status : SchedStatus
  active : Bool
deriving DecidableEq

inductive SchedEvent where
  | executed (slot : Nat) (time : Int)
  | cancelled (slot : Nat)
deriving DecidableEq

/-- The first `g_count` entries of `g_tasks`, the counters, how many readings of the clock and
calls out were made, and what happened. -/
structure Scheduler where
  tasks : List SchedTask
  max : Int
  nextId : Int
  executed : Int
  readings : Nat
  calls : Nat
  log : List SchedEvent
deriving DecidableEq

structure SchedMsg where
  path : CStr
  headers : List (CStr × CStr)
deriving DecidableEq

/-- The requests that come back to the scheduler before a call out returns, and its result. Where
the message could not be allocated it is not made. -/
structure SchedCall where
  allocated : Bool
  requests : List SchedMsg
  rc : Int

structure SchedEnv where
  clock : Nat → Int
  call : Nat → SchedCall

/-- The clock does not go back. -/
def SchedEnv.Forward (env : SchedEnv) : Prop := ∀ ⦃m n⦄, m ≤ n → env.clock m ≤ env.clock n

/-- Why the handler has no result: the bound on the depth of calls was too small, or a task
was written behind the end of `g_tasks`. -/
inductive SchedStop where
  | depth
  | overrun
deriving DecidableEq

abbrev SchedHandler := Scheduler → SchedMsg → Except SchedStop (Scheduler × PortalStatus × Int)

def SchedMsg.hdr (msg : SchedMsg) (key : String) : Option CStr :=
  (msg.headers.find? fun h => h.1 = .lit key).map Prod.snd

def schedMax (maxTasks : Option CStr) : Int := maxTasks.elim schedMaxTasks fun v => atoi v.bytes

def schedLoad (maxTasks : Option CStr) : Scheduler := ⟨[], schedMax maxTasks, 0, 0, 0, 0, []⟩

def setStatus (tasks : List SchedTask) (i : Nat) (status : SchedStatus) : List SchedTask :=
  tasks.modify i fun t => { t with status }

def Scheduler.settle (s : Scheduler) (i : Nat) (status : SchedStatus) (e : SchedEvent) :
    Scheduler :=
  { s with tasks := setStatus s.tasks i status, log := s.log ++ [e] }

def Scheduler.finish (s : Scheduler) (i : Nat) (status : SchedStatus) : Scheduler :=
  { s with tasks := setStatus s.tasks i status, executed := s.executed + 1 }

def Scheduler.append (s : Scheduler) (t : SchedTask) (readings : Nat) : Scheduler :=
  { s with tasks := s.tasks ++ [t], nextId := s.nextId + 1, readings := s.readings + readings }

section Handler

variable (env : SchedEnv) (handle : SchedHandler)

/-- `send` or `event_emit`: the requests that come back are served before it returns. -/
def callOut (s : Scheduler) : Except SchedStop Scheduler :=
  (env.call s.calls).requests.foldlM (fun s msg => do return (← handle s msg).1)
    { s with calls := s.calls + 1 }

def sendTask (s : Scheduler) : Except SchedStop (Scheduler × Int) :=
  if (env.call s.calls).allocated then do return (← callOut env handle s, (env.call s.calls).rc)
  else pure ({ s with calls := s.calls + 1 }, -1)

/-- The body of the loop of `scheduler_tick`, for a task that is due. -/
def runTask (now : Int) (s : Scheduler) (i : Nat) : Except SchedStop Scheduler := do
  let (s, rc) ← sendTask env handle (s.settle i .running (.executed i now))
  callOut env handle (s.finish i (if rc = 0 then .done else .failed))

def tickAt (now : Int) (s : Scheduler) (i : Nat) : Except SchedStop Scheduler :=
  match s.tasks[i]? with
  | none => pure s
  | some t =>
    if !t.active || t.status ≠ .pending then pure s
    else if t.runAt ≤ now then runTask env handle now s i
    else pure s

/-- The loop ends at `g_count`, which may have grown in the meantime; behind it a round does
nothing. -/
def schedulerTick (s : Scheduler) : Except SchedStop Scheduler :=
  (List.range schedMaxTasks).foldlM (tickAt env handle (env.clock s.readings))
    { s with readings := s.readings + 1 }

/-- The time of a new task, and how often the clock was read for it. -/
def runAtOf (s : Scheduler) (delay at' : Option CStr) : Int × Nat :=
  match at', delay with
  | some at', _ => (strtol at'.bytes, 0)
  | none, some delay => ((env.clock s.readings + strtol delay.bytes).bmod (2 ^ 64), 1)
  | none, none => (0, 0)

def scheduleTask : SchedHandler := fun s msg =>
  match msg.hdr "name", msg.hdr "path" with
  | some name, some path =>
    if (msg.hdr "delay").isNone && (msg.hdr "at").isNone then pure (s, .badRequest, -1)
    else if s.max ≤ s.tasks.length then pure (s, .internalError, -1)
    else if schedMaxTasks ≤ s.tasks.length then .error .overrun
    else do
      let (runAt, readings) := runAtOf env s (msg.hdr "delay") (msg.hdr "at")
      let task : SchedTask :=
        ⟨s.nextId + 1, name.truncate 63, path.truncate 1023, runAt, .pending, true⟩
      -- the clock is read once more for the answer
      let s ← callOut env handle (s.append task (readings + 1))
      return (s, .created, 0)
  | _, _ => pure (s, .badRequest, -1)

def cancelTask : SchedHandler := fun s msg =>
  match msg.hdr "name" with
  | none => pure (s, .badRequest, -1)
  | some name =>
    match s.tasks.findIdx? fun t => t.active && (t.status = .pending && t.name = name) with
    | none => pure (s, .notFound, -1)
    | some i => do
        let s ← callOut env handle (s.settle i .cancelled (.cancelled i))
        return (s, .ok, 0)

/-- `portal_module_handle`, which ticks on every request. -/
def serveRequest : SchedHandler := fun s msg => do
  let s ← schedulerTick env handle s
  if msg.path = .lit "/scheduler/resources/status" then return (s, .ok, 0)
  else if msg.path = .lit "/scheduler/resources/tasks" then
    return ({ s with readings := s.readings + 1 }, .ok, 0)
  else if msg.path = .lit "/scheduler/functions/schedule" then scheduleTask env handle s msg
  else if msg.path = .lit "/scheduler/functions/cancel" then cancelTask env handle s msg
  else if msg.path = .lit "/scheduler/functions/check" then
    return (← schedulerTick env handle s, .ok, 0)
  else return (s, .notFound, -1)

end Handler

/-- The handler, for calls that come back at most `depth` deep. -/
def schedHandle (env : SchedEnv) : Nat → SchedHandler
  | 0 => fun _ _ => .error .depth
  | depth + 1 => serveRequest env (schedHandle env depth)

def schedRun (env : SchedEnv) (depth : Nat) (maxTasks : Option CStr) (msgs : List SchedMsg) :
    Except SchedStop Scheduler :=
  msgs.foldlM (fun s msg => do return (← schedHandle env depth s msg).1) (schedLoad maxTasks)

def SchedEvent.slot : SchedEvent → Nat
  | .executed i _ => i
  | .cancelled i => i

def eventsOf (i : Nat) (log : List SchedEvent) : List SchedEvent := log.filter fun e => e.slot = i

theorem eventsOf_append (i : Nat) (log : List SchedEvent) (e : SchedEvent) :
    eventsOf i (log ++ [e]) = eventsOf i log ++ if e.slot = i then [e] else [] := by
  rw [eventsOf, filter_append, filter_singleton]
  by_cases he : e.slot = i <;> simp [he, eventsOf]

theorem mem_eventsOf {log : List SchedEvent} {e : SchedEvent} :
    e ∈ eventsOf i log ↔ e ∈ log ∧ e.slot = i := by
  rw [eventsOf, mem_filter, decide_eq_true_eq]

/-- Nothing happened to a task that waits, one that was cancelled was not run, and any other
was run once, at its time or later. -/
def Recorded (i : Nat) (events : List SchedEvent) : Option SchedTask → Prop
  | none => events = []
  | some t =>
    match t.status with
    | .pending => events = []
    | .cancelled => events = [.cancelled i]
    | .running | .done | .failed => ∃ time, events = [.executed i time] ∧ t.runAt ≤ time

/-- The table is within its array and agrees with the log. -/
structure Scheduler.Sound (s : Scheduler) : Prop where
  max_le : s.max ≤ schedMaxTasks
  length_le : s.tasks.length ≤ schedMaxTasks
  active : ∀ t ∈ s.tasks, t.active = true
  recorded : ∀ i, Recorded i (eventsOf i s.log) s.tasks[i]?

/-! ### How the table changes -/

/-- A task that does not wait stays as it is; one that waits may be done with, or
cancelled; a new one may appear. Whoever runs a task sees to its end. -/
def SlotEvolves : Option SchedTask → Option SchedTask → Prop
  | none, none => True
  | none, some t => t.status ≠ .running
  | some _, none => False
  | some t, some t' =>
    t' = t ∨ t.status = .pending ∧ t'.status ≠ .running ∧ t'.runAt = t.runAt

theorem SlotEvolves.refl (slot : Option SchedTask) : SlotEvolves slot slot := by
  cases slot with
  | none => exact trivial
  | some t => exact .inl rfl

theorem SlotEvolves.trans {a b c : Option SchedTask} (hab : SlotEvolves a b)
    (hbc : SlotEvolves b c) : SlotEvolves a c := by
  cases a with
  | none =>
    cases c with
    | none => exact trivial
    | some t =>
      cases b with
      | none => exact hbc
      | some u =>
        rcases hbc with rfl | ⟨-, hnot, -⟩
        · exact hab
        · exact hnot
  | some r =>
    cases b with
    | none => exact hab.elim
    | some t =>
      cases c with
      | none => exact hbc.elim
      | some u =>
        rcases hbc with rfl | ⟨hwaits, hnot, hsame⟩
        · exact hab
        · rcases hab with rfl | ⟨hwaits', -, hsame'⟩
          · exact .inr ⟨hwaits, hnot, hsame⟩
          · exact .inr ⟨hwaits', hnot, hsame.trans hsame'⟩

/-- A bound on how often a call out can still be made: two for each free slot, one for each
task that waits. -/
def weight (s : Scheduler) : Nat :=
  2 * (schedMaxTasks - s.tasks.length) + s.tasks.countP fun t => t.status = .pending

structure Evolves (s s' : Scheduler) : Prop where
  slots : ∀ i : Nat, SlotEvolves s.tasks[i]? s'.tasks[i]?
  weight_le : weight s' ≤ weight s

theorem Evolves.refl (s : Scheduler) : Evolves s s :=
  ⟨fun _ => .refl _, le_refl _⟩

theorem Evolves.trans {a b c : Scheduler} (hab : Evolves a b) (hbc : Evolves b c) :
    Evolves a c where
  slots i := (hab.slots i).trans (hbc.slots i)
  weight_le := hbc.weight_le.trans hab.weight_le

variable {s' : Scheduler}

theorem Evolves.slot_eq {s : Scheduler} (h : Evolves s s') {t : SchedTask}
    (ht : s.tasks[i]? = some t) (hstatus : t.status ≠ .pending) : s'.tasks[i]? = some t := by
  have hslot := h.slots i
  rw [ht] at hslot
  cases ht' : s'.tasks[i]? with
  | none =>
    rw [ht'] at hslot
    exact hslot.elim
  | some t' =>
    rw [ht'] at hslot
    rcases hslot with rfl | ⟨hwaits, -⟩
    · rfl
    · exact absurd hwaits hstatus

section Changes

variable {s : Scheduler} {i : Nat} {t : SchedTask}

theorem getElem?_setStatus (tasks : List SchedTask) (i : Nat) (status : SchedStatus) (j : Nat) :
    (setStatus tasks i status)[j]? =
      tasks[j]?.map fun t => if i = j then { t with status } else t := by
  rw [setStatus, getElem?_modify]
  rfl

theorem getElem?_setStatus_self {tasks : List SchedTask} (ht : tasks[i]? = some t)
    (status : SchedStatus) : (setStatus tasks i status)[i]? = some { t with status } := by
  rw [getElem?_setStatus, ht, map_some, if_pos rfl]

theorem getElem?_setStatus_ne (tasks : List SchedTask) {j : Nat} (h : i ≠ j)
    (status : SchedStatus) : (setStatus tasks i status)[j]? = tasks[j]? := by
  rw [getElem?_setStatus]
  simp only [if_neg h, Option.map_id']

theorem Scheduler.Sound.congr (h : s.Sound) (htasks : s'.tasks = s.tasks) (hmax : s'.max = s.max)
    (hlog : s'.log = s.log) : s'.Sound where
  max_le := hmax ▸ h.max_le
  length_le := htasks ▸ h.length_le
  active := htasks ▸ h.active
  recorded := by
    rw [htasks, hlog]
    exact h.recorded

variable {status : SchedStatus}

theorem Scheduler.Sound.change (h : s.Sound) (ht : s.tasks[i]? = some t)
    {log : List SchedEvent} (hrec : Recorded i (eventsOf i log) (some { t with status }))
    (hothers : ∀ j, i ≠ j → eventsOf j log = eventsOf j s.log) :
    Scheduler.Sound { s with tasks := setStatus s.tasks i status, log } where
  max_le := h.max_le
  length_le := (length_modify ..).trans_le h.length_le
  active := by
    intro u hu
    obtain ⟨j, hj⟩ := getElem?_of_mem hu
    rw [getElem?_setStatus] at hj
    obtain ⟨v, hv, rfl⟩ := map_eq_some_iff.mp hj
    have hactive := h.active v (mem_of_getElem? hv)
    split
    · exact hactive
    · exact hactive
  recorded := by
    intro j
    by_cases hij : i = j
    · subst hij
      rw [getElem?_setStatus_self ht]
      exact hrec
    · rw [getElem?_setStatus_ne _ hij, hothers j hij]
      exact h.recorded j

theorem Scheduler.Sound.settle (h : s.Sound) (ht : s.tasks[i]? = some t)
    (hwaits : t.status = .pending) {e : SchedEvent}
    (hrec : Recorded i [e] (some { t with status })) (he : e.slot = i) :
    (s.settle i status e).Sound := by
  have hnone : eventsOf i s.log = [] := by
    have hi := h.recorded i
    rw [ht] at hi
    simpa only [Recorded, hwaits] using hi
  refine h.change ht ?_ ?_
  · rw [eventsOf_append, hnone, if_pos he]
    exact hrec
  · intro j hij
    rw [eventsOf_append, if_neg (he ▸ hij), append_nil]

theorem Scheduler.Sound.finish (h : s.Sound) (ht : s.tasks[i]? = some t)
    (hruns : t.status = .running)
    (hends : status = .done ∨ status = .failed) : (s.finish i status).Sound := by
  have hran : ∃ time, eventsOf i s.log = [.executed i time] ∧ t.runAt ≤ time := by
    have hi := h.recorded i
    rw [ht] at hi
    simpa only [Recorded, hruns] using hi
  have hrec : Recorded i (eventsOf i s.log) (some { t with status }) := by
    rcases hends with rfl | rfl
    · exact hran
    · exact hran
  exact (h.change ht hrec fun _ _ => rfl).congr rfl rfl rfl

theorem getElem?_concat_cases (l : List SchedTask) (t : SchedTask) (j : Nat) :
    (l ++ [t])[j]? = l[j]? ∨ l[j]? = none ∧ (l ++ [t])[j]? = some t := by
  rcases Nat.lt_trichotomy j l.length with hlt | rfl | hgt
  · exact .inl (getElem?_append_left hlt)
  · exact .inr ⟨getElem?_eq_none (le_refl _), getElem?_concat_length⟩
  · rw [getElem?_eq_none hgt.le, getElem?_eq_none (by simpa using Nat.succ_le_of_lt hgt)]
    exact .inl rfl

theorem Scheduler.Sound.append (h : s.Sound) (hroom : s.tasks.length < schedMaxTasks)
    (ht : t.status = .pending) (hactive : t.active = true) (readings : Nat) :
    (s.append t readings).Sound where
  max_le := h.max_le
  length_le := by
    rw [Scheduler.append, length_append]
    exact hroom
  active := by
    intro u hu
    rcases mem_append.mp hu with hu | hu
    · exact h.active u hu
    · rw [mem_singleton.mp hu]
      exact hactive
  recorded := by
    intro j
    have hj := h.recorded j
    change Recorded j (eventsOf j s.log) (s.tasks ++ [t])[j]?
    rcases getElem?_concat_cases s.tasks t j with hold | ⟨hnone, hnew⟩
    · rw [hold]
      exact hj
    · -- what was never there has no history, and the new task waits
      rw [hnone] at hj
      rw [hnew]
      simp only [Recorded, ht]
      exact hj

theorem weight_settle (ht : s.tasks[i]? = some t) (hwaits : t.status = .pending)
    (hstatus : status ≠ .pending) (e : SchedEvent) :
    weight (s.settle i status e) + 1 = weight s := by
  have hcount := countP_modify_off (p := fun t : SchedTask => t.status = .pending)
    (f := fun t => { t with status }) (fun _ => decide_eq_false hstatus) ht
    (decide_eq_true hwaits)
  rw [weight, weight, ← hcount, Scheduler.settle, setStatus, length_modify]
  rfl

theorem weight_finish (ht : s.tasks[i]? = some t) (hwaits : t.status ≠ .pending)
    (hstatus : status ≠ .pending) :
    weight (s.finish i status) = weight s := by
  obtain ⟨hlt, rfl⟩ := List.getElem?_eq_some_iff.mp ht
  rw [weight, weight, Scheduler.finish, setStatus, length_modify, modify_eq_set ht, countP_set hlt]
  simp [hwaits, hstatus]

theorem weight_append (hroom : s.tasks.length < schedMaxTasks) (ht : t.status = .pending)
    (readings : Nat) : weight (s.append t readings) + 1 = weight s := by
  simp only [weight, Scheduler.append, length_append, length_singleton,
    countP_append, countP_singleton, ht, decide_true, if_true]
  omega

theorem Evolves.of_tasks (htasks : s'.tasks = s.tasks) : Evolves s s' where
  slots i := htasks ▸ .refl _
  weight_le := by rw [weight, htasks, weight]

theorem Evolves.settle (ht : s.tasks[i]? = some t) (hwaits : t.status = .pending)
    (hstatus : status ≠ .pending) (hends : status ≠ .running)
    (e : SchedEvent) : Evolves s (s.settle i status e) where
  slots j := by
    change SlotEvolves s.tasks[j]? (setStatus s.tasks i status)[j]?
    by_cases hij : i = j
    · subst hij
      rw [ht, getElem?_setStatus_self ht]
      exact .inr ⟨hwaits, hends, rfl⟩
    · rw [getElem?_setStatus_ne _ hij]
      exact .refl _
  weight_le := by
    rw [← weight_settle ht hwaits hstatus e]
    exact Nat.le_succ _

theorem Evolves.append (hroom : s.tasks.length < schedMaxTasks) (ht : t.status = .pending)
    (readings : Nat) : Evolves s (s.append t readings) where
  slots j := by
    change SlotEvolves s.tasks[j]? (s.tasks ++ [t])[j]?
    rcases getElem?_concat_cases s.tasks t j with hold | ⟨hnone, hnew⟩
    · rw [hold]
      exact .refl _
    · rw [hnone, hnew, SlotEvolves, ht]
      decide
  weight_le := by
    rw [← weight_append hroom ht readings]
    exact Nat.le_succ _

/-- A task is set running, brought to its end after a call, and followed by another. -/
theorem Evolves.run (ht : s.tasks[i]? = some t) (hwaits : t.status = .pending)
    (hends : status = .done ∨ status = .failed) {e : SchedEvent} {sent : Scheduler}
    (hsent : Evolves (s.settle i .running e) sent) (hafter : Evolves (sent.finish i status) s') :
    Evolves s s' ∧ s'.tasks[i]? = some { t with status } := by
  have hsettled : status ≠ .pending ∧ status ≠ .running := by
    rcases hends with rfl | rfl <;> decide
  have hruns : sent.tasks[i]? = some { t with status := .running } :=
    hsent.slot_eq (getElem?_setStatus_self ht .running) (by simp)
  have hslot : s'.tasks[i]? = some { t with status } :=
    hafter.slot_eq (getElem?_setStatus_self hruns status) hsettled.1
  refine ⟨⟨?_, ?_⟩, hslot⟩
  · intro j
    by_cases hij : i = j
    · subst hij
      rw [ht, hslot]
      exact .inr ⟨hwaits, hsettled.2, rfl⟩
    · have hbefore : SlotEvolves (setStatus s.tasks i .running)[j]? sent.tasks[j]? := hsent.slots j
      have hthen : SlotEvolves (setStatus sent.tasks i status)[j]? s'.tasks[j]? := hafter.slots j
      rw [getElem?_setStatus_ne _ hij] at hbefore hthen
      exact hbefore.trans hthen
  have hstart := weight_settle ht hwaits (by decide : SchedStatus.running ≠ .pending) e
  have hend := weight_finish hruns (by simp) hsettled.1
  have hle := hsent.weight_le
  have hle' := hafter.weight_le
  omega

end Changes

/-! ### Ticks and requests -/

/-- The handler serves every request in a state that is lighter than the bound. -/
def Handles (handle : SchedHandler) (w : Nat) : Prop :=
  ∀ s msg, s.Sound → weight s < w →
    Ends (fun r => r.1.Sound ∧ Evolves s r.1) (handle s msg)

def Checked (now : Int) (s : Scheduler) (i : Nat) : Prop :=
  ∀ t, s.tasks[i]? = some t → t.runAt ≤ now → t.status ≠ .pending

theorem Evolves.checked {s : Scheduler} (h : Evolves s s') {now : Int} (hi : i < s.tasks.length)
    (hc : Checked now s i) : Checked now s' i := by
  intro t' ht' hdue
  have ht := getElem?_eq_getElem hi
  have hslot := h.slots i
  rw [ht, ht'] at hslot
  rcases hslot with rfl | ⟨hwaits, -, hsame⟩
  · exact hc _ ht hdue
  · exact absurd hwaits (hc _ ht (hsame ▸ hdue))

section Requests

variable {env : SchedEnv} {handle : SchedHandler} {w : Nat} {s : Scheduler}

section

variable (hh : Handles handle w) (hs : s.Sound)

include hh hs

theorem callOut_ends (hw : weight s < w) :
    Ends (fun s' => s'.Sound ∧ Evolves s s') (callOut env handle s) := by
  have hstep : ∀ (a : Scheduler) (msg : SchedMsg), a.Sound ∧ Evolves s a →
      Ends (fun s' => s'.Sound ∧ Evolves s s') (do return (← handle a msg).1) := by
    rintro a msg ⟨hsound, hev⟩
    refine (hh a msg hsound (hev.weight_le.trans_lt hw)).bind ?_
    rintro r ⟨hr, hev'⟩
    exact ends_ok ⟨hr, hev.trans hev'⟩
  have hcalls : Scheduler.Sound { s with calls := s.calls + 1 } := hs.congr rfl rfl rfl
  exact ends_foldlM (fun a msg _ => hstep a msg) ⟨hcalls, .of_tasks rfl⟩

theorem sendTask_ends (hw : weight s < w) :
    Ends (fun r => r.1.Sound ∧ Evolves s r.1) (sendTask env handle s) := by
  unfold sendTask
  split
  · refine (callOut_ends hh hs hw).bind ?_
    intro s' hs'
    exact ends_ok hs'
  · exact ends_ok ⟨hs.congr rfl rfl rfl, .of_tasks rfl⟩

theorem runTask_ends (hw : weight s < w + 1) {t : SchedTask} (ht : s.tasks[i]? = some t)
    (hwaits : t.status = .pending) {now : Int} (hdue : t.runAt ≤ now) :
    Ends (fun s' => s'.Sound ∧ Evolves s s' ∧ ∃ t', s'.tasks[i]? = some t' ∧ t'.status ≠ .pending)
      (runTask env handle now s i) := by
  have hstarted : (s.settle i .running (.executed i now)).Sound :=
    hs.settle ht hwaits ⟨_, rfl, hdue⟩ rfl
  have hlighter := weight_settle ht hwaits (by decide : SchedStatus.running ≠ .pending)
    (.executed i now)
  refine (sendTask_ends hh hstarted (by omega)).bind ?_
  rintro ⟨sent, rc⟩ hr
  obtain ⟨hsent, hev⟩ : sent.Sound ∧ Evolves _ sent := hr
  have hruns : sent.tasks[i]? = some { t with status := .running } :=
    hev.slot_eq (getElem?_setStatus_self ht .running) (by simp)
  -- the result of the call decides between the two ends
  have hends : (if rc = 0 then SchedStatus.done else .failed) = .done ∨
      (if rc = 0 then SchedStatus.done else .failed) = .failed := by
    split
    · exact .inl rfl
    · exact .inr rfl
  have hsettled : (if rc = 0 then SchedStatus.done else .failed) ≠ .pending := by
    split <;> decide
  have hfinished := hsent.finish hruns rfl hends
  have hweight := weight_finish hruns (by simp) hsettled
  have hle := hev.weight_le
  refine (callOut_ends hh hfinished (by omega)).mono ?_
  rintro s' ⟨hs', hev'⟩
  obtain ⟨hevolves, hslot⟩ := Evolves.run ht hwaits hends hev hev'
  exact ⟨hs', hevolves, _, hslot, hsettled⟩

/-- One round of the loop checks one more slot: those before it are in use, so that nothing
new can appear in them. -/
theorem tickAt_ends {now : Int} (hw : weight s < w + 1) (hchecked : ∀ j < i, Checked now s j) :
    Ends (fun s' => s'.Sound ∧ Evolves s s' ∧ ∀ j < i + 1, Checked now s' j)
      (tickAt env handle now s i) := by
  have hstay : Checked now s i → Ends (fun s' => s'.Sound ∧ Evolves s s' ∧
      ∀ j < i + 1, Checked now s' j) (pure s : Except SchedStop Scheduler) := by
    intro hi
    refine ends_ok ⟨hs, .refl s, ?_⟩
    intro j hj
    rcases Nat.lt_succ_iff_lt_or_eq.mp hj with hj | rfl
    · exact hchecked j hj
    · exact hi
  unfold tickAt
  cases ht : s.tasks[i]? with
  | none =>
    refine hstay fun t ht' => ?_
    rw [ht] at ht'
    cases ht'
  | some t =>
    have hactive : t.active = true := hs.active t (mem_of_getElem? ht)
    have hslot : ∀ {u}, s.tasks[i]? = some u → u = t := by
      intro u hu
      exact some.inj (hu.symm.trans ht)
    simp only [hactive, Bool.not_true, Bool.false_or, decide_eq_true_eq]
    split
    · rename_i hsettled
      exact hstay fun u hu _ => hslot hu ▸ hsettled
    rename_i hwaits
    rw [ne_eq, not_not] at hwaits
    split
    · rename_i hdue
      refine (runTask_ends hh hs hw ht hwaits hdue).mono ?_
      rintro s' ⟨hs', hev, t', ht', hsettled⟩
      refine ⟨hs', hev, ?_⟩
      intro j hj
      rcases Nat.lt_succ_iff_lt_or_eq.mp hj with hj | rfl
      · have hi : i < s.tasks.length := (List.getElem?_eq_some_iff.mp ht).1
        exact hev.checked (hj.trans hi) (hchecked j hj)
      · intro u hu _
        rw [ht'] at hu
        exact some.inj hu ▸ hsettled
    · rename_i hearly
      exact hstay fun u hu hdue => absurd (hslot hu ▸ hdue) hearly

end

/-- A tick leaves no task that was due when it began. -/
theorem schedulerTick_ends (hh : Handles handle w) (hs : s.Sound) (hw : weight s < w + 1) :
    Ends (fun s' => s'.Sound ∧ Evolves s s' ∧ ∀ i, Checked (env.clock s.readings) s' i)
      (schedulerTick env handle s) := by
  have hstep : ∀ i a, (a.Sound ∧ Evolves { s with readings := s.readings + 1 } a ∧
      ∀ j < i, Checked (env.clock s.readings) a j) →
      Ends (fun a' => a'.Sound ∧ Evolves { s with readings := s.readings + 1 } a' ∧
        ∀ j < i + 1, Checked (env.clock s.readings) a' j)
        (tickAt env handle (env.clock s.readings) a i) := by
    rintro i a ⟨ha, hev, hchecked⟩
    refine (tickAt_ends hh ha (hev.weight_le.trans_lt hw) hchecked).mono ?_
    rintro a' ⟨ha', hev', hchecked'⟩
    exact ⟨ha', hev.trans hev', hchecked'⟩
  have hinit : Scheduler.Sound { s with readings := s.readings + 1 } := hs.congr rfl rfl rfl
  have hnone : ∀ j < 0, Checked (env.clock s.readings) { s with readings := s.readings + 1 } j :=
    fun j hj => absurd hj (Nat.not_lt_zero j)
  refine (ends_foldlM_range hstep ⟨hinit, .refl _, hnone⟩ schedMaxTasks).mono ?_
  rintro s' ⟨hs', hev, hchecked⟩
  have hread : Evolves s { s with readings := s.readings + 1 } := .of_tasks rfl
  refine ⟨hs', hread.trans hev, ?_⟩
  intro i t ht
  have hi : i < schedMaxTasks := (List.getElem?_eq_some_iff.mp ht).1.trans_le hs'.length_le
  exact hchecked i hi t ht

theorem scheduleTask_ends (hh : Handles handle w) (hs : s.Sound) (hw : weight s < w + 1)
    (msg : SchedMsg) :
    Ends (fun r => r.1.Sound ∧ Evolves s r.1) (scheduleTask env handle s msg) := by
  have hstay : ∀ status rc, Ends (fun r => r.1.Sound ∧ Evolves s r.1)
      (pure (s, status, rc) : Except SchedStop (Scheduler × PortalStatus × Int)) :=
    fun _ _ => ends_ok ⟨hs, .refl s⟩
  unfold scheduleTask
  split
  · split
    · exact hstay _ _
    · split
      · exact hstay _ _
      · rename_i hroom
        have hlt : s.tasks.length < schedMaxTasks := by
          have hmax := hs.max_le
          omega
        rw [if_neg (not_le.mpr hlt)]
        refine (callOut_ends hh (hs.append hlt rfl rfl _) ?_).bind ?_
        · exact Nat.succ_lt_succ_iff.mp ((weight_append hlt rfl _).trans_lt hw)
        · rintro s' ⟨hs', hev⟩
          exact ends_ok ⟨hs', (Evolves.append hlt rfl _).trans hev⟩
  · exact hstay _ _

theorem cancelTask_ends (hh : Handles handle w) (hs : s.Sound) (hw : weight s < w + 1)
    (msg : SchedMsg) :
    Ends (fun r => r.1.Sound ∧ Evolves s r.1) (cancelTask env handle s msg) := by
  unfold cancelTask
  split
  · exact ends_ok ⟨hs, .refl s⟩
  split
  · exact ends_ok ⟨hs, .refl s⟩
  rename_i i hfind
  obtain ⟨hlt, htest, -⟩ := findIdx?_eq_some_iff_getElem.mp hfind
  simp only [Bool.and_eq_true, decide_eq_true_eq] at htest
  have ht := getElem?_eq_getElem hlt
  have hsettled : (s.settle i .cancelled (.cancelled i)).Sound := hs.settle ht htest.2.1 rfl rfl
  have hev := Evolves.settle ht htest.2.1 (by decide : SchedStatus.cancelled ≠ .pending)
    (by decide) (.cancelled i)
  have hlighter := weight_settle ht htest.2.1 (by decide : SchedStatus.cancelled ≠ .pending)
    (.cancelled i)
  refine (callOut_ends hh hsettled (by omega)).bind ?_
  rintro s' ⟨hs', hev'⟩
  exact ends_ok ⟨hs', hev.trans hev'⟩

/-- A handler that serves the requests that come back serves the one that they came from. -/
theorem serveRequest_handles (hh : Handles handle w) :
    Handles (serveRequest env handle) (w + 1) := by
  intro s msg hs hw
  refine (schedulerTick_ends hh hs hw).bind ?_
  rintro s₁ ⟨hs₁, hev, -⟩
  have hw₁ : weight s₁ < w + 1 := hev.weight_le.trans_lt hw
  have hthen : ∀ {r : Scheduler × PortalStatus × Int}, r.1.Sound ∧ Evolves s₁ r.1 →
      r.1.Sound ∧ Evolves s r.1 := fun hr => ⟨hr.1, hev.trans hr.2⟩
  split
  · exact ends_ok ⟨hs₁, hev⟩
  split
  · exact ends_ok ⟨hs₁.congr rfl rfl rfl, hev.trans (.of_tasks rfl)⟩
  split
  · exact (scheduleTask_ends hh hs₁ hw₁ msg).mono fun _ => hthen
  split
  · exact (cancelTask_ends hh hs₁ hw₁ msg).mono fun _ => hthen
  split
  · refine (schedulerTick_ends hh hs₁ hw₁).bind ?_
    rintro s₂ ⟨hs₂, hev', -⟩
    exact ends_ok ⟨hs₂, hev.trans hev'⟩
  · exact ends_ok ⟨hs₁, hev⟩

/-- The depth of the calls is bounded by the weight of the state. -/
theorem handles_schedHandle : Handles (schedHandle env depth) depth := by
  induction depth with
  | zero => exact fun s msg _ hw => absurd hw (Nat.not_lt_zero _)
  | succ depth ih => exact serveRequest_handles ih

end Requests

/-! ### Tasks run once -/

def SchedEvent.executes (i : Nat) : SchedEvent → Bool
  | .executed j _ => j = i
  | .cancelled _ => false

/-- Each task was run at most once, not before its time and not after it was cancelled; and
a tick ends, after which every task that was due at its beginning has been run, unless it
was cancelled. -/
structure OneShot (env : SchedEnv) (depth : Nat) (s : Scheduler) : Prop where
  once : ∀ i, s.log.countP (SchedEvent.executes i) ≤ 1
  due : ∀ i time, .executed i time ∈ s.log → ∃ t, s.tasks[i]? = some t ∧ t.runAt ≤ time
  uncancelled : ∀ i before after, s.log = before ++ .cancelled i :: after →
    ∀ time, .executed i time ∉ after
  tick : ∃ s', schedulerTick env (schedHandle env depth) s = .ok s' ∧
    ∀ (i : Nat) (t : SchedTask), s'.tasks[i]? = some t → t.runAt ≤ env.clock s.readings →
      .cancelled i ∉ s'.log →
      (∃ time, .executed i time ∈ s'.log) ∧ (t.status = .done ∨ t.status = .failed)

section OneShot

variable {env : SchedEnv} {s : Scheduler} {i : Nat}

theorem Scheduler.Sound.events (h : s.Sound) (i : Nat) :
    eventsOf i s.log = [] ∨ eventsOf i s.log = [.cancelled i] ∨
      ∃ t time, s.tasks[i]? = some t ∧ eventsOf i s.log = [.executed i time] ∧ t.runAt ≤ time := by
  have hi := h.recorded i
  cases ht : s.tasks[i]? with
  | none =>
    rw [ht] at hi
    exact .inl hi
  | some t =>
    rw [ht] at hi
    cases hstatus : t.status with
    | pending => exact .inl (by simpa only [Recorded, hstatus] using hi)
    | cancelled => exact .inr (.inl (by simpa only [Recorded, hstatus] using hi))
    | running | done | failed =>
      obtain ⟨time, hevents, hdue⟩ :
          ∃ time, eventsOf i s.log = [.executed i time] ∧ t.runAt ≤ time := by
        simpa only [Recorded, hstatus] using hi
      exact .inr (.inr ⟨t, time, rfl, hevents, hdue⟩)

theorem countP_executes_le (i : Nat) (log : List SchedEvent) :
    log.countP (SchedEvent.executes i) ≤ (eventsOf i log).length := by
  rw [eventsOf, ← countP_eq_length_filter]
  refine countP_mono_left ?_
  intro e _ he
  cases e with
  | executed j time => exact he
  | cancelled j => cases he

/-- No task is running between the requests from outside. -/
def Scheduler.Idle (s : Scheduler) : Prop := ∀ t ∈ s.tasks, t.status ≠ .running

theorem Evolves.idle (h : Evolves s s') (hs : s.Idle) : s'.Idle := by
  intro t' ht'
  obtain ⟨j, hj⟩ := getElem?_of_mem ht'
  have hslot := h.slots j
  rw [hj] at hslot
  cases ht : s.tasks[j]? with
  | none =>
    rw [ht] at hslot
    exact hslot
  | some t =>
    rw [ht] at hslot
    rcases hslot with rfl | ⟨-, hnot, -⟩
    · exact hs _ (mem_of_getElem? ht)
    · exact hnot

theorem weight_le (s : Scheduler) (h : s.tasks.length ≤ schedMaxTasks) :
    weight s ≤ 2 * schedMaxTasks := by
  have hcount := countP_le_length (p := fun t : SchedTask => t.status = .pending) (l := s.tasks)
  unfold weight
  omega

theorem Scheduler.Sound.executed (h : s.Sound) {time : Int} (hmem : .executed i time ∈ s.log) :
    eventsOf i s.log = [.executed i time] ∧ ∃ t, s.tasks[i]? = some t ∧ t.runAt ≤ time := by
  have hevent : SchedEvent.executed i time ∈ eventsOf i s.log := mem_eventsOf.mpr ⟨hmem, rfl⟩
  rcases h.events i with hnone | hone | ⟨t, time', ht, hone, hdue⟩
  · rw [hnone] at hevent
    cases hevent
  · rw [hone] at hevent
    cases mem_singleton.mp hevent
  · rw [hone] at hevent
    cases mem_singleton.mp hevent
    exact ⟨hone, t, ht, hdue⟩

/-- A task that does not wait and does not run was run, unless it was cancelled. -/
theorem Scheduler.Sound.settled (h : s.Sound) {t : SchedTask} (ht : s.tasks[i]? = some t)
    (hwaits : t.status ≠ .pending) (hruns : t.status ≠ .running) (hnot : .cancelled i ∉ s.log) :
    (∃ time, .executed i time ∈ s.log) ∧ (t.status = .done ∨ t.status = .failed) := by
  have hrec := h.recorded i
  rw [ht] at hrec
  cases hstatus : t.status with
  | pending => exact absurd hstatus hwaits
  | running => exact absurd hstatus hruns
  | cancelled =>
    simp only [Recorded, hstatus] at hrec
    have hmem : SchedEvent.cancelled i ∈ eventsOf i s.log := hrec ▸ mem_singleton_self _
    exact absurd (mem_eventsOf.mp hmem).1 hnot
  | done | failed =>
    simp only [Recorded, hstatus] at hrec
    obtain ⟨time, hevents, -⟩ := hrec
    have hmem : SchedEvent.executed i time ∈ eventsOf i s.log := hevents ▸ mem_singleton_self _
    exact ⟨⟨time, (mem_eventsOf.mp hmem).1⟩, by simp⟩

theorem Scheduler.Sound.oneShot (h : s.Sound) (hidle : s.Idle) {depth : Nat}
    (hdepth : 2 * schedMaxTasks < depth) : OneShot env depth s where
  once i := by
    refine (countP_executes_le i s.log).trans ?_
    rcases h.events i with hnone | hone | ⟨t, time, -, hone, -⟩
    · simp [hnone]
    · simp [hone]
    · simp [hone]
  due i time hmem := (h.executed hmem).2
  uncancelled i before after hsplit time hmem := by
    have hcancel : SchedEvent.cancelled i ∈ eventsOf i s.log :=
      mem_eventsOf.mpr ⟨hsplit ▸ mem_append_right _ mem_cons_self, rfl⟩
    have hexec : SchedEvent.executed i time ∈ s.log :=
      hsplit ▸ mem_append_right _ (mem_cons_of_mem _ hmem)
    rw [(h.executed hexec).1] at hcancel
    cases mem_singleton.mp hcancel
  tick := by
    have hw := weight_le s h.length_le
    obtain ⟨s', hs', hsound, hev, hchecked⟩ := schedulerTick_ends (handles_schedHandle depth) h
      (show weight s < _ by omega)
    refine ⟨s', hs', ?_⟩
    intro i t ht hdue hnot
    exact hsound.settled ht (hchecked i t ht hdue)
      (hev.idle hidle t (mem_of_getElem? ht)) hnot

theorem schedRun_ends {depth : Nat} (hdepth : 2 * schedMaxTasks < depth)
    (hmax : schedMax maxTasks ≤ schedMaxTasks) (msgs : List SchedMsg) :
    Ends (fun s => s.Sound ∧ s.Idle) (schedRun env depth maxTasks msgs) := by
  have hstep : ∀ (s : Scheduler) (msg : SchedMsg), s.Sound ∧ s.Idle →
      Ends (fun s' => s'.Sound ∧ s'.Idle) (do return (← schedHandle env depth s msg).1) := by
    rintro s msg ⟨hs, hidle⟩
    have hw := weight_le s hs.length_le
    refine (handles_schedHandle depth s msg hs (by omega)).bind ?_
    rintro r ⟨hr, hev⟩
    exact ends_ok ⟨hr, hev.idle hidle⟩
  have hsound : (schedLoad maxTasks).Sound :=
    ⟨hmax, Nat.zero_le _, fun t ht => absurd ht not_mem_nil, fun i => rfl⟩
  exact ends_foldlM (fun s msg _ => hstep s msg)
    ⟨hsound, fun t ht => absurd ht not_mem_nil⟩

end OneShot

/-! ### A table that is larger than its array -/

def quietEnv : SchedEnv := ⟨fun _ => 0, fun _ => ⟨true, [], 0⟩⟩

def scheduleMsg : SchedMsg :=
  ⟨.lit "/scheduler/functions/schedule",
    [(.lit "name", .lit "t"), (.lit "path", .lit "/p"), (.lit "at", .lit "1")]⟩

def waitingTask (n : Nat) : SchedTask := ⟨n + 1, .lit "t", .lit "/p", 1, .pending, true⟩

def waiting (max : Int) (n : Nat) : Scheduler :=
  ⟨(List.range n).map waitingTask, max, n, 0, 2 * n, n, []⟩

theorem schedulerTick_early {env : SchedEnv} (handle : SchedHandler) {s : Scheduler}
    (h : ∀ t ∈ s.tasks, env.clock s.readings < t.runAt) :
    schedulerTick env handle s = .ok { s with readings := s.readings + 1 } := by
  have hround : ∀ i, tickAt env handle (env.clock s.readings)
      { s with readings := s.readings + 1 } i = .ok { s with readings := s.readings + 1 } := by
    intro i
    unfold tickAt
    split
    · rfl
    · rename_i t ht
      rw [if_neg (Int.not_le.mpr (h t (mem_of_getElem? ht))), ite_self]
      rfl
  unfold schedulerTick
  induction List.range schedMaxTasks with
  | nil => rfl
  | cons i rest ih =>
    rw [foldlM_cons, hround]
    exact ih

theorem serveRequest_schedule (env : SchedEnv) (handle : SchedHandler) (s : Scheduler)
    {msg : SchedMsg} (hpath : msg.path = .lit "/scheduler/functions/schedule") :
    serveRequest env handle s msg =
      schedulerTick env handle s >>= fun s => scheduleTask env handle s msg := by
  refine bind_congr fun s => ?_
  rw [hpath, if_neg (by decide), if_neg (by decide), if_pos rfl]

theorem waiting_early (max : Int) (n : Nat) : ∀ t ∈ (waiting max n).tasks, 0 < t.runAt := by
  intro t ht
  obtain ⟨k, -, rfl⟩ := mem_map.mp ht
  exact Int.zero_lt_one

/-- One more such request, as long as the limit is not reached. -/
theorem schedHandle_waiting {max : Int} {n : Nat} (hn : (n : Int) < max) :
    schedHandle quietEnv (depth + 1) (waiting max n) scheduleMsg =
      if schedMaxTasks ≤ n then .error .overrun else .ok (waiting max (n + 1), .created, 0) := by
  have hname : scheduleMsg.hdr "name" = some (.lit "t") := by decide
  have hpath : scheduleMsg.hdr "path" = some (.lit "/p") := by decide
  have hat : scheduleMsg.hdr "at" = some (.lit "1") := by decide
  have htime : strtol (CStr.lit "1").bytes = 1 := by decide
  have hshort : (CStr.lit "t").truncate 63 = .lit "t" ∧
      (CStr.lit "/p").truncate 1023 = .lit "/p" := by
    decide
  have hlen : (waiting max n).tasks.length = n := by
    rw [waiting, length_map, length_range]
  have hnext : (waiting max n).tasks ++ [waitingTask n] = (waiting max (n + 1)).tasks := by
    rw [waiting, waiting, range_succ, map_append]
    rfl
  rw [schedHandle, serveRequest_schedule _ _ _ rfl, schedulerTick_early _ (waiting_early max n)]
  change scheduleTask quietEnv _ { waiting max n with readings := 2 * n + 1 } scheduleMsg = _
  unfold scheduleTask
  simp only [hname, hpath, hat, isNone_some, Bool.and_false, Bool.false_eq_true, if_false,
    hlen, runAtOf, htime, hshort]
  rw [if_neg (show ¬ (waiting max n).max ≤ n from Int.not_le.mpr hn)]
  by_cases hfull : schedMaxTasks ≤ n
  · rw [if_pos hfull, if_pos hfull]
  · rw [if_neg hfull, if_neg hfull]
    change Except.ok ((⟨(waiting max n).tasks ++ [waitingTask n], max, n + 1, 0, 2 * n + 1 + 1,
      n + 1, []⟩ : Scheduler), PortalStatus.created, (0 : Int)) = _
    rw [hnext]
    rfl

theorem schedRun_waiting (hmax : (schedMaxTasks : Int) < schedMax maxTasks) {n : Nat}
    (hn : n ≤ schedMaxTasks) :
    schedRun quietEnv (depth + 1) maxTasks (List.replicate n scheduleMsg) =
      .ok (waiting (schedMax maxTasks) n) := by
  induction n with
  | zero => rfl
  | succ n ih =>
    have hlt : (n : Int) < schedMax maxTasks := by omega
    have hbefore := ih (Nat.le_of_succ_le hn)
    unfold schedRun at hbefore ⊢
    rw [replicate_succ', foldlM_concat hbefore, schedHandle_waiting depth hlt,
      if_neg (not_le.mpr hn)]
    rfl

theorem schedRun_overrun (hmax : (schedMaxTasks : Int) < schedMax maxTasks) :
    schedRun quietEnv (depth + 1) maxTasks (List.replicate (schedMaxTasks + 1) scheduleMsg) =
      .error .overrun := by
  have hbefore := schedRun_waiting depth hmax (le_refl _)
  unfold schedRun at hbefore ⊢
  rw [replicate_succ', foldlM_concat hbefore, schedHandle_waiting depth hmax, if_pos (le_refl _)]
  rfl

/-- Whatever the calls out do, every sequence of requests ends, each task is run at most once, at
its time or later and not after it was cancelled, and every tick leaves no task behind that was
due, exactly when no more tasks are admitted than the array has room for. -/
theorem one_shot_iff (maxTasks : Option CStr) :
    (∀ (env : SchedEnv) (depth : Nat) (msgs : List SchedMsg), env.Forward →
      2 * schedMaxTasks < depth →
      ∃ s, schedRun env depth maxTasks msgs = .ok s ∧ OneShot env depth s) ↔
    schedMax maxTasks ≤ schedMaxTasks := by
  constructor
  · intro hall
    by_contra hmax
    obtain ⟨s, hs, -⟩ := hall quietEnv (2 * schedMaxTasks + 1)
      (List.replicate (schedMaxTasks + 1) scheduleMsg) (fun _ _ _ => Int.le_refl _)
      (Nat.lt_succ_self _)
    rw [schedRun_overrun _ (Int.not_le.mp hmax)] at hs
    cases hs
  · intro hmax env depth msgs _ hdepth
    obtain ⟨s, hs, hsound, hidle⟩ := schedRun_ends hdepth hmax msgs
    exact ⟨s, hs, hsound.oneShot hidle hdepth⟩

/-- With a configured limit of 257, the 257th task is written behind the end of the array, and
the run has no end at all. -/
theorem one_shot_false :
    quietEnv.Forward ∧ 2 * schedMaxTasks < 513 ∧
      schedRun quietEnv 513 (some (.lit "257")) (List.replicate 257 scheduleMsg) =
        .error .overrun ∧
      ¬ ∃ s, schedRun quietEnv 513 (some (.lit "257")) (List.replicate 257 scheduleMsg) = .ok s ∧
        OneShot quietEnv 513 s := by
  have hrun : schedRun quietEnv 513 (some (.lit "257")) (List.replicate 257 scheduleMsg) =
      .error .overrun := schedRun_overrun 512 (by decide)
  refine ⟨fun _ _ _ => Int.le_refl _, by decide, hrun, ?_⟩
  rintro ⟨s, hs, -⟩
  rw [hrun] at hs
  cases hs

end Portal
