import Portal.Core.Router

/-!
Modules that call each other: the last part of `api_send` (`src/core/portal_instance.c`), and
loading and unloading (`src/core/core_module.c`), on one thread.

A handler may send messages, also to load or unload a module, so calls nest: the stack holds a
handler and the `api_send` around it, a `fn_load` or a `fn_unload`. What `dlopen` finds, what
module code returns and where it faults is up to the events. `closings` records every `fn_unload`
and `dlclose` with the number of handlers of the module that were running.
-/

namespace Portal

open List Runs Option

variable {i : Nat}

def portalMaxModules : Nat := 256

/-! ### The machine -/

structure ModuleSlot extends PortalModuleEntry where
  useCount : Int
  handle : Option Nat
deriving DecidableEq

/-- The locals of an `api_send` inside `fn_handle`: `entry`, the frame that `sigsetjmp` saves, and
whether `sa_old_segv` is the crash handler. -/
structure HandlerFrame where
  entry : Nat
  frame : Nat
  saOld : Bool
deriving DecidableEq

/-- A suspended call. `thenLoad` is the name that a reload goes on with. -/
inductive CallFrame where
  | handler (f : HandlerFrame)
  | loading (name : CStr) (handle : Nat)
  | unloading (entry : Nat) (thenLoad : Option CStr)
deriving DecidableEq

/-- Whether the process lives. It is `corrupt` after a jump to a frame that is gone, or a
write behind the module table. -/
inductive ProcessStatus where
  | running
  | exited
  | corrupt
deriving DecidableEq

inductive Closing where
  | fnUnload
  | dlclose
deriving DecidableEq

structure Calls where
  entries : List ModuleSlot
  stack : List CallFrame
  crashActive : Bool
  crashJmp : Nat
  crashSa : Bool
  nextFrame : Nat
  status : ProcessStatus
  closings : List (Closing × Nat)
deriving DecidableEq

def Calls.initial : Calls := ⟨[], [], false, 0, false, 0, .running, []⟩

def findSlot (entries : List ModuleSlot) (name : CStr) : Option (Nat × ModuleSlot) :=
  ((entries.findIdx? fun e => e.name = name && e.loaded).or
    (entries.findIdx? fun e => e.name = name)).bind fun i => entries[i]?.map fun e => (i, e)

def CallFrame.handles (i : Nat) : CallFrame → Bool
  | .handler f => f.entry = i
  | .loading _ _ => false
  | .unloading _ _ => false

def invocations (i : Nat) (stack : List CallFrame) : Nat := stack.countP (CallFrame.handles i)

def Calls.invocationsOf (w : Calls) (name : CStr) : Nat :=
  (findSlot w.entries name).elim 0 fun e => invocations e.1 w.stack

def Calls.close (w : Calls) (what : Closing) (invocations : Nat) : Calls :=
  { w with closings := (what, invocations) :: w.closings }

/-- `api_send` up to the call of `fn_handle`, for a message that is routed to the module. -/
def beginSend (w : Calls) (name : CStr) : Calls :=
  match findSlot w.entries name with
  | none => w
  | some (i, e) =>
    if !e.loaded || e.unloading then w
    else
      { w with
        entries := w.entries.modify i fun e => { e with useCount := e.useCount + 1 }
        stack := .handler ⟨i, w.nextFrame, w.crashSa⟩ :: w.stack
        crashSa := true
        crashActive := true
        crashJmp := w.nextFrame
        nextFrame := w.nextFrame + 1 }

def endSend (w : Calls) (f : HandlerFrame) (below : List CallFrame) (crashed : Bool) : Calls :=
  { w with
    entries := w.entries.modify f.entry fun e =>
      { e with loaded := e.loaded && !crashed, useCount := e.useCount - 1 }
    stack := below
    crashActive := false
    crashSa := f.saOld }

def unwindTo (frame : Nat) : List CallFrame → Option (HandlerFrame × List CallFrame)
  | [] => none
  | .handler f :: below => if f.frame = frame then some (f, below) else unwindTo frame below
  | .loading _ _ :: below => unwindTo frame below
  | .unloading _ _ :: below => unwindTo frame below

def raiseFault (w : Calls) : Calls :=
  if !w.crashSa || !w.crashActive then { w with status := .exited }
  else
    match unwindTo w.crashJmp w.stack with
    | none => { w with status := .corrupt }
    | some (f, below) => endSend w f below true

abbrev Dlopen := Option (Nat × Bool)

def portalModuleDoLoad (w : Calls) (name : CStr) (opened : Dlopen) : Calls :=
  if portalMaxModules ≤ w.entries.length then w
  else if (findSlot w.entries name).any fun e => e.2.loaded then w
  else
    match opened with
    | none => w
    | some (_, false) => w.close .dlclose (w.invocationsOf name)
    | some (handle, true) => { w with stack := .loading name handle :: w.stack }

/-- The rest, with what `fn_load` returned. A new entry is written without another look at the size
of the table. -/
def endLoad (w : Calls) (name : CStr) (handle : Nat) (ok : Bool) : Calls :=
  if !ok then w.close .dlclose (w.invocationsOf name)
  else
    match findSlot w.entries name with
    | some (i, _) =>
      { w with
        entries := w.entries.modify i fun e =>
          { e with
            name := name.truncate (portalMaxModuleName - 1)
            handle := some handle
            loaded := true } }
    | none =>
      if portalMaxModules ≤ w.entries.length then { w with status := .corrupt }
      else
        { w with
          entries := w.entries ++
            [⟨⟨name.truncate (portalMaxModuleName - 1), true, false⟩, 0, some handle⟩] }

/-- `portal_module_do_unload` up to the call of `fn_unload`. It waits for `use_count`, which
nobody changes meanwhile. -/
def portalModuleDoUnload (w : Calls) (name : CStr) (thenLoad : Option CStr) : Calls :=
  match findSlot w.entries name with
  | none => w
  | some (i, e) =>
    if !e.loaded then w
    else
      { w.close .fnUnload (invocations i w.stack) with
        entries := w.entries.modify i fun e => { e with unloading := true }
        stack := .unloading i thenLoad :: w.stack }

def endUnload (w : Calls) (i : Nat) (thenLoad : Option CStr) (opened : Dlopen) : Calls :=
  let closed := if (w.entries[i]?.bind ModuleSlot.handle).isSome then
    w.close .dlclose (invocations i w.stack) else w
  let unloaded :=
    { closed with
      entries := w.entries.modify i fun e =>
        { e with loaded := false, unloading := false, useCount := 0, handle := none } }
  match thenLoad with
  | none => unloaded
  | some name => portalModuleDoLoad unloaded name opened

inductive CallEvent where
  | send (name : CStr)
  | load (name : CStr) (opened : Dlopen)
  | unload (name : CStr)
  | reload (name : CStr)
  | returns (ok : Bool) (opened : Dlopen)
  | fault
deriving DecidableEq

def returnCall (w : Calls) (ok : Bool) (opened : Dlopen) : Calls :=
  match w.stack with
  | [] => w
  | .handler f :: below => endSend w f below false
  | .loading name handle :: below => endLoad { w with stack := below } name handle ok
  | .unloading i thenLoad :: below => endUnload { w with stack := below } i thenLoad opened

def callStep (w : Calls) (e : CallEvent) : Calls :=
  if w.status ≠ .running then w
  else
    match e with
    | .send name => beginSend w name
    | .load name opened => portalModuleDoLoad w name opened
    | .unload name => portalModuleDoUnload w name none
    | .reload name => portalModuleDoUnload w name (some name)
    | .returns ok opened => returnCall w ok opened
    | .fault => raiseFault w

def callsAfter (es : List CallEvent) : Calls := run callStep .initial es

/-! ### The crash guard -/

def innermost : List CallFrame → Option (HandlerFrame × List CallFrame)
  | [] => none
  | .handler f :: below => some (f, below)
  | .loading _ _ :: below => innermost below
  | .unloading _ _ :: below => innermost below

/-- A fault inside a handler is caught by the `api_send` of that handler, and only its module
is marked unloaded. -/
structure CrashIsolated (w : Calls) : Prop where
  alive : w.status ≠ .corrupt
  active : w.status = .running → (innermost w.stack).isSome → w.crashActive = true
  target : w.status = .running → ∀ f below, innermost w.stack = some (f, below) →
    w.crashJmp = f.frame ∧ (raiseFault w).status = .running ∧ (raiseFault w).stack = below
  marked : w.status = .running → ∀ f below, innermost w.stack = some (f, below) →
    ∀ i, (raiseFault w).entries[i]?.map (·.loaded) =
      w.entries[i]?.map fun e => e.loaded && decide (i ≠ f.entry)

/-- No handler ends while another one is running below it, and there is room in the table for
a module that has been loaded. -/
def EndsLast (w : Calls) (e : CallEvent) : Prop :=
  w.status = .running →
    match e with
    | .returns ok _ =>
      match w.stack with
      | .handler _ :: below => innermost below = none
      | .loading name _ :: _ =>
        ok = true → findSlot w.entries name = none → w.entries.length < portalMaxModules
      | _ => True
    | .fault => ∀ f below, innermost w.stack = some (f, below) → innermost below = none
    | _ => True

def SavedRight : List CallFrame → Bool → Prop
  | [], installed => installed = false
  | .handler f :: below, installed => installed = true ∧ SavedRight below f.saOld
  | .loading _ _ :: below, installed => SavedRight below installed
  | .unloading _ _ :: below, installed => SavedRight below installed

structure GuardInv (w : Calls) : Prop where
  target : w.crashActive = true →
    ∃ f below, innermost w.stack = some (f, below) ∧ w.crashJmp = f.frame
  installed : SavedRight w.stack w.crashSa

section Stack

variable {stack below : List CallFrame} {f : HandlerFrame}

theorem unwindTo_innermost (h : innermost stack = some (f, below)) :
    unwindTo f.frame stack = some (f, below) := by
  induction stack with
  | nil => cases h
  | cons c stack ih =>
    cases c with
    | handler g =>
      obtain ⟨rfl, rfl⟩ := Prod.mk.inj (some.inj h)
      exact if_pos rfl
    | loading name handle | unloading i thenLoad => exact ih h

theorem SavedRight.innermost {installed : Bool} (h : SavedRight stack installed)
    (hf : innermost stack = some (f, below)) : installed = true ∧ SavedRight below f.saOld := by
  induction stack with
  | nil => cases hf
  | cons c stack ih =>
    cases c with
    | handler g =>
      obtain ⟨rfl, rfl⟩ := Prod.mk.inj (some.inj hf)
      exact h
    | loading name handle | unloading i thenLoad => exact ih h hf

end Stack

variable {below : List CallFrame} {f : HandlerFrame} {e : CallEvent}

section Guard

variable {w w' : Calls}

structure SameGuard (w w' : Calls) : Prop where
  active : w'.crashActive = w.crashActive
  jmp : w'.crashJmp = w.crashJmp
  sa : w'.crashSa = w.crashSa
  innermost : innermost w'.stack = innermost w.stack
  saved : ∀ b, SavedRight w.stack b → SavedRight w'.stack b

theorem GuardInv.same (h : GuardInv w) (hsame : SameGuard w w') : GuardInv w' where
  target hactive := by
    obtain ⟨f, below, hf, hjmp⟩ := h.target (hsame.active ▸ hactive)
    exact ⟨f, below, hsame.innermost.trans hf, hsame.jmp.trans hjmp⟩
  installed := hsame.sa ▸ hsame.saved _ h.installed

theorem SameGuard.trans {w'' : Calls} (h : SameGuard w w') (h' : SameGuard w' w'') :
    SameGuard w w'' where
  active := h'.active.trans h.active
  jmp := h'.jmp.trans h.jmp
  sa := h'.sa.trans h.sa
  innermost := h'.innermost.trans h.innermost
  saved b hb := h'.saved b (h.saved b hb)

theorem sameGuard_of_stack (hactive : w'.crashActive = w.crashActive)
    (hjmp : w'.crashJmp = w.crashJmp) (hsa : w'.crashSa = w.crashSa) (hstack : w'.stack = w.stack) :
    SameGuard w w' :=
  ⟨hactive, hjmp, hsa, by rw [hstack], fun _ h => hstack ▸ h⟩

theorem sameGuard_doLoad (w : Calls) (name : CStr) (opened : Dlopen) :
    SameGuard w (portalModuleDoLoad w name opened) := by
  unfold portalModuleDoLoad
  split
  · exact sameGuard_of_stack rfl rfl rfl rfl
  split
  · exact sameGuard_of_stack rfl rfl rfl rfl
  split
  · exact sameGuard_of_stack rfl rfl rfl rfl
  · exact sameGuard_of_stack rfl rfl rfl rfl
  · exact ⟨rfl, rfl, rfl, rfl, fun _ h => h⟩

theorem sameGuard_endLoad (w : Calls) (name : CStr) (handle : Nat) (ok : Bool) :
    SameGuard w (endLoad w name handle ok) := by
  unfold endLoad
  split
  · exact sameGuard_of_stack rfl rfl rfl rfl
  · split
    · exact sameGuard_of_stack rfl rfl rfl rfl
    · split <;> exact sameGuard_of_stack rfl rfl rfl rfl

theorem sameGuard_doUnload (w : Calls) (name : CStr) (thenLoad : Option CStr) :
    SameGuard w (portalModuleDoUnload w name thenLoad) := by
  unfold portalModuleDoUnload
  split
  · exact sameGuard_of_stack rfl rfl rfl rfl
  · split
    · exact sameGuard_of_stack rfl rfl rfl rfl
    · exact ⟨rfl, rfl, rfl, rfl, fun _ h => h⟩

theorem sameGuard_endUnload (w : Calls) (i : Nat) (thenLoad : Option CStr) (opened : Dlopen) :
    SameGuard w (endUnload w i thenLoad opened) := by
  have hclosed (entries : List ModuleSlot) : SameGuard w
      { (if (w.entries[i]?.bind ModuleSlot.handle).isSome then
          w.close .dlclose (invocations i w.stack) else w) with entries := entries } := by
    split <;> exact sameGuard_of_stack rfl rfl rfl rfl
  cases thenLoad with
  | none => exact hclosed _
  | some name => exact (hclosed _).trans (sameGuard_doLoad _ name opened)

theorem guardInv_beginSend (h : GuardInv w) (name : CStr) : GuardInv (beginSend w name) := by
  unfold beginSend
  split
  · exact h
  · split
    · exact h
    · exact ⟨fun _ => ⟨_, _, rfl, rfl⟩, rfl, h.installed⟩

theorem guardInv_endSend (h : SavedRight below f.saOld) (crashed : Bool) :
    GuardInv (endSend w f below crashed) :=
  ⟨fun hactive => absurd hactive Bool.false_ne_true, h⟩

/-- With the guard active, a fault ends the innermost handler. -/
theorem raiseFault_active (h : GuardInv w) (hf : innermost w.stack = some (f, below))
    (hactive : w.crashActive = true) :
    w.crashJmp = f.frame ∧ raiseFault w = endSend w f below true := by
  obtain ⟨g, below', hg, hjmp⟩ := h.target hactive
  obtain ⟨rfl, rfl⟩ := Prod.mk.inj (some.inj (hf.symm.trans hg))
  have hsa := (h.installed.innermost hf).1
  unfold raiseFault
  rw [hjmp, unwindTo_innermost hf, hactive, hsa]
  exact ⟨rfl, rfl⟩

theorem raiseFault_inactive (hactive : w.crashActive = false) :
    raiseFault w = { w with status := .exited } := by
  unfold raiseFault
  rw [hactive]
  exact if_pos (Bool.or_true _)

theorem guardInv_raiseFault (h : GuardInv w) : GuardInv (raiseFault w) := by
  cases hactive : w.crashActive with
  | false =>
    rw [raiseFault_inactive hactive]
    exact h.same (sameGuard_of_stack rfl rfl rfl rfl)
  | true =>
    obtain ⟨f, below, hf, -⟩ := h.target hactive
    rw [(raiseFault_active h hf hactive).2]
    exact guardInv_endSend (h.installed.innermost hf).2 true

theorem sameGuard_pop {c : CallFrame} (hstack : w.stack = c :: below)
    (hc : innermost (c :: below) = innermost below)
    (hsaved : ∀ b, SavedRight (c :: below) b → SavedRight below b) :
    SameGuard w { w with stack := below } :=
  ⟨rfl, rfl, rfl, hstack ▸ hc.symm, hstack ▸ hsaved⟩

theorem sameGuard_returnLoad {name : CStr} {handle : Nat}
    (hstack : w.stack = .loading name handle :: below) (ok : Bool) :
    SameGuard w (endLoad { w with stack := below } name handle ok) :=
  (sameGuard_pop hstack rfl fun _ hb => hb).trans (sameGuard_endLoad _ name handle ok)

theorem sameGuard_returnUnload {thenLoad : Option CStr}
    (hstack : w.stack = .unloading i thenLoad :: below) (opened : Dlopen) :
    SameGuard w (endUnload { w with stack := below } i thenLoad opened) :=
  (sameGuard_pop hstack rfl fun _ hb => hb).trans (sameGuard_endUnload _ i thenLoad opened)

theorem guardInv_returnCall (h : GuardInv w) (ok : Bool) (opened : Dlopen) :
    GuardInv (returnCall w ok opened) := by
  unfold returnCall
  split
  · exact h
  · rename_i f below hstack
    have hsaved := h.installed
    rw [hstack] at hsaved
    exact guardInv_endSend hsaved.2 false
  · rename_i name handle below hstack
    exact h.same (sameGuard_returnLoad hstack ok)
  · rename_i i thenLoad below hstack
    exact h.same (sameGuard_returnUnload hstack opened)

theorem guardInv_step (h : GuardInv w) (e : CallEvent) : GuardInv (callStep w e) := by
  unfold callStep
  split
  · exact h
  cases e with
  | send name => exact guardInv_beginSend h name
  | load name opened => exact h.same (sameGuard_doLoad w name opened)
  | unload name => exact h.same (sameGuard_doUnload w name none)
  | reload name => exact h.same (sameGuard_doUnload w name (some name))
  | returns ok opened => exact guardInv_returnCall h ok opened
  | fault => exact guardInv_raiseFault h

/-- In every run the guard, if it is active, has the innermost handler as its target. -/
theorem guardInv_run (es : List CallEvent) : GuardInv (callsAfter es) :=
  have hinit : GuardInv .initial := ⟨fun hactive => absurd hactive Bool.false_ne_true, rfl⟩
  @run_invariant _ _ callStep GuardInv (fun _ e h => guardInv_step h e) _ hinit es

theorem crashIsolated_of_active (h : GuardInv w) (halive : w.status ≠ .corrupt)
    (hactive : w.status = .running → (innermost w.stack).isSome → w.crashActive = true) :
    CrashIsolated w where
  alive := halive
  active := hactive
  target hrunning f below hf := by
    obtain ⟨hjmp, hfault⟩ := raiseFault_active h hf (hactive hrunning (hf ▸ rfl))
    rw [hfault]
    exact ⟨hjmp, hrunning, rfl⟩
  marked hrunning f below hf i := by
    rw [(raiseFault_active h hf (hactive hrunning (hf ▸ rfl))).2, endSend, getElem?_modify]
    by_cases hi : f.entry = i
    · simp [hi, Function.comp_def]
    · simp [hi, Ne.symm hi]

theorem active_same (hsame : SameGuard w w')
    (hactive : (innermost w.stack).isSome → w.crashActive = true)
    (hsome : (innermost w'.stack).isSome) : w'.crashActive = true := by
  rw [hsame.innermost] at hsome
  rw [hsame.active]
  exact hactive hsome

theorem status_doLoad (w : Calls) (name : CStr) (opened : Dlopen) :
    (portalModuleDoLoad w name opened).status = w.status := by
  unfold portalModuleDoLoad
  split
  · rfl
  · split
    · rfl
    · split <;> rfl

theorem status_doUnload (w : Calls) (name : CStr) (thenLoad : Option CStr) :
    (portalModuleDoUnload w name thenLoad).status = w.status := by
  unfold portalModuleDoUnload
  split
  · rfl
  · split <;> rfl

theorem status_endUnload (w : Calls) (i : Nat) (thenLoad : Option CStr) (opened : Dlopen) :
    (endUnload w i thenLoad opened).status = w.status := by
  have hclosed : (if (w.entries[i]?.bind ModuleSlot.handle).isSome then
      w.close .dlclose (invocations i w.stack) else w).status = w.status := by
    split <;> rfl
  cases thenLoad with
  | none => exact hclosed
  | some name => exact (status_doLoad _ name opened).trans hclosed

theorem status_endLoad (w : Calls) (name : CStr) (handle : Nat) (ok : Bool) :
    (endLoad w name handle ok).status = if ok = true ∧ findSlot w.entries name = none ∧
      portalMaxModules ≤ w.entries.length then .corrupt else w.status := by
  unfold endLoad
  cases ok with
  | false => rfl
  | true =>
    cases hslot : findSlot w.entries name with
    | some e => simp
    | none => by_cases hroom : portalMaxModules ≤ w.entries.length <;> simp [hroom]

structure GuardOn (w : Calls) : Prop extends GuardInv w where
  alive : w.status ≠ .corrupt
  active : w.status = .running → (innermost w.stack).isSome → w.crashActive = true

theorem GuardOn.same (h : GuardOn w) (hrunning : w.status = .running) (hsame : SameGuard w w')
    (halive : w'.status ≠ .corrupt) : GuardOn w' where
  toGuardInv := h.toGuardInv.same hsame
  alive := halive
  active _ := active_same hsame (h.active hrunning)

theorem guardOn_endSend {crashed : Bool} (hinv : GuardInv (endSend w f below crashed))
    (halive : w.status ≠ .corrupt) (hlast : innermost below = none) :
    GuardOn (endSend w f below crashed) where
  toGuardInv := hinv
  alive := halive
  active _ hsome := by
    change (innermost below).isSome at hsome
    rw [hlast] at hsome
    cases hsome

theorem guardOn_returnCall (h : GuardOn w) (hrunning : w.status = .running) {ok : Bool}
    {opened : Dlopen} (hlast : EndsLast w (.returns ok opened)) :
    GuardOn (returnCall w ok opened) := by
  have hcond := hlast hrunning
  have hinv := guardInv_returnCall h.toGuardInv ok opened
  unfold returnCall at hinv ⊢
  simp only at hcond
  cases hstack : w.stack with
  | nil => exact h
  | cons c below =>
    rw [hstack] at hcond hinv
    cases c with
    | handler f => exact guardOn_endSend hinv h.alive hcond
    | loading name handle =>
      have hstatus := status_endLoad { w with stack := below } name handle ok
      rw [if_neg fun hfull => not_lt.mpr hfull.2.2 (hcond hfull.1 hfull.2.1)] at hstatus
      have halive : (endLoad { w with stack := below } name handle ok).status ≠ .corrupt := by
        rw [hstatus]
        exact h.alive
      exact h.same hrunning (sameGuard_returnLoad hstack ok) halive
    | unloading i thenLoad =>
      have halive : (endUnload { w with stack := below } i thenLoad opened).status ≠
          .corrupt := by
        rw [status_endUnload]
        exact h.alive
      exact h.same hrunning (sameGuard_returnUnload hstack opened) halive

theorem guardOn_beginSend (h : GuardOn w) (name : CStr) : GuardOn (beginSend w name) := by
  have hinv := guardInv_beginSend h.toGuardInv name
  unfold beginSend at hinv ⊢
  split
  · exact h
  rename_i i e hslot
  rw [hslot] at hinv
  simp only at hinv
  split
  · exact h
  · rename_i hok
    rw [if_neg hok] at hinv
    exact ⟨hinv, h.alive, fun _ _ => rfl⟩

theorem guardOn_raiseFault (h : GuardOn w) (hrunning : w.status = .running)
    (hlast : EndsLast w .fault) : GuardOn (raiseFault w) := by
  have hinv := guardInv_raiseFault h.toGuardInv
  cases hactive : w.crashActive with
  | false =>
    rw [raiseFault_inactive hactive] at hinv ⊢
    exact ⟨hinv, ProcessStatus.noConfusion, fun hexited => ProcessStatus.noConfusion hexited⟩
  | true =>
    obtain ⟨f, below, hf, -⟩ := h.target hactive
    rw [(raiseFault_active h.toGuardInv hf hactive).2] at hinv ⊢
    exact guardOn_endSend hinv h.alive (hlast hrunning f below hf)

theorem guardOn_step (h : GuardOn w) (hlast : EndsLast w e) : GuardOn (callStep w e) := by
  unfold callStep
  split
  · exact h
  rename_i hstatus
  have hrunning := not_not.mp hstatus
  cases e with
  | send name => exact guardOn_beginSend h name
  | load name opened =>
    exact h.same hrunning (sameGuard_doLoad w name opened)
      (status_doLoad w name opened ▸ h.alive)
  | unload name =>
    exact h.same hrunning (sameGuard_doUnload w name none)
      (status_doUnload w name none ▸ h.alive)
  | reload name =>
    exact h.same hrunning (sameGuard_doUnload w name (some name))
      (status_doUnload w name (some name) ▸ h.alive)
  | returns ok opened => exact guardOn_returnCall h hrunning hlast
  | fault => exact guardOn_raiseFault h hrunning hlast

/-- A handler that ends above another one leaves that one without a guard. -/
theorem innermost_eq_none_of_isolated {crashed : Bool} (hrunning : w.status = .running)
    (h : CrashIsolated (endSend w f below crashed)) : innermost below = none := by
  by_contra hne
  have hsome : (innermost below).isSome := Option.isSome_iff_ne_none.mpr hne
  exact absurd (h.active hrunning hsome) Bool.false_ne_true

theorem endsLast_of_isolated (h : GuardOn w) (hnext : CrashIsolated (callStep w e)) :
    EndsLast w e := by
  intro hrunning
  have hstep : ¬ w.status ≠ .running := not_not.mpr hrunning
  unfold callStep at hnext
  rw [if_neg hstep] at hnext
  cases e with
  | send name | load name opened | unload name | reload name => trivial
  | returns ok opened =>
    simp only [returnCall] at hnext ⊢
    cases hstack : w.stack with
    | nil => trivial
    | cons c below =>
      rw [hstack] at hnext
      cases c with
      | handler f => exact innermost_eq_none_of_isolated hrunning hnext
      | loading name handle =>
        intro hok hslot
        by_contra hfull
        apply hnext.alive
        rw [status_endLoad]
        exact if_pos ⟨hok, hslot, not_lt.mp hfull⟩
      | unloading i thenLoad => trivial
  | fault =>
    intro f below hf
    have hactive := h.active hrunning (hf ▸ rfl)
    simp only [(raiseFault_active h.toGuardInv hf hactive).2] at hnext
    exact innermost_eq_none_of_isolated hrunning hnext

end Guard

/-- Faults in handlers are contained at every moment of a run exactly if no handler ends while
another one is running below it. -/
theorem crash_isolated_iff (es : List CallEvent) :
    (∀ es', es' <+: es → CrashIsolated (callsAfter es')) ↔ Along callStep EndsLast .initial es := by
  have hinit : GuardOn .initial :=
    ⟨guardInv_run [], ProcessStatus.noConfusion, fun _ hsome => absurd hsome Bool.false_ne_true⟩
  have hany : Along callStep (fun _ _ => True) .initial es :=
    along_of_forall (fun _ _ _ => trivial) _
  have hisolated (w : Calls) (h : GuardOn w) : CrashIsolated w :=
    crashIsolated_of_active h.toGuardInv h.alive h.active
  exact along_iff_forall hisolated (fun _ _ h _ hlast => guardOn_step h hlast)
    (fun _ _ h _ hnext => endsLast_of_isolated h hnext) hinit hany

def nestedSend : List CallEvent :=
  [.load (.lit "a") (some (1, true)), .returns true none, .load (.lit "b") (some (2, true)),
    .returns true none, .send (.lit "a"), .send (.lit "b"), .returns true none]

/-- The inner handler has returned, the outer one is running; a fault in it ends the process. -/
theorem crash_isolated_false :
    (innermost (callsAfter nestedSend).stack).isSome ∧
      ¬ CrashIsolated (callsAfter nestedSend) ∧
      (callsAfter (nestedSend ++ [.fault])).status = .exited := by
  refine ⟨by decide, fun h => ?_, by decide⟩
  exact absurd (h.active (by decide) (by decide)) (by decide)

/-! ### Use counts -/

/-- Each use count is the number of handlers on the stack, and nothing has been closed while
there were any. -/
structure UseCountsRight (w : Calls) : Prop where
  alive : w.status ≠ .corrupt
  counts : ∀ i e, w.entries[i]? = some e → e.useCount = (invocations i w.stack : Int)
  idle : ∀ c ∈ w.closings, c.2 = 0

/-- A library that is closed again right after it was opened is not that of a module with
running handlers. -/
def OpensIdle (w : Calls) (name : CStr) (opened : Dlopen) : Prop :=
  ∀ handle, opened = some (handle, false) → w.entries.length < portalMaxModules →
    ((findSlot w.entries name).any fun e => e.2.loaded) = false → w.invocationsOf name = 0

/-- No module with running handlers is unloaded, or fails to load, and there is room in the
table for a module that has been loaded. -/
def ClosesIdle (w : Calls) (e : CallEvent) : Prop :=
  w.status = .running →
    match e with
    | .load name opened => OpensIdle w name opened
    | .unload name | .reload name =>
      ∀ i e, findSlot w.entries name = some (i, e) → e.loaded = true → invocations i w.stack = 0
    | .returns ok opened =>
      match w.stack with
      | .loading name _ :: below =>
        if ok then findSlot w.entries name = none → w.entries.length < portalMaxModules
        else Calls.invocationsOf { w with stack := below } name = 0
      | .unloading i (some name) :: below =>
        OpensIdle (endUnload { w with stack := below } i none none) name opened
      | _ => True
    | _ => True

def UnloadsIdle : List CallFrame → Prop
  | [] => True
  | .handler _ :: below => UnloadsIdle below
  | .loading _ _ :: below => UnloadsIdle below
  | .unloading i _ :: below => invocations i below = 0 ∧ UnloadsIdle below

structure CountsInv (w : Calls) : Prop extends GuardInv w, UseCountsRight w where
  known : ∀ i, w.entries.length ≤ i → invocations i w.stack = 0
  unloads : UnloadsIdle w.stack

section Invocations

variable {stack below : List CallFrame} {f : HandlerFrame}

theorem invocations_handler (i : Nat) (f : HandlerFrame) (below : List CallFrame) :
    invocations i (.handler f :: below) = invocations i below + if f.entry = i then 1 else 0 := by
  by_cases h : f.entry = i <;> simp [invocations, CallFrame.handles, h]

theorem invocations_innermost (h : innermost stack = some (f, below)) (i : Nat) :
    invocations i stack = invocations i (.handler f :: below) := by
  induction stack with
  | nil => cases h
  | cons c stack ih =>
    cases c with
    | handler g =>
      obtain ⟨rfl, rfl⟩ := Prod.mk.inj (some.inj h)
      rfl
    | loading name handle | unloading j thenLoad => exact ih h

theorem UnloadsIdle.innermost (hidle : UnloadsIdle stack)
    (h : innermost stack = some (f, below)) : UnloadsIdle below := by
  induction stack with
  | nil => cases h
  | cons c stack ih =>
    cases c with
    | handler g =>
      obtain ⟨rfl, rfl⟩ := Prod.mk.inj (some.inj h)
      exact hidle
    | loading name handle => exact ih hidle h
    | unloading j thenLoad => exact ih hidle.2 h

end Invocations

theorem findSlot_eq_some {entries : List ModuleSlot} {name : CStr} {e : ModuleSlot}
    (h : findSlot entries name = some (i, e)) : entries[i]? = some e := by
  obtain ⟨j, -, hj⟩ := bind_eq_some_iff.mp h
  obtain ⟨e', he', heq⟩ := map_eq_some_iff.mp hj
  obtain ⟨rfl, rfl⟩ := Prod.mk.inj heq
  exact he'

section Counts

variable {w : Calls}

theorem counts_modify {entries : List ModuleSlot} {stack stack' : List CallFrame}
    {g : ModuleSlot → ModuleSlot}
    (h : ∀ j e, entries[j]? = some e → e.useCount = (invocations j stack : Int))
    (hi : ∀ e, entries[i]? = some e → (g e).useCount = (invocations i stack' : Int))
    (hother : ∀ j, i ≠ j → invocations j stack' = invocations j stack) (j : Nat) (e : ModuleSlot)
    (he : (entries.modify i g)[j]? = some e) : e.useCount = (invocations j stack' : Int) := by
  rw [getElem?_modify] at he
  by_cases hij : i = j
  · subst hij
    obtain ⟨e', he', rfl⟩ := map_eq_some_iff.mp he
    rw [if_pos rfl]
    exact hi e' he'
  · obtain ⟨e', he', rfl⟩ := map_eq_some_iff.mp he
    rw [if_neg hij, hother j hij]
    exact h j e' he'

theorem CountsInv.beginSend (h : CountsInv w) (name : CStr) : CountsInv (beginSend w name) := by
  have hinv := guardInv_beginSend h.toGuardInv name
  unfold Portal.beginSend at hinv ⊢
  cases hslot : findSlot w.entries name with
  | none => exact h
  | some slot =>
    obtain ⟨i, e⟩ := slot
    rw [hslot] at hinv
    have hentry := findSlot_eq_some hslot
    simp only at hinv ⊢
    split
    · exact h
    rename_i hok
    rw [if_neg hok] at hinv
    refine ⟨hinv, ⟨h.alive, ?_, h.idle⟩, fun j hj => ?_, h.unloads⟩
    · refine counts_modify h.counts (fun e' he' => ?_) fun j hij => ?_
      · rw [invocations_handler, if_pos rfl]
        simp [h.counts i e' he']
      · rw [invocations_handler, if_neg hij, add_zero]
    have hlt : i < w.entries.length := (List.getElem?_eq_some_iff.mp hentry).1
    simp only [length_modify] at hj
    have hne : i ≠ j := by omega
    rw [invocations_handler, if_neg hne, h.known j hj]

theorem CountsInv.endSend (h : CountsInv w) (hf : innermost w.stack = some (f, below))
    (crashed : Bool) :
    CountsInv (endSend w f below crashed) where
  toGuardInv := guardInv_endSend (h.installed.innermost hf).2 crashed
  alive := h.alive
  counts := by
    refine counts_modify h.counts (fun e he => ?_) fun j hj => ?_
    · have hcount := h.counts f.entry e he
      rw [invocations_innermost hf, invocations_handler, if_pos rfl] at hcount
      simp [hcount, Portal.endSend]
    · rw [invocations_innermost hf, invocations_handler, if_neg hj, add_zero]
      rfl
  idle := h.idle
  known j hj := by
    have hnone := h.known j (by simpa [Portal.endSend] using hj)
    rw [invocations_innermost hf, invocations_handler] at hnone
    exact Nat.eq_zero_of_add_eq_zero_right hnone
  unloads := h.unloads.innermost hf

theorem CountsInv.raiseFault (h : CountsInv w) : CountsInv (raiseFault w) := by
  cases hactive : w.crashActive with
  | false =>
    rw [raiseFault_inactive hactive]
    have hinv : GuardInv { w with status := .exited } :=
      h.toGuardInv.same (sameGuard_of_stack rfl rfl rfl rfl)
    exact ⟨hinv, ⟨ProcessStatus.noConfusion, h.counts, h.idle⟩, h.known, h.unloads⟩
  | true =>
    obtain ⟨f, below, hf, -⟩ := h.target hactive
    rw [(raiseFault_active h.toGuardInv hf hactive).2]
    exact h.endSend hf true

/-- Something is closed while no handler of its module is running. -/
theorem CountsInv.close (h : CountsInv w) (what : Closing) {n : Nat} (hn : n = 0) :
    CountsInv (w.close what n) where
  toGuardInv := h.toGuardInv.same (sameGuard_of_stack rfl rfl rfl rfl)
  alive := h.alive
  counts := h.counts
  idle := forall_mem_cons.mpr ⟨hn, h.idle⟩
  known := h.known
  unloads := h.unloads

variable {name : CStr} {opened : Dlopen}

section

variable (h : CountsInv w)

include h

theorem CountsInv.doLoad (hidle : OpensIdle w name opened) :
    CountsInv (portalModuleDoLoad w name opened) := by
  have hinv := h.toGuardInv.same (sameGuard_doLoad w name opened)
  unfold portalModuleDoLoad at hinv ⊢
  split
  · exact h
  rename_i hroom
  split
  · exact h
  rename_i hloaded
  rcases opened with _ | ⟨handle, _ | _⟩
  · exact h
  · exact h.close .dlclose
      (hidle handle rfl (not_le.mp hroom) (Bool.eq_false_iff.mpr hloaded))
  · rw [if_neg hroom, if_neg hloaded] at hinv
    exact ⟨hinv, ⟨h.alive, h.counts, h.idle⟩, h.known, h.unloads⟩

theorem CountsInv.endLoad {ok : Bool} (handle : Nat)
    (hcond : if ok then findSlot w.entries name = none → w.entries.length < portalMaxModules
      else w.invocationsOf name = 0) : CountsInv (endLoad w name handle ok) := by
  have hinv := h.toGuardInv.same (sameGuard_endLoad w name handle ok)
  unfold Portal.endLoad at hinv ⊢
  cases ok with
  | false => exact h.close .dlclose hcond
  | true =>
    cases hslot : findSlot w.entries name with
    | some slot =>
      rw [hslot] at hinv
      refine ⟨hinv, ⟨h.alive, ?_, h.idle⟩, fun j hj => ?_, h.unloads⟩
      · exact counts_modify h.counts (fun e he => h.counts slot.1 e he) fun _ _ => rfl
      · exact h.known j (by simpa using hj)
    | none =>
      have hroom : ¬ portalMaxModules ≤ w.entries.length := not_le.mpr (hcond hslot)
      rw [hslot] at hinv
      simp only [Bool.not_true, Bool.false_eq_true, if_false, if_neg hroom] at hinv ⊢
      refine ⟨hinv, ⟨h.alive, fun j e he => ?_, h.idle⟩, fun j hj => ?_, h.unloads⟩
      · rw [getElem?_append] at he
        split at he
        · exact h.counts j e he
        rename_i hj
        obtain rfl := mem_singleton.mp (mem_of_getElem? he)
        rw [h.known j (not_lt.mp hj)]
        rfl
      · rw [length_append] at hj
        exact h.known j (Nat.le_of_add_right_le hj)

theorem CountsInv.doUnload (thenLoad : Option CStr)
    (hidle : ∀ i e, findSlot w.entries name = some (i, e) → e.loaded = true →
      invocations i w.stack = 0) : CountsInv (portalModuleDoUnload w name thenLoad) := by
  have hinv := h.toGuardInv.same (sameGuard_doUnload w name thenLoad)
  unfold portalModuleDoUnload at hinv ⊢
  cases hslot : findSlot w.entries name with
  | none => exact h
  | some slot =>
    obtain ⟨i, e⟩ := slot
    rw [hslot] at hinv
    simp only at hinv ⊢
    split
    · exact h
    rename_i hloaded
    rw [if_neg hloaded] at hinv
    have hzero := hidle i e hslot (by simpa using hloaded)
    refine ⟨hinv, ⟨h.alive, ?_, ?_⟩, fun j hj => ?_, hzero, h.unloads⟩
    · exact counts_modify h.counts (fun e he => h.counts i e he) fun _ _ => rfl
    · exact forall_mem_cons.mpr ⟨hzero, h.idle⟩
    · exact h.known j (by simpa using hj)

theorem CountsInv.endUnload_none (hidle : invocations i w.stack = 0) (opened : Dlopen) :
    CountsInv (endUnload w i none opened) := by
  have hinv := h.toGuardInv.same (sameGuard_endUnload w i none opened)
  have hcounts : ∀ j e, (w.entries.modify i fun e => { e with
      loaded := false, unloading := false, useCount := 0, handle := none })[j]? = some e →
      e.useCount = (invocations j w.stack : Int) :=
    counts_modify h.counts (fun _ _ => by rw [hidle]; rfl) fun _ _ => rfl
  unfold endUnload at hinv ⊢
  simp only at hinv ⊢
  split
  · rename_i hhandle
    rw [if_pos hhandle] at hinv
    refine ⟨hinv, ⟨h.alive, hcounts, forall_mem_cons.mpr ⟨hidle, h.idle⟩⟩, fun j hj => ?_,
      h.unloads⟩
    exact h.known j (by simpa using hj)
  · rename_i hhandle
    rw [if_neg hhandle] at hinv
    exact ⟨hinv, ⟨h.alive, hcounts, h.idle⟩, fun j hj => h.known j (by simpa using hj), h.unloads⟩

theorem CountsInv.returnCall (hrunning : w.status = .running) {ok : Bool}
    (hidle : ClosesIdle w (.returns ok opened)) :
    CountsInv (returnCall w ok opened) := by
  have hcond := hidle hrunning
  unfold Portal.returnCall
  simp only at hcond
  cases hstack : w.stack with
  | nil => exact h
  | cons c below =>
    have hunloads := h.unloads
    have hcounts := h.counts
    have hknown := h.known
    rw [hstack] at hcond hunloads hcounts hknown
    cases c with
    | handler f => exact h.endSend (by rw [hstack]; rfl) false
    | loading name handle =>
      have hpop := h.toGuardInv.same (sameGuard_pop hstack rfl fun _ hb => hb)
      exact .endLoad ⟨hpop, ⟨h.alive, hcounts, h.idle⟩, hknown, hunloads⟩ handle hcond
    | unloading i thenLoad =>
      have hpop := h.toGuardInv.same (sameGuard_pop hstack rfl fun _ hb => hb)
      have hbelow : CountsInv { w with stack := below } :=
        ⟨hpop, ⟨h.alive, hcounts, h.idle⟩, hknown, hunloads.2⟩
      have hdone := hbelow.endUnload_none hunloads.1
      cases thenLoad with
      | none => exact hdone opened
      | some name => exact (hdone none).doLoad hcond

theorem CountsInv.step (hidle : ClosesIdle w e) : CountsInv (callStep w e) := by
  unfold callStep
  split
  · exact h
  rename_i hstatus
  have hrunning := not_not.mp hstatus
  cases e with
  | send name => exact h.beginSend name
  | load name opened => exact h.doLoad (hidle hrunning)
  | unload name => exact h.doUnload none (hidle hrunning)
  | reload name => exact h.doUnload (some name) (hidle hrunning)
  | returns ok opened => exact h.returnCall hrunning hidle
  | fault => exact h.raiseFault

end

theorem opensIdle_of_closings (h : ∀ c ∈ (portalModuleDoLoad w name opened).closings, c.2 = 0) :
    OpensIdle w name opened := by
  rintro handle rfl hroom hloaded
  unfold portalModuleDoLoad at h
  rw [if_neg (not_le.mpr hroom), if_neg (Bool.eq_false_iff.mp hloaded)] at h
  exact h _ mem_cons_self

theorem unloadIdle_of_closings {thenLoad : Option CStr}
    (h : ∀ c ∈ (portalModuleDoUnload w name thenLoad).closings, c.2 = 0) {e : ModuleSlot}
    (hslot : findSlot w.entries name = some (i, e)) (hloaded : e.loaded = true) :
    invocations i w.stack = 0 := by
  unfold portalModuleDoUnload at h
  rw [hslot] at h
  simp only [hloaded, Bool.not_true, Bool.false_eq_true, if_false] at h
  exact h _ mem_cons_self

/-- Any other step closes something under a running handler, or writes behind the table. -/
theorem closesIdle_of_right (hnext : UseCountsRight (callStep w e)) : ClosesIdle w e := by
  intro hrunning
  have hstep : ¬ w.status ≠ .running := not_not.mpr hrunning
  unfold callStep at hnext
  rw [if_neg hstep] at hnext
  cases e with
  | send name => trivial
  | load name opened => exact opensIdle_of_closings hnext.idle
  | unload name | reload name => exact fun i e hslot => unloadIdle_of_closings hnext.idle hslot
  | returns ok opened =>
    simp only [returnCall] at hnext ⊢
    cases hstack : w.stack with
    | nil => trivial
    | cons c below =>
      rw [hstack] at hnext
      cases c with
      | handler f => trivial
      | loading name handle =>
        cases ok with
        | false => exact hnext.idle _ mem_cons_self
        | true =>
          intro hslot
          by_contra hfull
          apply hnext.alive
          rw [status_endLoad]
          exact if_pos ⟨rfl, hslot, not_lt.mp hfull⟩
      | unloading i thenLoad =>
        cases thenLoad with
        | none => trivial
        | some name => exact opensIdle_of_closings hnext.idle
  | fault => trivial

end Counts

/-- The use counts are right throughout a run, and nothing is closed under a running handler,
exactly if no module with running handlers is unloaded, or fails to load. -/
theorem use_counts_iff (es : List CallEvent) :
    (∀ es', es' <+: es → UseCountsRight (callsAfter es')) ↔
      Along callStep ClosesIdle .initial es := by
  have hinit : CountsInv .initial :=
    { guardInv_run [] with
      alive := ProcessStatus.noConfusion
      counts := fun _ _ he => absurd he (by simp [Calls.initial])
      idle := fun _ hc => absurd hc not_mem_nil
      known := fun _ _ => rfl
      unloads := trivial }
  have hany : Along callStep (fun _ _ => True) .initial es :=
    along_of_forall (fun _ _ _ => trivial) _
  have hright (w : Calls) (h : CountsInv w) : UseCountsRight w := h.toUseCountsRight
  exact along_iff_forall hright (fun _ _ h _ hidle => h.step hidle)
    (fun _ _ _ _ hnext => closesIdle_of_right hnext) hinit hany

def selfUnload : List CallEvent :=
  [.load (.lit "a") (some (1, true)), .returns true none, .send (.lit "a"), .unload (.lit "a")]

/-- `fn_unload` and `dlclose` are executed under the handler; when that returns, the use count
is negative. -/
theorem use_counts_false :
    ¬ UseCountsRight (callsAfter selfUnload) ∧
      (callsAfter (selfUnload ++ [.returns true none])).closings = [(.dlclose, 1), (.fnUnload, 1)] ∧
      (callsAfter (selfUnload ++ [.returns true none, .returns true none])).entries.map
        (·.useCount) = [-1] := by
  have hclosed : (callsAfter selfUnload).closings = [(.fnUnload, 1)] := by decide
  refine ⟨fun h => ?_, by decide⟩
  have hidle := h.idle (.fnUnload, 1) (hclosed ▸ mem_cons_self)
  cases hidle

end Portal
