import Portal.Core.CString
import Portal.Lib.Chains
import Portal.Lib.Runs

/-!
The registered commands of `src/core/core_cli.c`: a list that is linked through the records of the
modules, the newest first. What it is for is a list of records with their owners (`Commands`). The
core does not look whether a record is in the list already; `Fresh` says that it is not.
-/

namespace Portal

open List Chains Runs Function

/-- The fields of `portal_cli_entry_t` that the core writes. -/
structure CliEntry where
  module : Option CStr
  next : Option Nat

/-- The records by address, `g_cli_head` and `g_cli_count`. -/
structure CliRegistry where
  entries : Nat → CliEntry
  head : Option Nat
  count : Int

def CliRegistry.link (s : CliRegistry) (pp : Option Nat) : Option Nat :=
  pp.elim s.head fun a => (s.entries a).next

def CliRegistry.unlink (s : CliRegistry) (pp : Option Nat) (a : Nat) : CliRegistry where
  entries b :=
    if b = a then { s.entries b with next := none }
    else if pp = some b then { s.entries b with next := (s.entries a).next }
    else s.entries b
  head := if pp = none then (s.entries a).next else s.head
  count := s.count - 1

/-- `portal_cli_unregister`, which stops at a record that meets the test, and
`portal_cli_unregister_module`, which goes on. Without a result it does not end. -/
def unregisterLoop (test : Nat × Option CStr → Bool) (stop : Bool) :
    Nat → Option Nat → CliRegistry → Int → Option (CliRegistry × Int)
  | 0, _, _, _ => none
  | fuel + 1, pp, s, removed =>
    match s.link pp with
    | none => some (s, removed)
    | some a =>
      if test (a, (s.entries a).module) then
        if stop then some (s.unlink pp a, removed + 1)
        else unregisterLoop test stop fuel pp (s.unlink pp a) (removed + 1)
      else unregisterLoop test stop fuel (some a) s removed

-- the records whose `words` and `handler` are set
variable (usable : Nat → Bool)

def portalCliRegister (s : CliRegistry) (entry : Option Nat) (module : Option CStr) :
    CliRegistry × Int :=
  match entry.filter usable with
  | none => (s, -1)
  | some a => (⟨update s.entries a ⟨module, s.head⟩, some a, s.count + 1⟩, 0)

def portalCliUnregister (s : CliRegistry) (entry : Nat) : Option (CliRegistry × Int) :=
  (unregisterLoop (fun x => x.1 = entry) true (s.count.toNat + 1) none s 0).map fun r =>
    (r.1, if r.2 = 0 then -1 else 0)

def portalCliUnregisterModule (s : CliRegistry) (module : CStr) : Option (CliRegistry × Int) :=
  unregisterLoop (fun x => x.2 = some module) false (s.count.toNat + 1) none s 0

def portalCliIter (s : CliRegistry) : Nat → Option Nat → Option (List Nat)
  | 0, _ => none
  | _ + 1, none => some []
  | fuel + 1, some a => (portalCliIter s fuel (s.entries a).next).map (a :: ·)

inductive CliCall where
  | register (entry : Option Nat) (module : Option CStr)
  | unregister (entry : Nat)
  | unregisterModule (module : CStr)

def cliCall (s : CliRegistry) : CliCall → Option (CliRegistry × Int)
  | .register entry module => some (portalCliRegister usable s entry module)
  | .unregister entry => portalCliUnregister s entry
  | .unregisterModule module => portalCliUnregisterModule s module

def cliRun (s : CliRegistry) (calls : List CliCall) : Option CliRegistry :=
  calls.foldlM (fun s c => (cliCall usable s c).map Prod.fst) s

/-! ### What the list is for -/

abbrev Commands := List (Nat × Option CStr)

def Commands.call (l : Commands) : CliCall → Commands × Int
  | .register entry module =>
    (entry.filter usable).elim (l, -1) fun a => ((a, module) :: l, 0)
  | .unregister entry =>
    (l.filter fun x => !decide (x.1 = entry), if entry ∈ l.map Prod.fst then 0 else -1)
  | .unregisterModule module =>
    (l.filter fun x => !decide (x.2 = some module), l.countP fun x => x.2 = some module)

def Commands.step (l : Commands) (c : CliCall) : Commands := (l.call usable c).1

def Commands.Fresh (l : Commands) : CliCall → Prop
  | .register (some a) _ => a ∉ l.map Prod.fst
  | _ => True

structure CliRegistry.Holds (s : CliRegistry) (l : Commands) : Prop where
  linked : Linked CliEntry.next (fun a => some (s.entries a)) s.head (l.map Prod.fst)
  owner : ∀ x ∈ l, (s.entries x.1).module = x.2
  count : s.count = l.length

variable {s : CliRegistry} {front l : Commands} {x : Nat × Option CStr}

theorem CliRegistry.Holds.link_eq (h : s.Holds (front ++ l)) :
    s.link (front.getLast?.map Prod.fst) = (l.map Prod.fst).head? := by
  have hl := h.linked
  rw [map_append] at hl
  induction front using reverseRecOn with
  | nil => exact hl.head
  | append_singleton front y _ =>
    rw [getLast?_concat]
    rw [map_append, append_assoc] at hl
    cases hl.behind with
    | cons hy hrest =>
      cases hy
      exact hrest.head

theorem module_unlink (s : CliRegistry) (pp : Option Nat) (a b : Nat) :
    ((s.unlink pp a).entries b).module = (s.entries b).module := by
  rw [CliRegistry.unlink]
  dsimp only
  split
  · rfl
  · split <;> rfl

theorem CliRegistry.Holds.unlink (h : s.Holds (front ++ x :: l)) :
    (s.unlink (front.getLast?.map Prod.fst) x.1).Holds (front ++ l) := by
  have hl := h.linked
  rw [map_append, map_cons] at hl
  have hne : ∀ a ∈ front.map Prod.fst ++ l.map Prod.fst, a ≠ x.1 := by
    rintro a ha rfl
    exact (nodup_middle.mp hl.nodup).notMem ha
  rw [← getLast?_map]
  refine ⟨?_, fun y hy => ?_, ?_⟩
  · have hhead : (s.unlink (front.map Prod.fst).getLast? x.1).head =
        if front.map Prod.fst = [] then (s.entries x.1).next else s.head :=
      if_congr getLast?_eq_none_iff rfl rfl
    rw [map_append, hhead]
    refine hl.unlink rfl (fun a ha => ?_) fun a ha hlast => ?_
    · have hax := hne a (mem_append_left _ (mem_of_getLast? ha))
      simp only [CliRegistry.unlink, if_neg hax, if_pos ha, Option.map_some]
    · simp only [CliRegistry.unlink, if_neg (hne a ha), if_neg hlast]
  · rw [module_unlink]
    exact h.owner y ((sublist_cons_self x l).append_left front |>.subset hy)
  · have hcount := h.count
    simp only [CliRegistry.unlink, length_append, length_cons] at hcount ⊢
    omega

theorem unregisterLoop_spec {test : Nat × Option CStr → Bool} {stop : Bool}
    (h : s.Holds (front ++ l)) (hone : stop = true → l.countP test ≤ 1) {fuel : Nat}
    (hfuel : l.length < fuel) (removed : Int) :
    ∃ s', unregisterLoop test stop fuel (front.getLast?.map Prod.fst) s removed =
        some (s', removed + l.countP test) ∧ s'.Holds (front ++ l.filter (! test ·)) := by
  obtain ⟨fuel, rfl⟩ := Nat.exists_eq_succ_of_ne_zero (Nat.ne_zero_of_lt hfuel)
  induction l generalizing s front fuel removed with
  | nil =>
    refine ⟨s, ?_, h⟩
    rw [unregisterLoop, h.link_eq]
    simp
  | cons x l ih =>
    have hfuel' := Nat.lt_of_succ_lt_succ hfuel
    obtain ⟨fuel, rfl⟩ := Nat.exists_eq_succ_of_ne_zero (Nat.ne_zero_of_lt hfuel')
    have hlink : s.link (front.getLast?.map Prod.fst) = some x.1 := h.link_eq
    have howner : (x.1, (s.entries x.1).module) = x := by rw [h.owner x (by simp)]
    rw [unregisterLoop]
    simp only [hlink, howner]
    by_cases hx : test x = true
    · rw [if_pos hx, countP_cons_of_pos hx, filter_cons_of_neg (by simp [hx])]
      rw [countP_cons_of_pos hx] at hone
      cases stop with
      | true =>
        have hnone : l.countP test = 0 := by
          have := hone rfl
          omega
        rw [filter_eq_self.mpr (by simpa [countP_eq_zero] using hnone), hnone]
        exact ⟨_, rfl, h.unlink⟩
      | false =>
        obtain ⟨s', hs', hh⟩ := ih h.unlink (by simp) (removed + 1) fuel hfuel'
        exact ⟨s', by rw [if_neg (by simp), hs']; simp; omega, hh⟩
    · rw [if_neg hx, countP_cons_of_neg hx, filter_cons_of_pos (by simp [hx])]
      rw [countP_cons_of_neg hx] at hone
      have h' : s.Holds ((front ++ [x]) ++ l) := by rwa [append_assoc]
      have hrest := ih h' hone removed fuel hfuel'
      rwa [getLast?_concat, append_assoc] at hrest

variable {usable}

theorem CliRegistry.Holds.push (h : s.Holds l) {a : Nat} (module : Option CStr)
    (hnew : a ∉ l.map Prod.fst) :
    CliRegistry.Holds ⟨update s.entries a ⟨module, s.head⟩, some a, s.count + 1⟩
      ((a, module) :: l) := by
  have hkeep : ∀ b ∈ l.map Prod.fst, update s.entries a ⟨module, s.head⟩ b = s.entries b := by
    intro b hb
    exact update_of_ne (ne_of_mem_of_not_mem hb hnew) ..
  refine ⟨.cons (n := ⟨module, s.head⟩) (by simp) (h.linked.congr fun b hb => ?_), ?_, ?_⟩
  · simp [hkeep b hb]
  · refine forall_mem_cons.mpr ⟨by simp, fun x hx => ?_⟩
    rw [← h.owner x hx, ← hkeep x.1 (mem_map_of_mem hx)]
  · simp [h.count]

theorem CliRegistry.Holds.call (h : s.Holds l) {c : CliCall} (hfresh : l.Fresh c) :
    ∃ s', cliCall usable s c = some (s', (l.call usable c).2) ∧
      s'.Holds (l.call usable c).1 := by
  have hfuel : l.length < s.count.toNat + 1 := by
    have := h.count
    omega
  have hloop := fun test stop hone => @unregisterLoop_spec s [] l test stop h hone _ hfuel 0
  simp only [Int.zero_add] at hloop
  cases c with
  | register entry module =>
    rw [cliCall, portalCliRegister, Commands.call]
    cases hentry : entry.filter usable with
    | none => exact ⟨s, rfl, h⟩
    | some a =>
      obtain ⟨rfl, -⟩ := Option.filter_eq_some_iff.mp hentry
      exact ⟨_, rfl, h.push module hfresh⟩
  | unregister a =>
    have hcount : l.countP (fun x => decide (x.1 = a)) = (l.map Prod.fst).count a := by
      rw [List.count, countP_map]
      rfl
    obtain ⟨s', hs', hh⟩ := hloop _ true fun _ =>
      hcount.trans_le (nodup_iff_count_le_one.mp h.linked.nodup a)
    refine ⟨s', ?_, hh⟩
    change (unregisterLoop _ true _ none s 0).map _ = _
    rw [show none = ([] : Commands).getLast?.map Prod.fst from rfl, hs', hcount]
    by_cases ha : a ∈ l.map Prod.fst
    · have := count_pos_iff.mpr ha
      simp only [Option.map_some, Commands.call, if_pos ha]
      rw [if_neg (by omega)]
    · simp only [Option.map_some, Commands.call, if_neg ha, count_eq_zero.mpr ha]
      rfl
  | unregisterModule module =>
    obtain ⟨s', hs', hh⟩ := hloop (fun x => x.2 = some module) false (by simp)
    exact ⟨s', hs', hh⟩

theorem portalCliIter_eq {p : Option Nat} {as : List Nat}
    (h : Linked CliEntry.next (fun a => some (s.entries a)) p as) :
    portalCliIter s (as.length + 1) p = some as := by
  induction h with
  | nil => rfl
  | cons ha _ ih =>
    cases ha
    rw [length_cons, portalCliIter, ih]
    rfl

/-- If no record is registered that is in the list, every call returns what it is to return and
leaves the list it is to leave, which `portal_cli_iter` visits and `portal_cli_count` counts. -/
theorem commands_refined (entries : Nat → CliEntry) (calls : List CliCall) (c : CliCall)
    (hfresh : Along (Commands.step usable) Commands.Fresh [] (calls ++ [c])) :
    let after := (run (Commands.step usable) [] calls).call usable c
    ∃ s s', cliRun usable ⟨entries, none, 0⟩ calls = some s ∧
      cliCall usable s c = some (s', after.2) ∧
      portalCliIter s' (after.1.length + 1) s'.head = some (after.1.map Prod.fst) ∧
      s'.count = after.1.length := by
  obtain ⟨hbefore, hlast, -⟩ := (along_append _ _ _).mp hfresh
  have hruns : ∃ s, cliRun usable ⟨entries, none, 0⟩ calls = some s ∧
      s.Holds (run (Commands.step usable) [] calls) := by
    clear hlast hfresh
    induction calls using reverseRecOn with
    | nil => exact ⟨_, rfl, .nil, by simp, rfl⟩
    | append_singleton calls c ih =>
      obtain ⟨hbefore, hlast, -⟩ := (along_append _ _ _).mp hbefore
      obtain ⟨s, hs, hh⟩ := ih hbefore
      obtain ⟨s', hs', hh'⟩ := hh.call hlast
      refine ⟨s', ?_, by rwa [run_append]⟩
      rw [cliRun, foldlM_append, ← cliRun, hs]
      simp [hs']
  obtain ⟨s, hs, hh⟩ := hruns
  obtain ⟨s', hs', hh'⟩ := hh.call hlast
  refine ⟨s, s', hs, hs', ?_, hh'.count⟩
  have hiter := portalCliIter_eq hh'.linked
  rwa [length_map] at hiter

theorem commands_refined_unload :
    let calls := [.register (some 1) (some (.lit "kv")), .register (some 2) (some (.lit "dns")),
      .register (some 3) (some (.lit "kv"))]
    ∃ s s', cliRun (fun _ => true) ⟨fun _ => ⟨none, none⟩, none, 0⟩ calls = some s ∧
      portalCliUnregisterModule s (.lit "kv") = some (s', 2) ∧
      portalCliIter s' 2 s'.head = some [2] ∧ s'.count = 1 := by
  intro calls
  exact commands_refined (fun _ => ⟨none, none⟩) calls (.unregisterModule (.lit "kv"))
    (by simp [calls, Commands.Fresh, Commands.step, Commands.call, Option.filter])

end Portal
