import Portal.Core.HashTable
import Portal.Lib.Runs
import Portal.Lib.Slots
import Mathlib.Order.Interval.Finset.Nat
import Mathlib.Order.Interval.Set.Infinite

/-!
The descriptor table of the event loop: `portal_event_add`, `portal_event_del` and
`portal_event_modify` of `src/core/core_event.c`.

A descriptor has a slot of a fixed array. Freed slots go to a stack and are used again first; the
hash table `fdToIdx` leads from the printed descriptor to its slot. The two allocations an add can
miss are arguments of the call: the box for the slot number, and the larger array of a table that
has to grow. A `strdup` of the table is taken to succeed.
-/

namespace Portal

open List Runs Slots Option Function

def eventMaxFds : Nat := 16384

/-- `event_entry_t`. The watcher is its descriptor and its event mask. -/
structure EventEntry where
  fd : Int32
  events : UInt32
  active : Bool
deriving DecidableEq

/-- What the descriptor calls read of `portal_event_loop_t`. The last element pushed on `free_list`
comes first. -/
structure PortalEventLoop where
  entries : List EventEntry
  entryHigh : Nat
  freeList : List Nat
  fdToIdx : PortalHt Nat

def portalEventInit : PortalEventLoop where
  entries := List.replicate eventMaxFds ⟨0, 0, false⟩
  entryHigh := 0
  freeList := []
  fdToIdx := portalHtInit 512

def slotAlloc (loop : PortalEventLoop) : Option (PortalEventLoop × Nat) :=
  match loop.freeList with
  | idx :: rest => some ({ loop with freeList := rest }, idx)
  | [] =>
    if loop.entryHigh < loop.entries.length then
      some ({ loop with entryHigh := loop.entryHigh + 1 }, loop.entryHigh)
    else none

def slotFree (loop : PortalEventLoop) (idx : Nat) : PortalEventLoop :=
  { loop with freeList := idx :: loop.freeList }

def fdKey (fd : Int32) : CStr := (CStr.ofInt fd.toInt).truncate 15

def fdIdxLookup (loop : PortalEventLoop) (fd : Int32) : Option Nat :=
  portalHtGet loop.fdToIdx (fdKey fd)

def evRead : UInt32 := 1

def evWrite : UInt32 := 2

def evEvents (events : UInt32) : UInt32 :=
  if events &&& (evRead ||| evWrite) = 0 then evRead else events &&& (evRead ||| evWrite)

structure AddAlloc where
  box : Bool   -- `malloc` of the box for the slot number
  grow : Bool  -- `calloc` of the larger array, if `portal_ht_set` asks for one

/-- `portal_ht_set` when growing may fail: the table is then left as it was. -/
def portalHtSetAlloc {V : Type} (grow : Bool) (ht : PortalHt V) (key : CStr) (value : V) :
    PortalHt V × Int :=
  if loadExceeded ht ∧ grow = false then (ht, -1) else portalHtSet ht key value

def portalEventAdd (alloc : AddAlloc) (loop : PortalEventLoop) (fd : Int32) (events : UInt32) :
    PortalEventLoop × Int :=
  if (fdIdxLookup loop fd).isSome then (loop, -1)  -- already registered
  else
    match slotAlloc loop with
    | none => (loop, -1)
    | some (loop, idx) =>
      let entry : EventEntry := ⟨fd, evEvents events, true⟩
      if alloc.box then
        -- what `portal_ht_set` returns is not looked at
        ({ loop with
            entries := loop.entries.set idx entry
            fdToIdx := (portalHtSetAlloc alloc.grow loop.fdToIdx (fdKey fd) idx).1 }, 0)
      else
        (slotFree
          { loop with entries := loop.entries.set idx { entry with active := false } } idx, -1)

def portalEventDel (loop : PortalEventLoop) (fd : Int32) : PortalEventLoop × Int :=
  match fdIdxLookup loop fd with
  | none => (loop, -1)
  | some idx =>
    let entries := loop.entries.modify idx fun e => { e with active := false }
    let loop := slotFree { loop with entries } idx
    ({ loop with fdToIdx := (portalHtDel loop.fdToIdx (fdKey fd)).1 }, 0)

def portalEventModify (loop : PortalEventLoop) (fd : Int32) (events : UInt32) :
    PortalEventLoop × Int :=
  match fdIdxLookup loop fd with
  | none => (loop, -1)
  | some idx =>
    if loop.entries[idx]?.any EventEntry.active then
      ({ loop with
          entries := loop.entries.modify idx fun e =>
            { e with fd, events := evEvents events } }, 0)
    else (loop, -1)

inductive EventOp where
  | add (alloc : AddAlloc) (fd : Int32) (events : UInt32)
  | del (fd : Int32)
  | modify (fd : Int32) (events : UInt32)

def eventStep (loop : PortalEventLoop) : EventOp → PortalEventLoop
  | .add alloc fd events => (portalEventAdd alloc loop fd events).1
  | .del fd => (portalEventDel loop fd).1
  | .modify fd events => (portalEventModify loop fd events).1

/-! ### Consistency -/

def SlotHolds (entries : List EventEntry) (idx : Nat) (fd : Int32) : Prop :=
  ∃ e, entries[idx]? = some e ∧ e.active = true ∧ e.fd = fd

def ActiveAt (entries : List EventEntry) (idx : Nat) : Prop := ∃ fd, SlotHolds entries idx fd

def activeSlots (entries : List EventEntry) : Set Nat := {idx | ActiveAt entries idx}

def registeredFds (loop : PortalEventLoop) : Set Int32 :=
  {fd | ∃ idx, SlotHolds loop.entries idx fd}

/-- Active, free and never-used slots partition the array, index and active slots are inverse to
each other, and with memory available a new descriptor is added exactly if a slot is left. -/
structure EventConsistent (loop : PortalEventLoop) : Prop where
  cover : ∀ idx, idx < loop.entries.length ↔
    ActiveAt loop.entries idx ∨ idx ∈ loop.freeList ∨
      loop.entryHigh ≤ idx ∧ idx < loop.entries.length
  active_free : ∀ idx, ActiveAt loop.entries idx → idx ∉ loop.freeList
  active_unused : ∀ idx, ActiveAt loop.entries idx → idx < loop.entryHigh
  free_unused : ∀ idx, idx ∈ loop.freeList → idx < loop.entryHigh
  free_once : loop.freeList.Nodup
  index : ∀ fd idx, fdIdxLookup loop fd = some idx ↔ SlotHolds loop.entries idx fd
  add : ∀ fd events, fd ∉ registeredFds loop →
    ((portalEventAdd ⟨true, true⟩ loop fd events).2 = 0 ↔
      (registeredFds loop).ncard < loop.entries.length)

/-- An add that gets as far as the index does not find it unable to grow. -/
def IndexGrows (loop : PortalEventLoop) : EventOp → Prop
  | .add alloc fd _ =>
    fdIdxLookup loop fd = none → (slotAlloc loop).isSome → alloc.box = true →
      loadExceeded loop.fdToIdx → alloc.grow = true
  | _ => True

/-! ### The invariant -/

theorem fdKey_injective : Function.Injective fdKey := by
  have huncut : ∀ fd : Int32, fdKey fd = CStr.ofInt fd.toInt := by
    intro fd
    have hlow := fd.le_toInt
    have hhigh := fd.toInt_lt
    have hlen : (decimalBytes fd.toInt).length ≤ 11 := length_decimalBytes_le (by omega)
    exact CStr.truncate_eq_self (by change (decimalBytes fd.toInt).length ≤ 15; omega)
  intro a b h
  rw [huncut, huncut] at h
  exact Int32.toInt_inj.mp (decimalBytes_injective (CStr.mk.inj h))

def PortalEventLoop.pool (loop : PortalEventLoop) : Pool := ⟨loop.freeList, loop.entryHigh⟩

theorem slotAlloc_eq (loop : PortalEventLoop) :
    slotAlloc loop = (loop.pool.alloc loop.entries.length).map fun (pool, idx) =>
      ({ loop with freeList := pool.free, entryHigh := pool.high }, idx) := by
  obtain ⟨entries, high, free, index⟩ := loop
  cases free with
  | cons idx rest => rfl
  | nil =>
    simp only [slotAlloc, PortalEventLoop.pool, Pool.alloc]
    by_cases hroom : high < entries.length
    · simp [hroom]
    · simp [hroom]

/-- The slots are tracked by the pool, and the index holds the descriptors of the active
slots. -/
structure EventInv (loop : PortalEventLoop) : Prop where
  slots : loop.pool.Tracks loop.entries.length (activeSlots loop.entries)
  index : ∃ m, HtInv loop.fdToIdx m ∧
    ∀ key idx, m key = some idx ↔ ∃ fd, SlotHolds loop.entries idx fd ∧ fdKey fd = key

theorem eventInv_init : EventInv portalEventInit := by
  have hidle : ∀ idx fd, ¬ SlotHolds portalEventInit.entries idx fd := by
    rintro idx fd ⟨e, he, hactive, -⟩
    obtain rfl := eq_of_mem_replicate (mem_of_getElem? he)
    cases hactive
  have hnone : activeSlots portalEventInit.entries = ∅ := by
    ext idx
    simp [activeSlots, ActiveAt, hidle]
  constructor
  · rw [hnone]
    exact Pool.tracks_empty _
  · exact ⟨fun _ => none, htInv_fresh (by decide), by simp [hidle]⟩

theorem EventInv.lookup_iff {loop : PortalEventLoop} (inv : EventInv loop) (fd : Int32)
    (idx : Nat) : fdIdxLookup loop fd = some idx ↔ SlotHolds loop.entries idx fd := by
  obtain ⟨m, hm, hslots⟩ := inv.index
  rw [fdIdxLookup, hm.asMap.get, hslots]
  constructor
  · rintro ⟨fd', hholds, hkey⟩
    rwa [← fdKey_injective hkey]
  · exact fun hholds => ⟨fd, hholds, rfl⟩

section Entries

variable {entries : List EventEntry} {idx : Nat}

theorem slotHolds_set (hidx : idx < entries.length) (e : EventEntry) (i : Nat) (fd : Int32) :
    SlotHolds (entries.set idx e) i fd ↔
      i = idx ∧ e.active = true ∧ e.fd = fd ∨ i ≠ idx ∧ SlotHolds entries i fd := by
  unfold SlotHolds
  by_cases hi : i = idx
  · subst hi
    simp [getElem?_set_self hidx]
  · have hi' : idx ≠ i := fun h => hi h.symm
    simp [getElem?_set_ne hi', hi]

theorem SlotHolds.unique {fd fd' : Int32} (h : SlotHolds entries idx fd)
    (h' : SlotHolds entries idx fd') : fd = fd' := by
  obtain ⟨e, he, -, rfl⟩ := h
  obtain ⟨e', he', -, rfl⟩ := h'
  rw [some.inj (he.symm.trans he')]

section

variable (hidx : idx < entries.length) (hidle : ¬ ActiveAt entries idx) (fd : Int32)
  (events : UInt32)

include hidx hidle

theorem slotHolds_fill (i : Nat) (fd' : Int32) :
    SlotHolds (entries.set idx ⟨fd, events, true⟩) i fd' ↔
      i = idx ∧ fd' = fd ∨ SlotHolds entries i fd' := by
  rw [slotHolds_set hidx]
  by_cases hi : i = idx
  · subst hi
    have hnot : ¬ SlotHolds entries i fd' := fun h => hidle ⟨fd', h⟩
    simp [hnot, eq_comm]
  · simp [hi]

theorem activeSlots_fill :
    activeSlots (entries.set idx ⟨fd, events, true⟩) = insert idx (activeSlots entries) := by
  ext i
  change (∃ fd', SlotHolds _ i fd') ↔ i = idx ∨ ∃ fd', SlotHolds entries i fd'
  simp [slotHolds_fill hidx hidle, exists_or]

theorem slotHolds_putBack :
    SlotHolds (entries.set idx ⟨fd, events, false⟩) = SlotHolds entries := by
  funext i fd'
  apply propext
  rw [slotHolds_set hidx]
  by_cases hi : i = idx
  · subst hi
    have hnot : ¬ SlotHolds entries i fd' := fun h => hidle ⟨fd', h⟩
    simp [hnot]
  · simp [hi]

end

theorem slotHolds_deactivate (i : Nat) (fd : Int32) :
    SlotHolds (entries.modify idx fun e => { e with active := false }) i fd ↔
      i ≠ idx ∧ SlotHolds entries i fd := by
  unfold SlotHolds
  by_cases hi : i = idx
  · subst hi
    cases h : entries[i]? <;> simp [h]
  · have hi' : idx ≠ i := fun h => hi h.symm
    simp [hi, hi']

theorem activeSlots_deactivate :
    activeSlots (entries.modify idx fun e => { e with active := false })
      = activeSlots entries \ {idx} := by
  ext i
  change (∃ fd', SlotHolds _ i fd') ↔ (∃ fd', SlotHolds entries i fd') ∧ i ≠ idx
  simp only [slotHolds_deactivate, exists_and_left]
  exact and_comm

theorem slotHolds_modify {fd : Int32} (hidx : SlotHolds entries idx fd) (events : UInt32) :
    SlotHolds (entries.modify idx fun e => { e with fd, events }) = SlotHolds entries := by
  funext i fd'
  apply propext
  unfold SlotHolds
  by_cases hi : i = idx
  · subst hi
    obtain ⟨e, he, hactive, hfd⟩ := hidx
    simp [he, hfd]
  · have hi' : idx ≠ i := fun h => hi h.symm
    simp [hi']

end Entries

section Step

variable {loop : PortalEventLoop}

section

variable (inv : EventInv loop)

include inv

theorem EventInv.index_add {fd : Int32} {idx : Nat}
    (hfree : fdIdxLookup loop fd = none) {grow : Bool}
    (hgrow : loadExceeded loop.fdToIdx → grow = true) {entries : List EventEntry}
    (hentries : ∀ i fd', SlotHolds entries i fd' ↔
      i = idx ∧ fd' = fd ∨ SlotHolds loop.entries i fd') :
    ∃ m, HtInv (portalHtSetAlloc grow loop.fdToIdx (fdKey fd) idx).1 m ∧
      ∀ key i, m key = some i ↔ ∃ fd', SlotHolds entries i fd' ∧ fdKey fd' = key := by
  obtain ⟨m, hm, hslots⟩ := inv.index
  have hkey : m (fdKey fd) = none := by rw [← hm.asMap.get]; exact hfree
  have hset : portalHtSetAlloc grow loop.fdToIdx (fdKey fd) idx
      = portalHtSet loop.fdToIdx (fdKey fd) idx := by
    rw [portalHtSetAlloc, if_neg]
    rintro ⟨hload, hno⟩
    rw [hgrow hload] at hno
    cases hno
  refine ⟨_, hset ▸ htInv_set_absent idx hm hkey, fun key i => ?_⟩
  by_cases hk : key = fdKey fd
  · subst hk
    rw [update_self]
    constructor
    · intro h
      obtain rfl := some.inj h
      exact ⟨fd, (hentries idx fd).mpr (.inl ⟨rfl, rfl⟩), rfl⟩
    rintro ⟨fd', hholds, hkey'⟩
    obtain rfl := fdKey_injective hkey'
    rcases (hentries i fd').mp hholds with ⟨rfl, -⟩ | hold
    · rfl
    · have := (hslots (fdKey fd') i).mpr ⟨fd', hold, rfl⟩
      rw [hkey] at this
      cases this
  · rw [update_of_ne hk, hslots]
    constructor
    · rintro ⟨fd', hholds, rfl⟩
      exact ⟨fd', (hentries i fd').mpr (.inr hholds), rfl⟩
    rintro ⟨fd', hholds, rfl⟩
    rcases (hentries i fd').mp hholds with ⟨-, rfl⟩ | hold
    · exact absurd rfl hk
    · exact ⟨fd', hold, rfl⟩

theorem EventInv.index_del {fd : Int32} {idx : Nat}
    (hidx : SlotHolds loop.entries idx fd) {entries : List EventEntry}
    (hentries : ∀ i fd', SlotHolds entries i fd' ↔ i ≠ idx ∧ SlotHolds loop.entries i fd') :
    ∃ m, HtInv (portalHtDel loop.fdToIdx (fdKey fd)).1 m ∧
      ∀ key i, m key = some i ↔ ∃ fd', SlotHolds entries i fd' ∧ fdKey fd' = key := by
  obtain ⟨m, hm, hslots⟩ := inv.index
  have hkey : m (fdKey fd) = some idx := (hslots _ _).mpr ⟨fd, hidx, rfl⟩
  refine ⟨_, htInv_del hm, fun key i => ?_⟩
  by_cases hk : key = fdKey fd
  · subst hk
    simp only [update_self, reduceCtorEq, false_iff]
    rintro ⟨fd', hholds, hkey'⟩
    obtain ⟨hne, hold⟩ := (hentries i fd').mp hholds
    have := (hslots (fdKey fd) i).mpr ⟨fd', hold, hkey'⟩
    rw [hkey] at this
    exact hne (some.inj this).symm
  · rw [update_of_ne hk, hslots]
    constructor
    · rintro ⟨fd', hholds, rfl⟩
      refine ⟨fd', (hentries i fd').mpr ⟨?_, hholds⟩, rfl⟩
      rintro rfl
      exact hk (congrArg fdKey (hholds.unique hidx))
    · rintro ⟨fd', hholds, rfl⟩
      exact ⟨fd', ((hentries i fd').mp hholds).2, rfl⟩

theorem EventInv.slotAlloc_spec {loop' : PortalEventLoop} {idx : Nat}
    (halloc : slotAlloc loop = some (loop', idx)) :
    idx < loop.entries.length ∧ ¬ ActiveAt loop.entries idx ∧
      loop'.entries = loop.entries ∧ loop'.fdToIdx = loop.fdToIdx ∧
      loop'.pool.Tracks loop.entries.length (insert idx (activeSlots loop.entries)) := by
  rw [slotAlloc_eq] at halloc
  obtain ⟨⟨pool, idx'⟩, hpool, heq⟩ := map_eq_some_iff.mp halloc
  obtain ⟨rfl, rfl⟩ := heq
  obtain ⟨hlt, hidle, htracks⟩ := Pool.alloc_tracks inv.slots hpool
  exact ⟨hlt, hidle, rfl, rfl, htracks⟩

theorem eventInv_add {alloc : AddAlloc} {fd : Int32} {events : UInt32}
    (hgrow : IndexGrows loop (.add alloc fd events)) :
    EventInv (portalEventAdd alloc loop fd events).1 := by
  unfold portalEventAdd
  cases hlookup : fdIdxLookup loop fd with
  | some idx => exact inv
  | none =>
    simp only [isSome_none, Bool.false_eq_true, if_false]
    cases halloc : slotAlloc loop with
    | none => exact inv
    | some r =>
      obtain ⟨loop', idx⟩ := r
      obtain ⟨hlt, hidle, hentries, hindex, htracks⟩ := inv.slotAlloc_spec halloc
      cases hbox : alloc.box with
      | true =>
        have hload := hgrow hlookup (by rw [halloc]; rfl) hbox
        simp only [if_true, hentries, hindex]
        refine ⟨?_, inv.index_add hlookup hload (slotHolds_fill hlt hidle fd _)⟩
        rw [activeSlots_fill hlt hidle, length_set]
        exact htracks
      | false =>
        -- the slot goes back at once
        have hsame := slotHolds_putBack hlt hidle fd (evEvents events)
        have hrelease := Pool.release_tracks htracks (Set.mem_insert idx _)
        rw [Set.insert_sdiff_self_of_notMem (show idx ∉ activeSlots loop.entries from hidle)]
          at hrelease
        obtain ⟨m, hm, hslots⟩ := inv.index
        simp only [Bool.false_eq_true, if_false, hentries, slotFree]
        refine ⟨?_, m, hindex ▸ hm, ?_⟩
        · unfold activeSlots ActiveAt
          rw [hsame, length_set]
          exact hrelease
        · rw [hsame]
          exact hslots

theorem eventInv_del (fd : Int32) : EventInv (portalEventDel loop fd).1 := by
  unfold portalEventDel
  cases hlookup : fdIdxLookup loop fd with
  | none => exact inv
  | some idx =>
    have hidx := (inv.lookup_iff fd idx).mp hlookup
    have hrelease := Pool.release_tracks inv.slots
      (show idx ∈ activeSlots loop.entries from ⟨fd, hidx⟩)
    refine ⟨?_, inv.index_del hidx slotHolds_deactivate⟩
    simp only [slotFree, activeSlots_deactivate, length_modify]
    exact hrelease

theorem eventInv_modify (fd : Int32) (events : UInt32) :
    EventInv (portalEventModify loop fd events).1 := by
  unfold portalEventModify
  cases hlookup : fdIdxLookup loop fd with
  | none => exact inv
  | some idx =>
    have hidx := (inv.lookup_iff fd idx).mp hlookup
    have hsame := slotHolds_modify hidx (evEvents events)
    simp only
    split
    · obtain ⟨m, hm, hslots⟩ := inv.index
      refine ⟨?_, m, hm, ?_⟩
      · unfold activeSlots ActiveAt
        rw [hsame, length_modify]
        exact inv.slots
      · rw [hsame]
        exact hslots
    · exact inv

theorem eventInv_step (op : EventOp) (h : IndexGrows loop op) : EventInv (eventStep loop op) := by
  cases op with
  | add alloc fd events => exact eventInv_add inv h
  | del fd => exact eventInv_del inv fd
  | modify fd events => exact eventInv_modify inv fd events

/-- Each registered descriptor has one slot, so they are counted by the active slots. -/
theorem EventInv.ncard_registeredFds :
    (registeredFds loop).ncard = (activeSlots loop.entries).ncard := by
  symm
  apply Set.ncard_congr (fun idx h => Classical.choose h)
  · exact fun idx h => ⟨idx, Classical.choose_spec h⟩
  · intro i j hi hj heq
    have hi' := Classical.choose_spec hi
    rw [heq] at hi'
    have hlook := (inv.lookup_iff _ _).mpr hi'
    rw [(inv.lookup_iff _ _).mpr (Classical.choose_spec hj)] at hlook
    exact (some.inj hlook).symm
  · rintro fd ⟨idx, hidx⟩
    exact ⟨idx, ⟨fd, hidx⟩, (Classical.choose_spec ⟨fd, hidx⟩ : SlotHolds _ _ _).unique hidx⟩

/-- There is a slot to hand out exactly while fewer descriptors are registered than
there are slots. -/
theorem EventInv.slotAlloc_isSome_iff :
    (slotAlloc loop).isSome ↔ (registeredFds loop).ncard < loop.entries.length := by
  have hsub : activeSlots loop.entries ⊆ Set.Iio loop.entries.length := fun _ hi =>
    inv.slots.lt_cap hi
  have hcard : (Set.Iio loop.entries.length).ncard = loop.entries.length := by
    rw [← Finset.coe_Iio, Set.ncard_coe_finset, Nat.card_Iio]
  have hnone : slotAlloc loop = none ↔ ∀ i < loop.entries.length, i ∈ activeSlots loop.entries := by
    rw [slotAlloc_eq, Option.map_eq_none_iff]
    exact Pool.alloc_eq_none_iff inv.slots
  rw [inv.ncard_registeredFds, ← Option.ne_none_iff_isSome, Ne, hnone]
  constructor
  · intro hidle
    rw [← hcard]
    apply Set.ncard_lt_ncard _ (Set.finite_Iio _)
    exact ⟨hsub, fun hall => hidle fun i hi => hall hi⟩
  · intro hlt hall
    rw [Set.Subset.antisymm hsub fun i hi => hall i hi, hcard] at hlt
    exact lt_irrefl _ hlt

theorem EventInv.consistent : EventConsistent loop where
  cover idx := by
    have hused : ActiveAt loop.entries idx ↔ idx < loop.entryHigh ∧ idx ∉ loop.freeList :=
      inv.slots.used_iff idx
    have hhigh : loop.entryHigh ≤ loop.entries.length := inv.slots.high_le
    constructor
    · intro hlt
      by_cases hmark : idx < loop.entryHigh
      · by_cases hfree : idx ∈ loop.freeList
        · exact .inr (.inl hfree)
        · exact .inl (hused.mpr ⟨hmark, hfree⟩)
      · exact .inr (.inr ⟨not_lt.mp hmark, hlt⟩)
    rintro (hactive | hfree | ⟨-, hlt⟩)
    · exact inv.slots.lt_cap hactive
    · exact (inv.slots.free_lt idx hfree).trans_le hhigh
    · exact hlt
  active_free idx h := ((inv.slots.used_iff idx).mp h).2
  active_unused idx h := ((inv.slots.used_iff idx).mp h).1
  free_unused idx h := inv.slots.free_lt idx h
  free_once := inv.slots.nodup
  index := inv.lookup_iff
  add fd events hfd := by
    have hlookup : fdIdxLookup loop fd = none := by
      rw [eq_none_iff_forall_ne_some]
      exact fun idx h => hfd ⟨idx, (inv.lookup_iff fd idx).mp h⟩
    rw [← inv.slotAlloc_isSome_iff, portalEventAdd, hlookup]
    cases slotAlloc loop <;> simp

/-- An index that cannot grow leaves the new slot without an index entry. -/
theorem not_consistent_add {op : EventOp} (h : ¬ IndexGrows loop op) :
    ¬ EventConsistent (eventStep loop op) := by
  cases op with
  | del fd | modify fd events => exact absurd trivial h
  | add alloc fd events =>
    simp only [IndexGrows, Classical.not_imp, Bool.not_eq_true] at h
    obtain ⟨hlookup, hsome, hbox, hload, hgrow⟩ := h
    obtain ⟨⟨loop', idx⟩, halloc⟩ := isSome_iff_exists.mp hsome
    obtain ⟨hlt, hidle, hentries, hindex, -⟩ := inv.slotAlloc_spec halloc
    intro hcons
    have hstep : eventStep loop (.add alloc fd events) =
        { loop' with
          entries := loop.entries.set idx ⟨fd, evEvents events, true⟩
          fdToIdx := loop.fdToIdx } := by
      simp [eventStep, portalEventAdd, hlookup, halloc, hbox, hentries, hindex, portalHtSetAlloc,
        hload, hgrow]
    rw [hstep] at hcons
    -- the slot is active for `fd`, so the index would have to lead there
    have hfound := (hcons.index fd idx).mpr
      ((slotHolds_fill hlt hidle fd _ idx fd).mpr (.inl ⟨rfl, rfl⟩))
    change fdIdxLookup loop fd = some idx at hfound
    rw [hlookup] at hfound
    cases hfound

end

end Step

/-- Every state of a run is consistent exactly when no add of it finds that the index cannot grow.
-/
theorem eventLoop_consistent_iff (ops : List EventOp) :
    (∀ before, before <+: ops → EventConsistent (run eventStep portalEventInit before)) ↔
      Along eventStep IndexGrows portalEventInit ops := by
  apply along_iff_forall (D := fun _ _ => True) fun loop (inv : EventInv loop) => inv.consistent
  · intro loop op inv _ hgrows
    exact eventInv_step inv op hgrows
  · -- the first add that cannot grow the index
    intro loop op inv _ hcons
    by_contra hstuck
    exact not_consistent_add inv hstuck hcons
  · exact eventInv_init
  · exact along_of_forall (fun _ _ _ => trivial) _

/-! ### An index that cannot grow -/

def fillRun (n : Nat) : List EventOp :=
  (List.range n).map fun i => .add ⟨true, true⟩ (Int32.ofNat i) evRead

structure Filled (n : Nat) (loop : PortalEventLoop) : Prop where
  inv : EventInv loop
  high : loop.entryHigh = n
  free : loop.freeList = []
  length : loop.entries.length = eventMaxFds
  capacity : loop.fdToIdx.capacity = 512
  count : portalHtCount loop.fdToIdx = n
  holds : ∀ idx fd, SlotHolds loop.entries idx fd → ∃ i < n, fd = Int32.ofNat i

theorem Filled.lookup_none {n : Nat} {loop : PortalEventLoop} (h : Filled n loop)
    (hn : n < 2 ^ 31) : fdIdxLookup loop (Int32.ofNat n) = none := by
  rw [eq_none_iff_forall_ne_some]
  intro idx hlookup
  obtain ⟨i, hi, heq⟩ := h.holds idx _ ((h.inv.lookup_iff _ idx).mp hlookup)
  have hint := congrArg Int32.toInt heq
  rw [Int32.toInt_ofNat_of_lt hn, Int32.toInt_ofNat_of_lt (by omega)] at hint
  omega

theorem filled_succ {n : Nat} {loop : PortalEventLoop} (h : Filled n loop) (hn : n < 384) :
    Filled (n + 1) (eventStep loop (.add ⟨true, true⟩ (Int32.ofNat n) evRead)) := by
  have hlookup := h.lookup_none (by omega)
  have halloc : slotAlloc loop = some ({ loop with entryHigh := n + 1 }, n) := by
    simp [slotAlloc, h.free, h.high, h.length, eventMaxFds, show n < 16384 by omega]
  have hinv := eventInv_step h.inv (.add ⟨true, true⟩ (Int32.ofNat n) evRead)
    fun _ _ _ _ => rfl
  obtain ⟨hlt, hidle, -⟩ := h.inv.slotAlloc_spec halloc
  obtain ⟨m, hm, -⟩ := h.inv.index
  have hkey : m (fdKey (Int32.ofNat n)) = none := by rw [← hm.asMap.get]; exact hlookup
  have hroom : ¬ loadExceeded loop.fdToIdx := by
    have hcount := h.count
    unfold portalHtCount at hcount
    unfold loadExceeded
    rw [h.capacity]
    omega
  have hstep : eventStep loop (.add ⟨true, true⟩ (Int32.ofNat n) evRead) =
      { loop with
        entries := loop.entries.set n ⟨Int32.ofNat n, evEvents evRead, true⟩
        entryHigh := n + 1
        fdToIdx := (portalHtSet loop.fdToIdx (fdKey (Int32.ofNat n)) n).1 } := by
    simp [eventStep, portalEventAdd, hlookup, halloc, portalHtSetAlloc, hroom]
  rw [hstep] at hinv ⊢
  refine ⟨hinv, rfl, h.free, ?_, ?_, ?_, fun idx fd hholds => ?_⟩
  · rw [length_set, h.length]
  · rw [portalHtSet_eq, htMakeRoom, if_neg hroom, htProbeSet_capacity, h.capacity]
  · rw [portalHtCount_set_absent n hm hkey, h.count]
  rcases (slotHolds_fill hlt hidle _ _ idx fd).mp hholds with ⟨-, rfl⟩ | hold
  · exact ⟨n, Nat.lt_succ_self n, rfl⟩
  · obtain ⟨i, hi, rfl⟩ := h.holds idx fd hold
    exact ⟨i, by omega, rfl⟩

theorem filled_fillRun {n : Nat} (hn : n ≤ 384) :
    Filled n (run eventStep portalEventInit (fillRun n)) := by
  induction n with
  | zero =>
    refine ⟨eventInv_init, rfl, rfl, length_replicate, ?_, rfl, ?_⟩
    · change (portalHtInit 512 : PortalHt Nat).entries.length = 512
      rw [portalHtInit, Probing.fresh, length_replicate]
      rfl
    · rintro idx fd ⟨e, he, hactive, -⟩
      obtain rfl := eq_of_mem_replicate (mem_of_getElem? he)
      cases hactive
  | succ n ih =>
    rw [fillRun, range_succ, map_append, run_append]
    exact filled_succ (ih (by omega)) (by omega)

theorem Filled.not_consistent {loop : PortalEventLoop} (h : Filled 384 loop) :
    ¬ EventConsistent (eventStep loop (.add ⟨true, false⟩ 384 evRead)) := by
  apply not_consistent_add h.inv
  intro hgrows
  have hload : loadExceeded loop.fdToIdx := by
    have hcount := h.count
    unfold portalHtCount at hcount
    unfold loadExceeded
    rw [h.capacity]
    omega
  have hslot : (slotAlloc loop).isSome := by
    simp [slotAlloc, h.free, h.high, h.length, eventMaxFds]
  cases hgrows (h.lookup_none (by decide)) hslot rfl hload

/-- After 384 descriptors an add has to grow the index. When it cannot, the descriptor has an
active slot that the index does not lead to. -/
theorem eventLoop_consistent_false :
    ¬ EventConsistent
      (run eventStep portalEventInit (fillRun 384 ++ [.add ⟨true, false⟩ 384 evRead])) := by
  rw [run_append, run_cons, run_nil]
  apply Filled.not_consistent
  exact filled_fillRun (le_refl 384)

end Portal
