import Portal.Core.CString
import Portal.Lib.Probing
import Mathlib.Data.Set.Card

/-!
The hash table of `src/core/core_hashtable.c`: FNV-1a, open addressing, tombstones, doubling at a
load factor of three quarters.

`portalHtSet` and `htResize` call each other, so the embedding counts the depth
(`portalHtSetFuel`); depth two is always enough (`portalHtSetFuel_eq`). Allocation is taken to
succeed. The load test compares the exact quotient with 3/4: a capacity at which the `double` could
round to 3/4 does not fit the address space.
-/

namespace Portal

open List Probing Function

/-- `occupied` is 0, 1 or 2 in the source: empty, occupied, tombstone. -/
abbrev HtEntry (V : Type) := Slot CStr V

/-- `portal_ht_t`. The capacity is the length of `entries`. -/
structure PortalHt (V : Type) where
  entries : List (HtEntry V)
  count : Nat
deriving DecidableEq

variable {V : Type}

def PortalHt.capacity (ht : PortalHt V) : Nat := ht.entries.length

def htInitialCapacity : Nat := 64

/-- FNV-1a over the bytes of the key, in 64-bit arithmetic. -/
def fnv1a (key : CStr) : UInt64 :=
  key.bytes.foldl (fun hash b => (hash ^^^ b.toUInt64) * 0x100000001b3) 0xcbf29ce484222325

def htHash (key : CStr) : Nat := (fnv1a key).toNat

def portalHtInit (initialCapacity : Nat) : PortalHt V :=
  { entries := fresh (max initialCapacity htInitialCapacity), count := 0 }

/-- `(double)(count + 1) / capacity > HT_LOAD_FACTOR` -/
def loadExceeded (ht : PortalHt V) : Prop := 3 * ht.capacity < 4 * (ht.count + 1)

instance (ht : PortalHt V) : Decidable (loadExceeded ht) :=
  inferInstanceAs (Decidable (_ < _))

/-- The loop of `portal_ht_set`, after the load test. -/
def htProbeSet (ht : PortalHt V) (key : CStr) (value : V) : PortalHt V × Int :=
  let found := scan ht.capacity fun i =>
    let slot := probe ht.capacity (htHash key) i
    match slotAt ht.entries slot with
    | .empty => some (slot, true)       -- empty or tombstone: insert here
    | .tombstone => some (slot, true)
    | .occupied k _ => if k = key then some (slot, false) else none
  match found with
  | some (slot, true) =>
    ({ entries := ht.entries.set slot (.occupied key value), count := ht.count + 1 }, 0)
  | some (slot, false) =>
    ({ ht with entries := ht.entries.set slot (.occupied key value) }, 0)
  | none => (ht, -1)

/-- `ht_resize` with the insertion it calls for every occupied slot. The return
value of that insertion is dropped, as in the source. -/
def htResizeWith (set : PortalHt V → CStr → V → Option (PortalHt V × Int))
    (ht : PortalHt V) (newCapacity : Nat) : Option (PortalHt V) :=
  ht.entries.foldlM (fun acc e =>
    match e with
    | .occupied k v => (set acc k v).map Prod.fst
    | _ => some acc) { entries := fresh newCapacity, count := 0 }

/-- `portal_ht_set` with at most `depth` nested calls; `none` when they do not
suffice. -/
def portalHtSetFuel : Nat → PortalHt V → CStr → V → Option (PortalHt V × Int)
  | 0, _, _, _ => none
  | depth + 1, ht, key, value =>
    if loadExceeded ht then
      (htResizeWith (portalHtSetFuel depth) ht (ht.capacity * 2)).map
        fun ht' => htProbeSet ht' key value
    else some (htProbeSet ht key value)

def portalHtSet (ht : PortalHt V) (key : CStr) (value : V) : PortalHt V × Int :=
  (portalHtSetFuel 2 ht key value).getD (ht, -1)

def portalHtGet (ht : PortalHt V) (key : CStr) : Option V :=
  (scan ht.capacity fun i =>
    match slotAt ht.entries (probe ht.capacity (htHash key) i) with
    | .empty => some none               -- empty slot: not found
    | .occupied k v => if k = key then some (some v) else none
    | .tombstone => none).join          -- tombstone: keep probing

def portalHtDel (ht : PortalHt V) (key : CStr) : PortalHt V × Int :=
  let found := (scan ht.capacity fun i =>
    let slot := probe ht.capacity (htHash key) i
    match slotAt ht.entries slot with
    | .empty => some none
    | .occupied k _ => if k = key then some (some slot) else none
    | .tombstone => none).join
  match found with
  | some slot => ({ entries := ht.entries.set slot .tombstone, count := ht.count - 1 }, 0)
  | none => (ht, -1)

def portalHtIter (ht : PortalHt V) : List (CStr × V) := ht.entries.filterMap Slot.entry?

def portalHtCount (ht : PortalHt V) : Nat := ht.count

/-! ### The loops as instances of the library's -/

open PortalHt (capacity)

variable (depth : Nat) (ht : PortalHt V) (key : CStr) (value : V)

theorem portalHtGet_eq :
    portalHtGet ht key = search htHash ht.entries key fun _ v => v := by
  simp only [portalHtGet, search, capacity]
  congr 2
  funext i
  cases slotAt ht.entries (probe ht.entries.length (htHash key) i) <;> rfl

theorem portalHtDel_eq :
    portalHtDel ht key =
      match search htHash ht.entries key fun slot _ => slot with
      | some slot => ({ entries := ht.entries.set slot .tombstone, count := ht.count - 1 }, 0)
      | none => (ht, -1) := by
  have hloop : (scan ht.capacity fun i =>
      match slotAt ht.entries (probe ht.capacity (htHash key) i) with
      | .empty => some none
      | .occupied k _ => if k = key then some (some (probe ht.capacity (htHash key) i)) else none
      | .tombstone => none).join = search htHash ht.entries key fun slot _ => slot := by
    simp only [search, capacity]
    congr 2
    funext i
    cases slotAt ht.entries (probe ht.entries.length (htHash key) i) <;> rfl
  rw [← hloop]
  rfl

theorem htProbeSet_eq :
    htProbeSet ht key value =
      match place htHash ht.entries key with
      | some (slot, true) =>
        ({ entries := ht.entries.set slot (.occupied key value), count := ht.count + 1 }, 0)
      | some (slot, false) =>
        ({ ht with entries := ht.entries.set slot (.occupied key value) }, 0)
      | none => (ht, -1) := by
  have hloop : (scan ht.capacity fun i =>
      match slotAt ht.entries (probe ht.capacity (htHash key) i) with
      | .empty => some (probe ht.capacity (htHash key) i, true)
      | .tombstone => some (probe ht.capacity (htHash key) i, true)
      | .occupied k _ => if k = key then some (probe ht.capacity (htHash key) i, false) else none)
      = place htHash ht.entries key := by
    simp only [place, capacity]
    congr 1
    funext i
    cases slotAt ht.entries (probe ht.entries.length (htHash key) i) <;> rfl
  rw [← hloop]
  rfl

theorem portalHtIter_eq : portalHtIter ht = entries ht.entries := rfl

theorem htProbeSet_capacity :
    (htProbeSet ht key value).1.capacity = ht.capacity := by
  rw [htProbeSet_eq]
  split <;> simp [capacity]

theorem htProbeSet_count_le :
    (htProbeSet ht key value).1.count ≤ ht.count + 1 := by
  rw [htProbeSet_eq]
  split <;> simp

/-! ### Doubling -/

def insertAll (ht : PortalHt V) (es : List (CStr × V)) : PortalHt V :=
  es.foldl (fun acc e => (htProbeSet acc e.1 e.2).1) ht

theorem htResizeWith_eq_entries (set : PortalHt V → CStr → V → Option (PortalHt V × Int))
    (ht : PortalHt V) (newCapacity : Nat) :
    htResizeWith set ht newCapacity =
      (entries ht.entries).foldlM (fun acc e => (set acc e.1 e.2).map Prod.fst)
        { entries := fresh newCapacity, count := 0 } := by
  rw [htResizeWith]
  generalize ({ entries := fresh newCapacity, count := 0 } : PortalHt V) = acc
  induction ht.entries generalizing acc with
  | nil => rfl
  | cons e es ih =>
    cases e with
    | occupied k v =>
      simp only [foldlM_cons, entries, filterMap_cons, Slot.entry?]
      congr 1
      funext acc'
      exact ih acc'
    | empty | tombstone => simpa [entries, filterMap_cons, Slot.entry?] using ih acc

/-- `portal_ht_set` where it does not resize. -/
def setInPlace (ht : PortalHt V) (key : CStr) (value : V) : Option (PortalHt V × Int) :=
  if loadExceeded ht then none else some (htProbeSet ht key value)

theorem setInPlace_of_room (ht : PortalHt V) (key : CStr) (value : V)
    (hload : ¬ loadExceeded ht) : setInPlace ht key value = some (htProbeSet ht key value) :=
  if_neg hload

/-- As long as the new table keeps room, no insertion of a resize resizes again. -/
theorem foldlM_set_eq_insertAll {set : PortalHt V → CStr → V → Option (PortalHt V × Int)}
    (hset : ∀ acc k v, ¬ loadExceeded acc → set acc k v = some (htProbeSet acc k v))
    (es : List (CStr × V)) (acc : PortalHt V)
    (h : 4 * (acc.count + es.length) ≤ 3 * acc.capacity) :
    es.foldlM (fun acc e => (set acc e.1 e.2).map Prod.fst) acc = some (insertAll acc es) := by
  induction es generalizing acc with
  | nil => rfl
  | cons e es ih =>
    simp only [length_cons] at h
    have hload : ¬ loadExceeded acc := by
      unfold loadExceeded
      omega
    have hcount := htProbeSet_count_le acc e.1 e.2
    have hcap := htProbeSet_capacity acc e.1 e.2
    have hrest := ih (htProbeSet acc e.1 e.2).1 (by rw [hcap]; omega)
    rw [foldlM_cons, hset acc e.1 e.2 hload]
    simpa [insertAll] using hrest

theorem portalHtSetFuel_of_room (hload : ¬ loadExceeded ht) :
    portalHtSetFuel (depth + 1) ht key value = some (htProbeSet ht key value) := by
  rw [portalHtSetFuel, if_neg hload]

theorem htResizeWith_double :
    htResizeWith (portalHtSetFuel (depth + 1)) ht (ht.capacity * 2)
      = some (insertAll { entries := fresh (ht.capacity * 2), count := 0 }
        (entries ht.entries)) := by
  rw [htResizeWith_eq_entries]
  apply foldlM_set_eq_insertAll (portalHtSetFuel_of_room depth)
  have hlen : (entries ht.entries).length ≤ ht.capacity := length_filterMap_le _ _
  simp only [capacity, fresh, length_replicate, zero_add] at hlen ⊢
  omega

def htMakeRoom (ht : PortalHt V) : PortalHt V :=
  if loadExceeded ht then
    insertAll { entries := fresh (ht.capacity * 2), count := 0 } (entries ht.entries)
  else ht

/-- The mutual recursion of `portal_ht_set` and `ht_resize` is at most two calls
deep, for every table. -/
theorem portalHtSetFuel_eq :
    portalHtSetFuel (depth + 2) ht key value = some (htProbeSet (htMakeRoom ht) key value) := by
  rw [portalHtSetFuel, htMakeRoom]
  split
  · rw [htResizeWith_double]
    rfl
  · rfl

theorem portalHtSet_eq :
    portalHtSet ht key value = htProbeSet (htMakeRoom ht) key value := by
  rw [portalHtSet, portalHtSetFuel_eq 0]
  rfl

/-! ### The size of the table -/

/-- The count is that of the occupied slots, and at most three quarters are occupied. -/
structure HtSized (ht : PortalHt V) : Prop where
  count : ht.count = occupancy ht.entries
  load : 4 * ht.count ≤ 3 * ht.capacity
  pos : 0 < ht.capacity

theorem htSized_fresh {n : Nat} (hn : 0 < n) :
    HtSized ({ entries := fresh n, count := 0 } : PortalHt V) where
  count := (occupancy_fresh n).symm
  load := by simp
  pos := by simpa [capacity, fresh] using hn

section Size

variable {ht : PortalHt V}

theorem htProbeSet_counts (hcount : ht.count = occupancy ht.entries) :
    (htProbeSet ht key value).1.count = occupancy (htProbeSet ht key value).1.entries := by
  rw [htProbeSet_eq]
  split
  · rename_i hplace
    simpa [hcount] using (occupancy_place hplace value).symm
  · rename_i hplace
    simpa [hcount] using (occupancy_place hplace value).symm
  · exact hcount

theorem insertAll_counts (es : List (CStr × V)) (hcount : ht.count = occupancy ht.entries) :
    (insertAll ht es).capacity = ht.capacity ∧
      (insertAll ht es).count ≤ ht.count + es.length ∧
      (insertAll ht es).count = occupancy (insertAll ht es).entries := by
  induction es generalizing ht with
  | nil => exact ⟨rfl, le_refl _, hcount⟩
  | cons e es ih =>
    obtain ⟨hcap, hle, hocc⟩ := ih (htProbeSet_counts e.1 e.2 hcount)
    have hstep := htProbeSet_count_le ht e.1 e.2
    refine ⟨hcap.trans (htProbeSet_capacity ht e.1 e.2), ?_, hocc⟩
    simp only [insertAll, foldl_cons, length_cons] at hle ⊢
    omega

variable (h : HtSized ht)

include h

theorem HtSized.exists_place (hload : ¬ loadExceeded ht) (key : CStr) :
    ∃ p new, place htHash ht.entries key = some (p, new) := by
  have := h.count
  unfold loadExceeded capacity at hload
  exact Probing.exists_place htHash key (by omega)

theorem HtSized.probeSet (hload : ¬ loadExceeded ht) : HtSized (htProbeSet ht key value).1 where
  count := htProbeSet_counts key value h.count
  load := by
    have hle := htProbeSet_count_le ht key value
    rw [htProbeSet_capacity]
    unfold loadExceeded at hload
    omega
  pos := by
    rw [htProbeSet_capacity]
    exact h.pos

theorem HtSized.makeRoom : HtSized (htMakeRoom ht) ∧ ¬ loadExceeded (htMakeRoom ht) := by
  rw [htMakeRoom]
  split
  · obtain ⟨hcap, hle, hcount⟩ := insertAll_counts (entries ht.entries)
      (htSized_fresh (V := V) (n := ht.capacity * 2) (Nat.mul_pos h.pos (by decide))).count
    have hpos := h.pos
    have hload := h.load
    rw [length_entries, ← h.count] at hle
    simp only [loadExceeded, capacity, fresh, length_replicate] at *
    exact ⟨⟨hcount, by simp only [capacity]; omega, by simp only [capacity]; omega⟩, by omega⟩
  · rename_i hroom
    exact ⟨h, hroom⟩

theorem HtSized.set :
    HtSized (portalHtSet ht key value).1 ∧ (portalHtSet ht key value).2 = 0 := by
  obtain ⟨hroom, hload⟩ := h.makeRoom
  obtain ⟨p, new, hplace⟩ := hroom.exists_place hload key
  refine ⟨portalHtSet_eq ht key value ▸ hroom.probeSet key value hload, ?_⟩
  rw [portalHtSet_eq, htProbeSet_eq, hplace]
  cases new <;> rfl

theorem HtSized.del : HtSized (portalHtDel ht key).1 := by
  rw [portalHtDel_eq]
  split
  · rename_i slot hs
    obtain ⟨p, old, hslot, rfl⟩ := exists_of_search hs
    have hp : p < ht.entries.length := lt_length_of_slotAt_ne_empty (by simp [hslot])
    have hocc := occupancy_set (s := .tombstone) hp
    simp only [hslot, Slot.isOccupied_occupied, Slot.isOccupied_tombstone, if_true,
      Bool.false_eq_true, if_false] at hocc
    obtain ⟨hcount, hload, hpos⟩ := h
    simp only [capacity] at hload hpos
    refine ⟨?_, ?_, ?_⟩ <;> simp only [capacity, length_set] <;> omega
  · exact h

end Size

/-! ### Histories and the finite map they denote -/

inductive HtOp (V : Type) where
  | set (key : CStr) (value : V)
  | del (key : CStr)
  | get (key : CStr)

def htStep (ht : PortalHt V) : HtOp V → PortalHt V
  | .set k v => (portalHtSet ht k v).1
  | .del k => (portalHtDel ht k).1
  | .get _ => ht

def htRun (initialCapacity : Nat) (ops : List (HtOp V)) : PortalHt V :=
  ops.foldl htStep (portalHtInit initialCapacity)

def mapStep (m : CStr → Option V) : HtOp V → CStr → Option V
  | .set k v => Function.update m k (some v)
  | .del k => Function.update m k none
  | .get _ => m

/-- The value of the latest `set` of each key that no `del` of the key follows. -/
def latest (ops : List (HtOp V)) : CStr → Option V := ops.foldl mapStep fun _ => none

/-- The table answers every question as the finite map `m` does. -/
structure AsMap (ht : PortalHt V) (m : CStr → Option V) : Prop where
  get : ∀ k, portalHtGet ht k = m k
  del : ∀ k, (portalHtDel ht k).2 = 0 ↔ (m k).isSome
  count : portalHtCount ht = {k | (m k).isSome}.ncard
  iter_once : ((portalHtIter ht).map Prod.fst).Nodup
  iter_mem : ∀ k v, (k, v) ∈ portalHtIter ht ↔ m k = some v

/-- `key` is stored, and a tombstone lies before it on its probe sequence. -/
def Shadowed (ht : PortalHt V) (key : CStr) : Prop :=
  ∃ d < ht.capacity, ∃ e < d,
    (∃ v, slotAt ht.entries (probe ht.capacity (htHash key) d) = .occupied key v) ∧
      slotAt ht.entries (probe ht.capacity (htHash key) e) = .tombstone

/-- A `set` that leaves the capacity alone is not one of a shadowed key. -/
def StepClean (ht : PortalHt V) : HtOp V → Prop
  | .set k _ => loadExceeded ht ∨ ¬ Shadowed ht k
  | _ => True

/-! ### The invariant of clean histories -/

/-- The representation invariant together with the map the table stands for. -/
structure HtInv (ht : PortalHt V) (m : CStr → Option V) : Prop where
  wf : WellFormed htHash ht.entries
  count : ht.count = occupancy ht.entries
  load : 4 * ht.count ≤ 3 * ht.capacity
  pos : 0 < ht.capacity
  maps : ∀ k v, Maps ht.entries k v ↔ m k = some v

theorem portalHtGet_eq_some_iff {ht : PortalHt V} (wf : WellFormed htHash ht.entries) {k : CStr}
    {v : V} : portalHtGet ht k = some v ↔ Maps ht.entries k v := by
  rw [portalHtGet_eq, search_eq_some_iff wf]
  exact ⟨fun ⟨i, w, hi, hw⟩ => ⟨i, hw ▸ hi⟩, fun ⟨i, hi⟩ => ⟨i, v, hi, rfl⟩⟩

section

variable {ht : PortalHt V} {m : CStr → Option V} (inv : HtInv ht m)

include inv

theorem HtInv.present (k : CStr) : Present ht.entries k ↔ (m k).isSome := by
  simp only [Present, inv.maps, Option.isSome_iff_exists]

theorem HtInv.keys_eq : {k | (m k).isSome} = ↑((entries ht.entries).map Prod.fst).toFinset := by
  ext k
  simp [← inv.present, Present, mem_entries]

theorem HtInv.finite_keys : {k | (m k).isSome}.Finite := by
  rw [inv.keys_eq]
  exact Finset.finite_toSet _

theorem HtInv.asMap : AsMap ht m where
  get k := Option.ext fun v => (portalHtGet_eq_some_iff inv.wf).trans (inv.maps k v)
  del k := by
    rw [portalHtDel_eq, ← inv.present]
    cases hs : search htHash ht.entries k fun slot _ => slot with
    | none => simpa using (search_eq_none_iff inv.wf).mp hs
    | some slot =>
      obtain ⟨i, v, hi, _⟩ := (search_eq_some_iff inv.wf).mp hs
      simpa using ⟨v, i, hi⟩
  count := by
    rw [portalHtCount, inv.count, inv.keys_eq, Set.ncard_coe_finset,
      toFinset_card_of_nodup (nodup_keys_entries inv.wf), length_map, length_entries]
  iter_once := nodup_keys_entries inv.wf
  iter_mem k v := by rw [portalHtIter_eq, mem_entries, inv.maps]

end

theorem HtInv.sized {ht : PortalHt V} {m : CStr → Option V} (inv : HtInv ht m) : HtSized ht :=
  ⟨inv.count, inv.load, inv.pos⟩

theorem HtSized.htInv {ht : PortalHt V} {m : CStr → Option V} (h : HtSized ht)
    (wf : WellFormed htHash ht.entries) (maps : ∀ k v, Maps ht.entries k v ↔ m k = some v) :
    HtInv ht m :=
  ⟨wf, h.count, h.load, h.pos, maps⟩

theorem htInv_fresh {n : Nat} (hn : 0 < n) :
    HtInv ({ entries := fresh n, count := 0 } : PortalHt V) fun _ => none :=
  (htSized_fresh hn).htInv (wellFormed_fresh htHash n) fun k v => by simp [Maps, slotAt_fresh]

section Insertion

variable {ht : PortalHt V} {m : CStr → Option V} {key : CStr} {value : V}

section

variable (inv : HtInv ht m)

include inv

/-- What is stored after writing `key` into position `p`, when no other slot holds
`key` and `p` holds no other key. -/
theorem maps_set_occupied {p : Nat} (hp : p < ht.entries.length)
    (honly : ∀ i w, slotAt ht.entries i = .occupied key w → i = p)
    (hfree : ∀ k w, slotAt ht.entries p = .occupied k w → k = key) (k : CStr) (v : V) :
    Maps (ht.entries.set p (.occupied key value)) k v ↔ update m key (some value) k = some v := by
  rw [maps_set hp (by rintro _ _ ⟨⟩; rfl) honly hfree, update_apply]
  split
  · simp
  · exact inv.maps k v

theorem htProbeSet_absent (hload : ¬ loadExceeded ht) (hm : m key = none) :
    HtInv (htProbeSet ht key value).1 (update m key (some value)) := by
  have habsent : ∀ i w, slotAt ht.entries i ≠ .occupied key w := by
    intro i w hi
    have := (inv.maps key w).mp ⟨i, hi⟩
    simp [hm] at this
  have hsized := inv.sized.probeSet key value hload
  obtain ⟨p, new, hplace⟩ := inv.sized.exists_place hload key
  obtain ⟨d, hd, rfl, hbefore, hslot⟩ := place_eq_some_iff.mp hplace
  have hp : probe ht.entries.length (htHash key) d < ht.entries.length := probe_lt (by omega)
  cases new with
  | false =>
    obtain ⟨v, hv⟩ : ∃ v, slotAt ht.entries _ = .occupied key v := by simpa using hslot
    exact absurd hv (habsent _ v)
  | true =>
    have hnot :
        (slotAt ht.entries (probe ht.entries.length (htHash key) d)).isOccupied = false := by
      simpa using hslot
    rw [htProbeSet_eq, hplace] at hsized ⊢
    refine hsized.htInv ?_ ?_
    · refine inv.wf.store hd (fun j hj => ?_) (fun i w hi => absurd hi (habsent i w))
      obtain ⟨k', v', hk', _⟩ := hbefore j hj
      simp [hk']
    · refine maps_set_occupied inv hp (fun i w hi => absurd hi (habsent i w)) ?_
      intro k w hw
      simp [hw, Slot.isOccupied] at hnot

theorem HtInv.overwrite {p : Nat} {old : V} (hslot : slotAt ht.entries p = .occupied key old) :
    HtInv { ht with entries := ht.entries.set p (.occupied key value) }
      (update m key (some value)) := by
  obtain ⟨d, hd, rfl, hreach⟩ := inv.wf.reach p key old hslot
  have hp : probe ht.entries.length (htHash key) d < ht.entries.length := probe_lt (by omega)
  have honly : ∀ i w, slotAt ht.entries i = .occupied key w →
      i = probe ht.entries.length (htHash key) d :=
    fun i w hi => inv.wf.unique _ _ _ _ _ hi hslot
  have hocc := occupancy_set (s := .occupied key value) hp
  simp only [hslot, Slot.isOccupied_occupied, if_true] at hocc
  refine ⟨?_, ?_, ?_, ?_, ?_⟩
  · exact inv.wf.store hd hreach honly
  · have := inv.count
    simp only
    omega
  · simpa [capacity] using inv.load
  · simpa [capacity] using inv.pos
  refine maps_set_occupied inv hp honly ?_
  intro k w hw
  rw [hslot] at hw
  exact (Slot.occupied.inj hw).1.symm

/-- Setting a stored key that no tombstone hides overwrites its value. -/
theorem htProbeSet_present (hclean : ¬ Shadowed ht key) (hpresent : Present ht.entries key) :
    HtInv (htProbeSet ht key value).1 (update m key (some value)) := by
  obtain ⟨old, p, hslot⟩ := hpresent
  obtain ⟨d, hd, rfl, hreach⟩ := inv.wf.reach p key old hslot
  have honly : ∀ i w, slotAt ht.entries i = .occupied key w →
      i = probe ht.entries.length (htHash key) d :=
    fun i w hi => inv.wf.unique _ _ _ _ _ hi hslot
  have hplace : place htHash ht.entries key
      = some (probe ht.entries.length (htHash key) d, false) := by
    refine place_eq_some_iff.mpr ⟨d, hd, rfl, ?_, by simpa using ⟨old, hslot⟩⟩
    intro j hj
    -- Neither empty nor a tombstone nor `key` itself: another key.
    cases hj' : slotAt ht.entries (probe ht.entries.length (htHash key) j) with
    | empty => exact absurd hj' (hreach j hj)
    | tombstone => exact absurd ⟨d, hd, j, hj, ⟨old, hslot⟩, hj'⟩ hclean
    | occupied k' v' =>
      refine ⟨k', v', rfl, ?_⟩
      rintro rfl
      have := probe_injective (by omega) hd (honly _ _ hj')
      omega
  rw [htProbeSet_eq, hplace]
  exact inv.overwrite hslot

theorem htInv_probeSet (hload : ¬ loadExceeded ht) (hclean : ¬ Shadowed ht key) :
    HtInv (htProbeSet ht key value).1 (update m key (some value)) := by
  cases hm : m key with
  | none => exact htProbeSet_absent inv hload hm
  | some old => exact htProbeSet_present inv hclean ((inv.present key).mpr (by simp [hm]))

/-- Setting a shadowed key stores a second copy: the count grows although the key
was present. -/
theorem htProbeSet_shadowed (hload : ¬ loadExceeded ht)
    (hshadow : Shadowed ht key) : (htProbeSet ht key value).1.count = ht.count + 1 := by
  obtain ⟨d, hd, e, he, ⟨v, hv⟩, htomb⟩ := hshadow
  obtain ⟨p, new, hplace⟩ := inv.sized.exists_place hload key
  obtain ⟨d', hd', rfl, hbefore, hslot⟩ := place_eq_some_iff.mp hplace
  have hfirst : d' ≤ e := by
    by_contra hlt
    obtain ⟨k', v', hk', _⟩ := hbefore e (by omega)
    rw [capacity] at htomb
    simp [htomb] at hk'
  cases new with
  | true => simp [htProbeSet_eq, hplace]
  | false =>
    obtain ⟨w, hw⟩ : ∃ w, slotAt ht.entries _ = .occupied key w := by simpa using hslot
    have := probe_injective hd' hd (inv.wf.unique _ _ _ _ _ hw hv)
    omega

end

end Insertion

section Step

variable {ht : PortalHt V} {m : CStr → Option V}

variable (es : List (CStr × V)) {key : CStr}

structure FilledTable (ht : PortalHt V) (m : CStr → Option V) : Prop where
  inv : HtInv ht m
  clean : Slot.tombstone ∉ ht.entries

theorem filledTable_fresh {n : Nat} (hn : 0 < n) :
    FilledTable ({ entries := fresh n, count := 0 } : PortalHt V) fun _ => none :=
  ⟨htInv_fresh hn, by simp [fresh]⟩

theorem FilledTable.not_shadowed (h : FilledTable ht m) (key : CStr) : ¬ Shadowed ht key := by
  rintro ⟨d, -, e, -, -, htomb⟩
  have hmem := slotAt_mem (lt_length_of_slotAt_ne_empty (t := ht.entries)
    (i := probe ht.capacity (htHash key) e) (by simp [htomb]))
  exact h.clean (htomb ▸ hmem)

theorem FilledTable.probeSet (h : FilledTable ht m) (value : V) (hload : ¬ loadExceeded ht) :
    FilledTable (htProbeSet ht key value).1 (update m key (some value)) where
  inv := htInv_probeSet h.inv hload (h.not_shadowed key)
  clean := by
    rw [htProbeSet_eq]
    split
    · exact fun hmem => (mem_or_eq_of_mem_set hmem).elim h.clean (by simp)
    · exact fun hmem => (mem_or_eq_of_mem_set hmem).elim h.clean (by simp)
    · exact h.clean

theorem FilledTable.insertAll (h : FilledTable ht m)
    (hload : 4 * (ht.count + es.length) ≤ 3 * ht.capacity) :
    FilledTable (insertAll ht es) (es.foldl (fun m e => update m e.1 (some e.2)) m) := by
  induction es generalizing ht m with
  | nil => exact h
  | cons e es ih =>
    simp only [length_cons] at hload
    have hroom : ¬ loadExceeded ht := by
      unfold loadExceeded
      omega
    have hcap := htProbeSet_capacity ht e.1 e.2
    have hcount := htProbeSet_count_le ht e.1 e.2
    have hrest := ih (h.probeSet e.2 hroom) (by rw [hcap]; omega)
    exact hrest

theorem foldl_update_eq (hnodup : (es.map Prod.fst).Nodup)
    (hmem : ∀ k v, (k, v) ∈ es ↔ m k = some v) :
    es.foldl (fun (m : CStr → Option V) e => update m e.1 (some e.2)) (fun _ => none) = m := by
  refine funext fun k => Option.ext fun v => Iff.trans ?_ (hmem k v)
  clear hmem
  induction es using reverseRecOn with
  | nil => simp
  | append_singleton es e ih =>
    obtain ⟨k', v'⟩ := e
    obtain ⟨hrest, -, hnew⟩ := nodup_append.mp (map_append ▸ hnodup)
    rw [foldl_append, foldl_cons, foldl_nil, update_apply]
    split
    · subst k
      have hnot : (k', v) ∉ es := fun hmem => hnew k' (mem_map_of_mem hmem) k' (by simp) rfl
      simp [hnot, eq_comm]
    · rename_i hk
      simp [ih hrest, hk]

theorem filledTable_double (inv : HtInv ht m) :
    FilledTable (insertAll { entries := fresh (ht.capacity * 2), count := 0 }
      (entries ht.entries)) m := by
  have hpos := inv.pos
  have hload := inv.load
  have hm := foldl_update_eq _ (nodup_keys_entries inv.wf) fun k v =>
    mem_entries.trans (inv.maps k v)
  refine hm ▸ (filledTable_fresh (by omega)).insertAll _ ?_
  rw [length_entries, ← inv.count]
  simp only [capacity, fresh, length_replicate, zero_add] at *
  omega

theorem htInv_makeRoom (inv : HtInv ht m) :
    HtInv (htMakeRoom ht) m ∧ ¬ loadExceeded (htMakeRoom ht) := by
  refine ⟨?_, inv.sized.makeRoom.2⟩
  rw [htMakeRoom]
  split
  · exact (filledTable_double inv).inv
  · exact inv

theorem htInv_set_absent (value : V) (inv : HtInv ht m) (hm : m key = none) :
    HtInv (portalHtSet ht key value).1 (update m key (some value)) := by
  obtain ⟨inv', hload⟩ := htInv_makeRoom inv
  rw [portalHtSet_eq]
  exact htProbeSet_absent inv' hload hm

theorem htInv_set {value : V} (inv : HtInv ht m)
    (hclean : StepClean ht (.set key value)) :
    HtInv (portalHtSet ht key value).1 (update m key (some value)) := by
  obtain ⟨inv', hload⟩ := htInv_makeRoom inv
  rw [portalHtSet_eq]
  refine htInv_probeSet inv' hload ?_
  rw [htMakeRoom]
  split
  · exact (filledTable_double inv).not_shadowed key
  · rename_i hroom
    exact hclean.resolve_left hroom

theorem htInv_del (inv : HtInv ht m) :
    HtInv (portalHtDel ht key).1 (update m key none) := by
  have hsized := inv.sized.del key
  rw [portalHtDel_eq] at hsized ⊢
  cases hs : search htHash ht.entries key fun slot _ => slot with
  | none =>
    have hm : m key = none := by
      have := (search_eq_none_iff inv.wf).mp hs
      rwa [inv.present, Option.not_isSome_iff_eq_none] at this
    rwa [← hm, update_eq_self]
  | some slot =>
    obtain ⟨p, old, hslot, rfl⟩ := (search_eq_some_iff inv.wf).mp hs
    have hp : p < ht.entries.length := lt_length_of_slotAt_ne_empty (by simp [hslot])
    rw [hs] at hsized
    refine hsized.htInv (inv.wf.erase hp) fun k v => ?_
    have hfree (k : CStr) (w : V) (hw : slotAt ht.entries p = .occupied k w) : k = key := by
      rw [hslot] at hw
      exact (Slot.occupied.inj hw).1.symm
    rw [maps_set hp (by rintro _ _ ⟨⟩) (fun i w hi => inv.wf.unique _ _ _ _ _ hi hslot) hfree,
      update_apply]
    split
    · simp
    · exact inv.maps k v

theorem portalHtCount_set_absent (value : V) (inv : HtInv ht m)
    (hm : m key = none) :
    portalHtCount (portalHtSet ht key value).1 = portalHtCount ht + 1 := by
  have hnew : key ∉ {k | (m k).isSome} := by simp [hm]
  rw [(htInv_set_absent value inv hm).asMap.count, inv.asMap.count,
    ← Set.ncard_insert_of_notMem hnew inv.finite_keys]
  congr 1
  ext k
  by_cases hk : k = key <;> simp [hk]

theorem portalHtCount_del_present (inv : HtInv ht m) (hm : (m key).isSome) :
    portalHtCount (portalHtDel ht key).1 + 1 = portalHtCount ht := by
  rw [(htInv_del inv).asMap.count, inv.asMap.count,
    ← Set.ncard_sdiff_singleton_add_one (show key ∈ {k | (m k).isSome} from hm) inv.finite_keys]
  congr 2
  ext k
  by_cases hk : k = key <;> simp [hk]

/-- A clean operation keeps the invariant and does to the map what it should. -/
theorem htInv_step {op : HtOp V} (inv : HtInv ht m) (hclean : StepClean ht op) :
    HtInv (htStep ht op) (mapStep m op) := by
  cases op with
  | set k v => exact htInv_set inv hclean
  | del k => exact htInv_del inv
  | get k => exact inv

/-- An operation that is not clean leaves a table that is not the map: its count is
one too high. -/
theorem not_asMap_step {op : HtOp V} (inv : HtInv ht m) (hunclean : ¬ StepClean ht op) :
    ¬ AsMap (htStep ht op) (mapStep m op) := by
  cases op with
  | del k | get k => exact absurd trivial hunclean
  | set key value =>
    simp only [StepClean, not_or, not_not] at hunclean
    obtain ⟨hload, hshadow⟩ := hunclean
    intro hmap
    have hcount := hmap.count
    have hpresent : (m key).isSome := by
      obtain ⟨d, _, e, _, ⟨v, hv⟩, _⟩ := hshadow
      exact (inv.present key).mp ⟨v, _, hv⟩
    -- The set of present keys is the old one.
    have hkeys : {k | (mapStep m (.set key value) k).isSome} = {k | (m k).isSome} := by
      ext k
      by_cases hk : k = key
      · subst hk
        simpa [mapStep] using hpresent
      · simp [mapStep, update_of_ne hk]
    rw [hkeys, ← inv.asMap.count, htStep, portalHtSet_eq, htMakeRoom, if_neg hload,
      portalHtCount, portalHtCount, htProbeSet_shadowed inv hload hshadow] at hcount
    omega

end Step

/-! ### Whole histories -/

theorem htRun_append (cap : Nat) (ops : List (HtOp V)) (op : HtOp V) :
    htRun cap (ops ++ [op]) = htStep (htRun cap ops) op := by
  simp [htRun]

theorem latest_append (ops : List (HtOp V)) (op : HtOp V) :
    latest (ops ++ [op]) = mapStep (latest ops) op := by
  simp [latest]

/-- Every operation of the history is clean when its turn comes. -/
def HistoryClean (cap : Nat) (ops : List (HtOp V)) : Prop :=
  ∀ before op, before ++ [op] <+: ops → StepClean (htRun cap before) op

theorem HistoryClean.of_append {cap : Nat} {ops : List (HtOp V)} {op : HtOp V}
    (h : HistoryClean cap (ops ++ [op])) : HistoryClean cap ops :=
  fun before op' hpre => h before op' (hpre.trans (prefix_append _ _))

/-- The run lemma: a clean history keeps the invariant. -/
theorem htInv_run (cap : Nat) (ops : List (HtOp V)) (h : HistoryClean cap ops) :
    HtInv (htRun cap ops) (latest ops) := by
  induction ops using reverseRecOn with
  | nil => exact htInv_fresh (by simp [htInitialCapacity])
  | append_singleton ops op ih =>
    rw [htRun_append, latest_append]
    exact htInv_step (ih h.of_append) (h ops op (prefix_refl _))

/-- The table is the finite map of its history, after every operation, exactly when no `set` passes
a tombstone on the way to a stored copy of its key (one that doubles the table passes none). -/
theorem portalHt_asMap_iff (cap : Nat) (ops : List (HtOp V)) :
    (∀ before, before <+: ops → AsMap (htRun cap before) (latest before)) ↔
      HistoryClean cap ops := by
  constructor
  · intro hmap
    -- By induction on the history: up to the first unclean step the invariant holds.
    induction ops using reverseRecOn with
    | nil =>
      intro before op hpre
      simp at hpre
    | append_singleton ops op ih =>
      have hclean := ih fun before hpre => hmap before (hpre.trans (prefix_append _ _))
      intro before op' hpre
      rcases prefix_concat_iff.mp hpre with heq | hpre
      · obtain ⟨rfl, heq⟩ := append_inj' heq rfl
        obtain rfl : op' = op := by simpa using heq
        by_contra hunclean
        refine not_asMap_step (htInv_run cap before hclean) hunclean ?_
        rw [← htRun_append, ← latest_append]
        exact hmap _ (prefix_refl _)
      · exact hclean before op' hpre
  · intro hclean before hpre
    exact (htInv_run cap before fun b op h => hclean b op (h.trans hpre)).asMap

theorem htSized_run (cap : Nat) (ops : List (HtOp V)) : HtSized (htRun cap ops) := by
  induction ops using reverseRecOn with
  | nil => exact htSized_fresh (by simp [htInitialCapacity])
  | append_singleton ops op ih =>
    rw [htRun_append]
    cases op with
    | set k v => exact (ih.set k v).1
    | del k => exact ih.del k
    | get k => exact ih

/-- Over every history the count is that of the occupied slots, at most three quarters are
occupied, and the next `set` does not find the table full. -/
theorem portalHtSet_never_full (cap : Nat) (ops : List (HtOp V)) :
    (htRun cap ops).count = occupancy (htRun cap ops).entries ∧
      4 * (htRun cap ops).count ≤ 3 * (htRun cap ops).capacity ∧
      ∀ key value, (portalHtSet (htRun cap ops) key value).2 = 0 := by
  have hsized := htSized_run cap ops
  exact ⟨hsized.count, hsized.load, fun key value => (hsized.set key value).2⟩

theorem filledTable_init (cap : Nat) :
    FilledTable (portalHtInit cap : PortalHt V) fun _ => none :=
  filledTable_fresh (by simp [htInitialCapacity])

theorem FilledTable.set {ht : PortalHt V} {m : CStr → Option V} (h : FilledTable ht m)
    (key : CStr) (value : V) :
    FilledTable (portalHtSet ht key value).1 (update m key (some value)) := by
  have hroom : FilledTable (htMakeRoom ht) m := by
    rw [htMakeRoom]
    split
    · exact filledTable_double h.inv
    · exact h
  rw [portalHtSet_eq]
  exact hroom.probeSet value h.inv.sized.makeRoom.2

theorem FilledTable.setAll {ht : PortalHt V} {m : CStr → Option V} (h : FilledTable ht m)
    (es : List (CStr × V)) :
    FilledTable (es.foldl (fun ht e => (portalHtSet ht e.1 e.2).1) ht)
      (es.foldl (fun m e => update m e.1 (some e.2)) m) := by
  induction es generalizing ht m with
  | nil => exact h
  | cons e es ih => exact ih (h.set e.1 e.2)

/-! ### Resizing -/

/-- A well-formed table is rehashed by a resize to any larger capacity. The nested calls are at
most two deep, and there are none if the entries take no more than three quarters. -/
theorem htResize_rehashes {ht : PortalHt V} (wf : WellFormed htHash ht.entries)
    (hcount : ht.count = occupancy ht.entries) {newCapacity : Nat}
    (hlarger : ht.capacity < newCapacity) :
    ∃ ht', (∀ depth, htResizeWith (portalHtSetFuel (depth + 2)) ht newCapacity = some ht') ∧
      (4 * ht.count ≤ 3 * newCapacity → htResizeWith setInPlace ht newCapacity = some ht') ∧
      Slot.tombstone ∉ ht'.entries ∧ ht'.count = ht.count ∧
      (∀ k, portalHtGet ht' k = portalHtGet ht k) ∧
      WellFormed htHash ht'.entries ∧ ht'.count = occupancy ht'.entries := by
  have hnodup := nodup_keys_entries wf
  have hfilled := (filledTable_fresh (Nat.zero_lt_of_lt hlarger)).setAll (entries ht.entries)
  have hget : ∀ k v, (k, v) ∈ entries ht.entries ↔ portalHtGet ht k = some v :=
    fun k v => mem_entries.trans (portalHtGet_eq_some_iff wf).symm
  rw [foldl_update_eq _ hnodup hget] at hfilled
  set ht' := (entries ht.entries).foldl (fun ht e => (portalHtSet ht e.1 e.2).1) _ with hht'
  obtain ⟨inv, hclean⟩ := hfilled
  have hresize (depth : Nat) :
      htResizeWith (portalHtSetFuel (depth + 2)) ht newCapacity = some ht' := by
    rw [htResizeWith_eq_entries]
    simp only [portalHtSetFuel_eq, ← portalHtSet_eq, Option.map_some]
    exact foldlM_pure
  refine ⟨ht', hresize, fun hload => ?_, hclean, ?_, inv.asMap.get, inv.wf, inv.count⟩
  · rw [hcount, ← length_entries] at hload
    rw [← hresize 0, htResizeWith_eq_entries, htResizeWith_eq_entries,
      foldlM_set_eq_insertAll setInPlace_of_room,
      foldlM_set_eq_insertAll (portalHtSetFuel_of_room 1)] <;>
    simpa [fresh, capacity] using hload
  rw [inv.count, hcount, ← length_entries, ← length_entries]
  refine ((perm_ext_iff_of_nodup (nodup_keys_entries inv.wf).of_map hnodup.of_map).mpr
    fun e => ?_).length_eq
  rw [hget, mem_entries, inv.maps]

/-- The load condition of a resize, for every doubling. -/
theorem load_double {ht : PortalHt V} (hcount : ht.count = occupancy ht.entries) :
    4 * ht.count ≤ 3 * (2 * ht.capacity) := by
  have hle : occupancy ht.entries ≤ ht.capacity := countP_le_length
  omega

/-- And for every table that `set` and `del` produce. -/
theorem load_larger (cap : Nat) (ops : List (HtOp V)) {newCapacity : Nat}
    (hlarger : (htRun cap ops).capacity < newCapacity) :
    4 * (htRun cap ops).count ≤ 3 * newCapacity := by
  have hload := (htSized_run cap ops).load
  omega

def fullTable : PortalHt Nat where
  entries := ["a", "b", "c", "d"].map fun key => .occupied (.lit key) 0
  count := 4

theorem wellFormed_fullTable : WellFormed htHash fullTable.entries where
  reach i k v hi := by
    have hlt := lt_length_of_slotAt_ne_empty (t := fullTable.entries) (i := i) (by simp [hi])
    obtain ⟨d, hd, rfl⟩ := probe_surjective (htHash k) hlt
    refine ⟨d, hd, rfl, fun j _ hempty => ?_⟩
    have hfull : ∀ s < fullTable.entries.length, (slotAt fullTable.entries s).isOccupied := by
      decide
    have := hfull _ (probe_lt (h := htHash k) (i := j) (Nat.zero_lt_of_lt hd))
    simp [hempty, Slot.isOccupied] at this
  unique i j k v w hi hj := by
    have hdistinct : ∀ s < 4, ∀ s' < 4, ( Slot.entry? (slotAt fullTable.entries s)).map Prod.fst =
        ( Slot.entry? (slotAt fullTable.entries s')).map Prod.fst → s = s' := by decide
    have hlt {s v} (hs : slotAt fullTable.entries s = .occupied k v) : s < 4 :=
      lt_length_of_slotAt_ne_empty (t := fullTable.entries) (by simp [hs])
    exact hdistinct i (hlt hi) j (hlt hj) (by simp [hi, hj, Slot.entry?])

theorem htResize_rehashes_fullTable :
    ∃ ht', htResizeWith (portalHtSetFuel 2) fullTable 5 = some ht' ∧ ht'.count = 4 := by
  obtain ⟨ht', hresize, -, -, hcount, -⟩ :=
    htResize_rehashes wellFormed_fullTable rfl (by decide : fullTable.capacity < 5)
  exact ⟨ht', hresize 0, hcount⟩

/-- One slot more is not enough for four keys: the last of them resizes the new table again. -/
theorem htResize_nested :
    WellFormed htHash fullTable.entries ∧ fullTable.count = occupancy fullTable.entries ∧
      fullTable.capacity < 5 ∧ htResizeWith setInPlace fullTable 5 = none :=
  ⟨wellFormed_fullTable, rfl, by decide, by decide +kernel⟩

/-- `"!"` is stored behind `"a"`, in whose home slot it belongs; once `"a"` is deleted, setting
`"!"` again fills the tombstone, and deleting it brings the older value back. -/
theorem portalHt_asMap_false :
    ¬ AsMap
      (htRun 64 [.set (.lit "a") 1, .set (.lit "!") 2, .del (.lit "a"), .set (.lit "!") 3,
        .del (.lit "!")])
      (latest [.set (.lit "a") 1, .set (.lit "!") 2, .del (.lit "a"), .set (.lit "!") 3,
        .del (.lit "!")]) := by
  intro h
  have := h.get (.lit "!")
  revert this
  decide +kernel

end Portal
