import Portal.Core.HashTable
import Portal.Core.Message
import Portal.Lib.Runs

/-!
The path registry and its label-based access control: `src/core/core_path.c`.

An entry is found through `portal_ht_get` and then changed in place, so a change to
the entry of a path touches the one slot the search stops at (`storeThrough`).
-/

namespace Portal

open List Probing Runs Option Function

/-- `path_entry_t`, without the fields no lookup and no access decision reads. -/
structure PathEntry where
  moduleName : CStr
  labels : PortalLabels
deriving DecidableEq

structure PortalPathTree where
  table : PortalHt PathEntry
  count : Int

def portalPathInit : PortalPathTree := ⟨portalHtInit htInitialCapacity, 0⟩

def portalPathLookupEntry (tree : PortalPathTree) (path : CStr) : Option PathEntry :=
  portalHtGet tree.table path

def portalPathLookup (tree : PortalPathTree) (path : CStr) : Option CStr :=
  (portalPathLookupEntry tree path).map PathEntry.moduleName

def portalPathRegister (tree : PortalPathTree) (path moduleName : CStr) : PortalPathTree × Int :=
  if (portalHtGet tree.table path).isSome then (tree, -1)
  else
    let entry : PathEntry := { moduleName := moduleName.truncate 63, labels := .empty }
    match portalHtSet tree.table path entry with
    | (table, 0) => ({ table, count := tree.count + 1 }, 0)
    | (table, rc) => ({ tree with table }, rc)

def portalPathUnregister (tree : PortalPathTree) (path : CStr) : PortalPathTree × Int :=
  if (portalHtGet tree.table path).isSome then
    ({ table := (portalHtDel tree.table path).1, count := tree.count - 1 }, 0)
  else (tree, -1)

/-- An assignment through the pointer that `portal_ht_get` returned. -/
def storeThrough (tree : PortalPathTree) (path : CStr) (f : PathEntry → PathEntry) :
    PortalPathTree :=
  match search htHash tree.table.entries path fun slot e => (slot, e) with
  | some (slot, e) =>
    { tree with
      table := { tree.table with entries := tree.table.entries.set slot (.occupied path (f e)) } }
  | none => tree

def portalPathAddLabel (tree : PortalPathTree) (path label : CStr) : PortalPathTree × Int :=
  match portalHtGet tree.table path with
  | none => (tree, -1)
  | some e =>
    (storeThrough tree path fun e => { e with labels := (portalLabelsAdd e.labels label).1 },
      (portalLabelsAdd e.labels label).2)

/-! ### The registry as a map -/

inductive PathOp where
  | register (path moduleName : CStr)
  | unregister (path : CStr)
  | lookup (path : CStr)
deriving DecidableEq

def pathStep (tree : PortalPathTree) : PathOp → PortalPathTree
  | .register path moduleName => (portalPathRegister tree path moduleName).1
  | .unregister path => (portalPathUnregister tree path).1
  | .lookup _ => tree

def pathRun (ops : List PathOp) : PortalPathTree := run pathStep portalPathInit ops

/-- The path was registered for this module by a call that succeeded, and has not been
unregistered since. -/
def RegisteredAs (ops : List PathOp) (path moduleName : CStr) : Prop :=
  ∃ before after, ops = before ++ .register path moduleName :: after ∧
    (portalPathRegister (pathRun before) path moduleName).2 = 0 ∧ .unregister path ∉ after

/-- The registry holds the entries `m`, and its counter agrees with the table's. -/
structure TreeInv (tree : PortalPathTree) (m : CStr → Option PathEntry) : Prop where
  table : HtInv tree.table m
  count : tree.count = portalHtCount tree.table

section Registry

variable {tree : PortalPathTree} {m : CStr → Option PathEntry}

theorem treeInv_init : TreeInv portalPathInit fun _ => none where
  table := htInv_fresh (by simp [htInitialCapacity])
  count := rfl

theorem TreeInv.lookupEntry (inv : TreeInv tree m) (path : CStr) :
    portalPathLookupEntry tree path = m path := inv.table.asMap.get path

theorem portalPathRegister_spec (inv : TreeInv tree m) (path moduleName : CStr) :
    portalPathRegister tree path moduleName = (tree, -1) ∧ (m path).isSome ∨
    (portalPathRegister tree path moduleName).2 = 0 ∧ m path = none ∧
      TreeInv (portalPathRegister tree path moduleName).1
        (update m path (some ⟨moduleName.truncate 63, .empty⟩)) := by
  unfold portalPathRegister
  rw [inv.table.asMap.get]
  cases hm : m path with
  | some e => exact .inl ⟨rfl, rfl⟩
  | none =>
    right
    -- The path is not stored, so no copy of it can be hidden behind a tombstone.
    have hset := htInv_set_absent ⟨moduleName.truncate 63, .empty⟩ inv.table hm
    have hrc := (inv.table.sized.set path ⟨moduleName.truncate 63, .empty⟩).2
    have hgrow := portalHtCount_set_absent ⟨moduleName.truncate 63, .empty⟩ inv.table hm
    simp only [isSome_none, Bool.false_eq_true, if_false]
    generalize portalHtSet tree.table path ⟨moduleName.truncate 63, .empty⟩ = r
      at hset hrc hgrow ⊢
    obtain ⟨table, rc⟩ := r
    subst hrc
    refine ⟨rfl, trivial, hset, ?_⟩
    change tree.count + 1 = (portalHtCount table : Int)
    rw [inv.count]
    exact_mod_cast hgrow.symm

theorem portalPathUnregister_spec (inv : TreeInv tree m) (path : CStr) :
    portalPathUnregister tree path = (tree, -1) ∧ m path = none ∨
    (portalPathUnregister tree path).2 = 0 ∧ (m path).isSome ∧
      TreeInv (portalPathUnregister tree path).1 (update m path none) := by
  unfold portalPathUnregister
  rw [inv.table.asMap.get]
  cases hm : m path with
  | none => exact .inl ⟨rfl, rfl⟩
  | some e =>
    right
    have hshrink := portalHtCount_del_present inv.table (by rw [hm]; rfl)
    refine ⟨rfl, rfl, htInv_del inv.table, ?_⟩
    rw [inv.count, ← hshrink]
    simp

def entriesStep (m : CStr → Option PathEntry) : PathOp → CStr → Option PathEntry
  | .register path moduleName =>
    if (m path).isSome then m
    else Function.update m path (some ⟨moduleName.truncate 63, .empty⟩)
  | .unregister path => Function.update m path none
  | .lookup _ => m

theorem treeInv_step (inv : TreeInv tree m) (op : PathOp) :
    TreeInv (pathStep tree op) (entriesStep m op) := by
  cases op with
  | lookup path => exact inv
  | register path moduleName =>
    rw [pathStep, entriesStep]
    rcases portalPathRegister_spec inv path moduleName with ⟨heq, hm⟩ | ⟨-, hm, inv'⟩
    · rw [heq, if_pos hm]
      exact inv
    · rw [if_neg (by simp [hm])]
      exact inv'
  | unregister path =>
    rw [pathStep, entriesStep]
    rcases portalPathUnregister_spec inv path with ⟨heq, hm⟩ | ⟨-, -, inv'⟩
    · rw [heq, ← hm, update_eq_self]
      exact inv
    · exact inv'

/-- The registry is in order: it holds some entries, and each of them once. -/
def TreeOk (tree : PortalPathTree) : Prop := ∃ m, TreeInv tree m

theorem treeOk_init : TreeOk portalPathInit := ⟨_, treeInv_init⟩

theorem TreeOk.register (h : TreeOk tree) (path moduleName : CStr) :
    TreeOk (portalPathRegister tree path moduleName).1 := by
  obtain ⟨m, inv⟩ := h
  exact ⟨_, treeInv_step inv (.register path moduleName)⟩

theorem TreeOk.unregister (h : TreeOk tree) (path : CStr) :
    TreeOk (portalPathUnregister tree path).1 := by
  obtain ⟨m, inv⟩ := h
  exact ⟨_, treeInv_step inv (.unregister path)⟩

theorem TreeInv.storeThrough (inv : TreeInv tree m) (path : CStr) (f : PathEntry → PathEntry) :
    TreeInv (storeThrough tree path f) (update m path ((m path).map f)) := by
  rw [Portal.storeThrough]
  split
  · rename_i slot e hsearch
    obtain ⟨i, v, hslot, heq⟩ := (search_eq_some_iff inv.table.wf).mp hsearch
    cases heq
    have hm : m path = some e := (inv.table.maps path e).mp ⟨slot, hslot⟩
    rw [hm]
    exact ⟨inv.table.overwrite hslot, inv.count⟩
  rename_i hsearch
  have hm : m path = none := by
    rw [search_eq_none_iff inv.table.wf, inv.table.present] at hsearch
    simpa using hsearch
  rw [hm, map_none, ← hm, update_eq_self]
  exact inv

theorem TreeOk.addLabel (h : TreeOk tree) (path label : CStr) :
    TreeOk (portalPathAddLabel tree path label).1 := by
  obtain ⟨m, inv⟩ := h
  rw [portalPathAddLabel]
  split
  · exact ⟨m, inv⟩
  · exact ⟨_, inv.storeThrough path _⟩

theorem TreeInv.lookup (inv : TreeInv tree m) (path : CStr) :
    portalPathLookup tree path = (m path).map PathEntry.moduleName := by
  rw [portalPathLookup, inv.lookupEntry]

theorem lookup_register_ne (h : TreeOk tree) {path path' : CStr} (moduleName : CStr)
    (hne : path' ≠ path) :
    portalPathLookup (portalPathRegister tree path moduleName).1 path' =
      portalPathLookup tree path' := by
  obtain ⟨m, inv⟩ := h
  rcases portalPathRegister_spec inv path moduleName with ⟨heq, -⟩ | ⟨-, -, inv'⟩
  · rw [heq]
  · rw [inv'.lookup, inv.lookup, update_of_ne hne]

/-- After a registration the path is the module's, unless another one has it. -/
theorem lookup_register_self (h : TreeOk tree) {path moduleName : CStr}
    (hlen : moduleName.bytes.length ≤ 63)
    (hfree : portalPathLookup tree path = none ∨ portalPathLookup tree path = some moduleName) :
    portalPathLookup (portalPathRegister tree path moduleName).1 path = some moduleName := by
  obtain ⟨m, inv⟩ := h
  rcases portalPathRegister_spec inv path moduleName with ⟨heq, hsome⟩ | ⟨-, -, inv'⟩
  · rw [heq]
    rcases hfree with hnone | hown
    · rw [inv.lookup, Option.map_eq_none_iff] at hnone
      rw [hnone] at hsome
      cases hsome
    · exact hown
  · rw [inv'.lookup, update_self, CStr.truncate_eq_self hlen]
    rfl

theorem lookup_unregister_ne (h : TreeOk tree) {path path' : CStr} (hne : path' ≠ path) :
    portalPathLookup (portalPathUnregister tree path).1 path' = portalPathLookup tree path' := by
  obtain ⟨m, inv⟩ := h
  rcases portalPathUnregister_spec inv path with ⟨heq, -⟩ | ⟨-, -, inv'⟩
  · rw [heq]
  · rw [inv'.lookup, inv.lookup, update_of_ne hne]

end Registry

def pathEntries (ops : List PathOp) : CStr → Option PathEntry :=
  run entriesStep (fun _ => none) ops

variable (ops : List PathOp)

theorem pathRun_append (op : PathOp) :
    pathRun (ops ++ [op]) = pathStep (pathRun ops) op := run_append _ ops [op]

theorem pathEntries_append (op : PathOp) :
    pathEntries (ops ++ [op]) = entriesStep (pathEntries ops) op := run_append _ ops [op]

theorem treeInv_run : TreeInv (pathRun ops) (pathEntries ops) := by
  induction ops using reverseRecOn with
  | nil => exact treeInv_init
  | append_singleton ops op ih =>
    rw [pathRun_append, pathEntries_append]
    exact treeInv_step ih op

theorem registeredAs_append {ops : List PathOp} {op : PathOp} {path name : CStr} :
    RegisteredAs (ops ++ [op]) path name ↔
      op = .register path name ∧ (portalPathRegister (pathRun ops) path name).2 = 0 ∨
      RegisteredAs ops path name ∧ op ≠ .unregister path := by
  constructor
  · rintro ⟨before, after, heq, hrc, hkept⟩
    rcases append_singleton_eq_split.mp heq with ⟨rfl, rfl, rfl⟩ | ⟨after, rfl, rfl⟩
    · exact .inl ⟨rfl, hrc⟩
    · simp only [mem_append, mem_singleton, not_or] at hkept
      exact .inr ⟨⟨before, after, rfl, hrc, hkept.1⟩, Ne.symm hkept.2⟩
  rintro (⟨rfl, hrc⟩ | ⟨⟨before, after, rfl, hrc, hkept⟩, hop⟩)
  · exact ⟨ops, [], rfl, hrc, by simp⟩
  · refine ⟨before, after ++ [op], by simp, hrc, ?_⟩
    simp only [mem_append, mem_singleton, not_or]
    exact ⟨hkept, Ne.symm hop⟩

/-- The entry of a path names the module of its last registration that succeeded. -/
theorem moduleName_pathEntries_iff (path name : CStr) :
    (pathEntries ops path).map PathEntry.moduleName = some name ↔
      ∃ n, RegisteredAs ops path n ∧ name = n.truncate 63 := by
  induction ops using reverseRecOn generalizing name with
  | nil => simp [pathEntries, RegisteredAs]
  | append_singleton ops op ih =>
    simp only [registeredAs_append, pathEntries_append]
    cases op with
    | lookup p => simpa [entriesStep] using ih name
    | unregister p =>
      by_cases hp : path = p
      · subst hp
        simp [entriesStep]
      · have hp' : p ≠ path := fun h => hp h.symm
        simpa [entriesStep, hp, hp'] using ih name
    | register p n =>
      rw [entriesStep]
      rcases portalPathRegister_spec (treeInv_run ops) p n with ⟨heq, hm⟩ | ⟨hrc, hm, -⟩
      · rw [if_pos hm, ih]
        constructor
        · rintro ⟨n', hreg, rfl⟩
          exact ⟨n', .inr ⟨hreg, by simp⟩, rfl⟩
        rintro ⟨n', ⟨hop, hrc⟩ | ⟨hreg, -⟩, rfl⟩
        · obtain ⟨rfl, rfl⟩ : p = path ∧ n = n' := by simpa using hop
          rw [heq] at hrc
          cases hrc
        · exact ⟨n', hreg, rfl⟩
      · rw [if_neg (by simp [hm])]
        by_cases hp : path = p
        · subst hp
          have hnone : ∀ n', ¬ RegisteredAs ops path n' := by
            intro n' hreg
            have := (ih (n'.truncate 63)).mpr ⟨n', hreg, rfl⟩
            simp [hm] at this
          simp [hrc, hnone, eq_comm]
        · have hp' : p ≠ path := fun h => hp h.symm
          simpa [hp, hp'] using ih name

theorem isSome_pathEntries_iff (path : CStr) :
    (pathEntries ops path).isSome ↔ ∃ n, RegisteredAs ops path n := by
  constructor
  · intro h
    obtain ⟨e, he⟩ := isSome_iff_exists.mp h
    obtain ⟨n, hreg, -⟩ := (moduleName_pathEntries_iff ops path e.moduleName).mp (by simp [he])
    exact ⟨n, hreg⟩
  rintro ⟨n, hreg⟩
  have := (moduleName_pathEntries_iff ops path (n.truncate 63)).mpr ⟨n, hreg, rfl⟩
  cases he : pathEntries ops path with
  | some e => rfl
  | none => simp [he] at this

/-- After every history: a registration succeeds exactly when the path is not registered, an
unregistration when it is, a lookup returns the module of the registration in force, and both
counters are the number of registered paths. -/
theorem portalPathTree_asMap (ops : List PathOp) :
    (∀ path name, (portalPathRegister (pathRun ops) path name).2 = 0 ↔
      ¬ ∃ n, RegisteredAs ops path n) ∧
    (∀ path, (portalPathUnregister (pathRun ops) path).2 = 0 ↔ ∃ n, RegisteredAs ops path n) ∧
    (∀ path name, portalPathLookup (pathRun ops) path = some name ↔
      ∃ n, RegisteredAs ops path n ∧ name = n.truncate 63) ∧
    {path | ∃ n, RegisteredAs ops path n}.Finite ∧
    (pathRun ops).count = {path | ∃ n, RegisteredAs ops path n}.ncard ∧
    (pathRun ops).count = portalHtCount (pathRun ops).table := by
  have inv := treeInv_run ops
  have hset : {path | ∃ n, RegisteredAs ops path n} = {path | (pathEntries ops path).isSome} := by
    ext path
    exact (isSome_pathEntries_iff ops path).symm
  refine ⟨fun path name => ?_, fun path => ?_, fun path name => ?_, ?_, ?_, inv.count⟩
  · rw [← isSome_pathEntries_iff]
    rcases portalPathRegister_spec inv path name with ⟨heq, hm⟩ | ⟨hrc, hm, -⟩
    · simp [heq, hm]
    · simp [hrc, hm]
  · rw [← isSome_pathEntries_iff]
    rcases portalPathUnregister_spec inv path with ⟨heq, hm⟩ | ⟨hrc, hm, -⟩
    · simp [heq, hm]
    · simp [hrc, hm]
  · rw [← moduleName_pathEntries_iff, portalPathLookup, inv.lookupEntry]
  · rw [hset]
    exact inv.table.finite_keys
  · rw [inv.count, inv.table.asMap.count, hset]

/-! ### Access decisions -/

def PortalCtx.userName (c : PortalCtx) : Option CStr := c.auth.user.map CStr.ofBytes

def entryGrants (e : PathEntry) (ctx : Option PortalCtx) : Bool :=
  if ctx.bind PortalCtx.userName = some portalRootUser then true  -- root always has access
  else if e.labels.count = 0 then true                            -- no labels: open access
  else
    match ctx with
    | none => false                                               -- no context
    | some c =>
      if c.auth.user = none then false                          -- no user
      else portalLabelsIntersects e.labels c.auth.labels

def portalPathCheckAccess (tree : PortalPathTree) (path : CStr) (ctx : Option PortalCtx) : Bool :=
  match portalPathLookupEntry tree path with
  | none => false  -- path not found
  | some e => entryGrants e ctx

/-- What the access rules mean: root, an unlabelled entry, or a named user that shares
a label with the entry. -/
def Permits (labels : PortalLabels) (ctx : Option PortalCtx) : Prop :=
  (∃ c, ctx = some c ∧ c.userName = some portalRootUser) ∨
  labels.labels = [] ∨
  ∃ c, ctx = some c ∧ c.auth.user ≠ none ∧ ∃ l ∈ labels.labels, l ∈ c.auth.labels.labels

theorem portalLabelsIntersects_iff (a b : PortalLabels) :
    portalLabelsIntersects a b = true ↔ ∃ l ∈ a.labels, l ∈ b.labels := by
  simp [portalLabelsIntersects]

theorem entryGrants_iff (e : PathEntry) (ctx : Option PortalCtx) :
    entryGrants e ctx = true ↔ Permits e.labels ctx := by
  cases ctx with
  | none =>
    simp [entryGrants, Permits, PortalLabels.count]
  | some c =>
    simp only [entryGrants, Permits, bind_some, PortalLabels.count,
      some.injEq, exists_eq_left', length_eq_zero_iff]
    by_cases hroot : c.userName = some portalRootUser
    · simp [hroot]
    · by_cases hopen : e.labels.labels = []
      · simp [hopen]
      · by_cases huser : c.auth.user = none
        · simp [hroot, hopen, huser]
        · simp [hroot, hopen, huser, portalLabelsIntersects_iff]

theorem portalPathCheckAccess_iff (tree : PortalPathTree) (path : CStr) (ctx : Option PortalCtx) :
    portalPathCheckAccess tree path ctx = true ↔
      ∃ e, portalPathLookupEntry tree path = some e ∧ Permits e.labels ctx := by
  rw [portalPathCheckAccess]
  cases portalPathLookupEntry tree path with
  | none => simp
  | some e => simp [entryGrants_iff]

/-- `portal_labels_allow`: the answer, and whether it is due to the label that sees all. -/
def portalLabelsAllow (ctx : Option PortalCtx) (rowLabels : Option PortalLabels) : Bool × Bool :=
  match ctx with
  | none => (true, false)                                          -- internal call
  | some c =>
    if c.userName = some portalRootUser then (true, false)
    else if portalLabelsHas c.auth.labels (.lit "sys.see_all") then (true, true)
    else
      match rowLabels with
      | none => (true, false)
      | some row =>
        if row.count = 0 then (true, false)                    -- public
        else if c.auth.labels.count = 0 then (false, false)
        else (portalLabelsIntersects c.auth.labels row, false)

/-- A caller sees a row as root, with the label that sees all, if the row is public, or if
they share a label. -/
theorem portalLabelsAllow_iff (c : PortalCtx) (row : PortalLabels) :
    (portalLabelsAllow (some c) (some row)).1 = true ↔
      c.userName = some portalRootUser ∨ CStr.lit "sys.see_all" ∈ c.auth.labels.labels ∨
        row.labels = [] ∨ ∃ l ∈ c.auth.labels.labels, l ∈ row.labels := by
  unfold portalLabelsAllow
  simp only [portalLabelsHas, decide_eq_true_eq, PortalLabels.count, length_eq_zero_iff]
  split
  · rename_i hroot
    simp [hroot]
  rename_i hroot
  split
  · rename_i hall
    simp [hall]
  rename_i hall
  split
  · rename_i hpublic
    simp [hpublic]
  rename_i hpublic
  split
  · rename_i hnone
    simp [hroot, hpublic, hnone]
  · simp [hroot, hall, hpublic, portalLabelsIntersects_iff]

end Portal
