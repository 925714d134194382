import Portal.Core.Path
import Mathlib.Data.List.Find

/-!
The router: `api_send` of `src/core/portal_instance.c`. A message is routed by the exact entry of
its path, the core prefixes, and the wildcard entries of ever shorter ancestors; `apiSend` says
which handler runs and with which message. The event fan-out and the trace hooks come before the
lookup: the registry here is the one the lookup sees.
-/

namespace Portal

open List Option

def portalMaxPathLen : Nat := 1024

structure PortalModuleEntry where
  name : CStr
  loaded : Bool
  unloading : Bool
deriving DecidableEq

/-- A loaded entry of that name if there is one, else any entry of that name. -/
def portalModuleFind (reg : List PortalModuleEntry) (name : CStr) : Option PortalModuleEntry :=
  (reg.find? fun e => e.name = name && e.loaded).or (reg.find? fun e => e.name = name)

/-- What the router reads of `portal_instance_t`. -/
structure PortalInstance where
  paths : PortalPathTree
  modules : List PortalModuleEntry
  portalConfigGet : CStr → CStr → Option CStr

/-- The context is created if missing, and its trace fields are filled in. -/
def populateTrace (nextId now : UInt64) (msg : PortalMsg) : PortalMsg :=
  let c := msg.ctx.getD .zero
  { msg with
    ctx := some { c with
      trace :=
        { traceId := if c.trace.traceId = 0 then nextId else c.trace.traceId
          parentId := c.trace.parentId
          timestampUs := now
          hops := c.trace.hops + 1 } } }

def slash : UInt8 := 47

def ownName (inst : PortalInstance) : Option CStr :=
  (inst.portalConfigGet (.lit "mod_node") (.lit "node_name")).or
    (inst.portalConfigGet (.lit "node") (.lit "node_name"))

/-- `/<own>` followed by `/` or by the end of the path. -/
def selfReference (own path : CStr) : Bool :=
  own.bytes ≠ [] && path.bytes.head? = some slash &&
    decide (own.bytes <+: path.bytes.drop 1) &&
    ((path.bytes.drop (own.bytes.length + 1)).head?.getD slash = slash)

/-- The path the rest of `api_send` works with. -/
def stripOwnName (inst : PortalInstance) (path : Bytes) : Bytes :=
  match ownName inst with
  | none => path
  | some own =>
    if selfReference own (.ofBytes path) then
      let rest := (cText path).drop (own.bytes.length + 1)
      (if rest = [] then [slash] else rest).take (portalMaxPathLen - 1)
    else path

/-! ### Resolution -/

def strrchrSlash (s : Bytes) : Option Nat :=
  (List.range s.length).reverse.find? fun i => s.getD i 0 = slash

/-- The buffer after `"*"` is printed behind the slash at `off`, within its 1024 bytes. -/
def wildcardAt (wild : Bytes) (off : Nat) : CStr :=
  .ofBytes (wild.take (off + 1) ++
    ((CStr.lit "*").truncate (portalMaxPathLen - off - 1 - 1)).bytes)

/-- The shortening loop; the number bounds its iterations. The result is the first
pattern that is registered. -/
def wildcardLoop (tree : PortalPathTree) : Nat → Bytes → Option CStr
  | 0, _ => none
  | fuel + 1, wild =>
    match strrchrSlash wild with
    | none => none
    | some off =>
      if (portalPathLookup tree (wildcardAt wild off)).isSome then some (wildcardAt wild off)
      else wildcardLoop tree fuel (wild.take off)

def wildcardFallback (tree : PortalPathTree) (path : CStr) : Option CStr :=
  let wild := (path.truncate (portalMaxPathLen - 1)).bytes
  match wildcardLoop tree (wild.length + 1) wild with
  | some pattern => some pattern
  | none => if (portalPathLookup tree (.lit "/*")).isSome then some (.lit "/*") else none

def corePrefixes : List CStr :=
  [.lit "/core/", .lit "/auth/", .lit "/events/", .lit "/users/", .lit "/groups/"]

def isCorePath (path : CStr) : Bool := corePrefixes.any fun p => decide (p.bytes <+: path.bytes)

inductive Route where
  | exact
  | corePrefix
  | wildcard (pattern : CStr)
deriving DecidableEq

def resolve (tree : PortalPathTree) (path : CStr) : Option (CStr × Route) :=
  match portalPathLookup tree path with
  | some modName => some (modName, .exact)
  | none =>
    if isCorePath path then some (.lit "core", .corePrefix)
    else
      match wildcardFallback tree path with
      | none => none
      | some pattern => (portalPathLookup tree pattern).map fun m => (m, .wildcard pattern)

/-! ### `api_send` -/

/-- What `api_send` does with the message. -/
inductive Dispatch where
  | crash        -- NULL path
  | notFound
  | forbidden
  | unavailable
  | coreHandle   -- `core_handle_message`
  | handle (modName : CStr)  -- `fn_handle` of the module
deriving DecidableEq

def Dispatch.invokes : Dispatch → Bool
  | .coreHandle => true
  | .handle _ => true
  | _ => false

def invoke (inst : PortalInstance) (modName : CStr) : Dispatch :=
  if modName = .lit "core" then .coreHandle
  else
    match portalModuleFind inst.modules modName with
    | none => .unavailable
    | some entry => if !entry.loaded || entry.unloading then .unavailable else .handle modName

def dispatch (inst : PortalInstance) (path : CStr) (ctx : Option PortalCtx) : Dispatch :=
  match resolve inst.paths path with
  | none => .notFound
  | some (modName, _) =>
    -- the check is skipped when the path has no entry of its own
    if (portalPathLookup inst.paths path).isSome &&
        !portalPathCheckAccess inst.paths path ctx then .forbidden
    else invoke inst modName

def apiSend (inst : PortalInstance) (nextId now : UInt64) (msg : PortalMsg) :
    Dispatch × PortalMsg :=
  let msg := populateTrace nextId now msg
  match msg.path with
  | none => (.crash, msg)
  | some p =>
    let msg := { msg with path := some (stripOwnName inst p) }
    (dispatch inst (.ofBytes (stripOwnName inst p)) msg.ctx, msg)

/-! ### What the shortening loop finds -/

/-- The patterns for the ancestors of the first `n` bytes of `wild`, longest first. -/
def wildcardPatterns (wild : Bytes) (n : Nat) : List CStr :=
  ((List.range n).reverse.filter fun i => wild.getD i 0 = slash).map (wildcardAt wild)

def fallbackPatterns (path : CStr) : List CStr :=
  let wild := (path.truncate (portalMaxPathLen - 1)).bytes
  wildcardPatterns wild wild.length ++ [.lit "/*"]

section Wildcard

variable {wild : Bytes} {n : Nat} (tree : PortalPathTree)

theorem wildcardPatterns_succ :
    wildcardPatterns wild (n + 1) =
      if wild.getD n 0 = slash then wildcardAt wild n :: wildcardPatterns wild n
      else wildcardPatterns wild n := by
  simp only [wildcardPatterns, range_succ, reverse_append, reverse_singleton,
    singleton_append, filter_cons]
  by_cases h : wild.getD n 0 = slash
  · simp only [h, decide_true, if_true, map_cons]
  · simp only [h, decide_false, Bool.false_eq_true, if_false]

theorem getD_take {i : Nat} (hi : i < n) : (wild.take n).getD i 0 = wild.getD i 0 := by
  simp [getElem?_take_of_lt hi]

theorem strrchrSlash_take_succ (hn : n < wild.length) :
    strrchrSlash (wild.take (n + 1)) =
      if wild.getD n 0 = slash then some n else strrchrSlash (wild.take n) := by
  have hlen : (wild.take (n + 1)).length = n + 1 := by simp; omega
  have hlen' : (wild.take n).length = n := by simp; omega
  rw [strrchrSlash, strrchrSlash, hlen, hlen', range_succ, reverse_append]
  simp only [reverse_singleton, singleton_append, find?_cons, getD_take (Nat.lt_succ_self n)]
  by_cases h : wild.getD n 0 = slash
  · simp only [h, decide_true, if_true]
  · simp only [h, decide_false, if_false]
    -- below `n` the two cuts agree
    apply find?_congr
    intro i hi
    have hi : i < n := by simpa using hi
    rw [getD_take (by omega), getD_take hi]

theorem strrchrSlash_lt {s : Bytes} {off : Nat} (h : strrchrSlash s = some off) :
    off < s.length := by
  have := mem_of_find?_eq_some h
  simpa using this

theorem wildcardAt_take {off : Nat} (h : off < n) :
    wildcardAt (wild.take n) off = wildcardAt wild off := by
  rw [wildcardAt, wildcardAt, take_take, Nat.min_eq_left (by omega)]

theorem wildcardLoop_take_succ (fuel : Nat) (hn : n < wild.length) (h : wild.getD n 0 ≠ slash) :
    wildcardLoop tree fuel (wild.take (n + 1)) = wildcardLoop tree fuel (wild.take n) := by
  cases fuel with
  | zero => rfl
  | succ fuel =>
    rw [wildcardLoop, wildcardLoop, strrchrSlash_take_succ hn, if_neg h]
    cases hs : strrchrSlash (wild.take n) with
    | none => rfl
    | some off =>
      have hoff : off < n := by
        have := strrchrSlash_lt hs
        simp at this
        omega
      simp only [wildcardAt_take hoff, wildcardAt_take (Nat.lt_succ_of_lt hoff),
        take_take, min_eq_left (le_of_lt hoff),
        min_eq_left (le_of_lt (Nat.lt_succ_of_lt hoff))]

/-- With more iterations than the path has bytes, the loop returns the first registered pattern. -/
theorem wildcardLoop_eq (fuel : Nat) (hn : n ≤ wild.length) (hfuel : n < fuel) :
    wildcardLoop tree fuel (wild.take n)
      = (wildcardPatterns wild n).find? fun p => (portalPathLookup tree p).isSome := by
  induction n generalizing fuel with
  | zero =>
    cases fuel with
    | zero => omega
    | succ fuel => rfl
  | succ n ih =>
    rw [wildcardPatterns_succ]
    by_cases h : wild.getD n 0 = slash
    · cases fuel with
      | zero => omega
      | succ fuel =>
        rw [wildcardLoop, strrchrSlash_take_succ (by omega), if_pos h, if_pos h]
        simp only [wildcardAt_take (Nat.lt_succ_self n), find?_cons]
        split
        · rename_i hfound
          rw [hfound]
        · rename_i hmiss
          rw [take_take, min_eq_left (Nat.le_succ n), ih fuel (by omega) (by omega)]
          simp only [hmiss]
    · rw [if_neg h, wildcardLoop_take_succ tree fuel (by omega) h]
      exact ih fuel (by omega) (by omega)

theorem wildcardFallback_eq (path : CStr) :
    wildcardFallback tree path
      = (fallbackPatterns path).find? fun p => (portalPathLookup tree p).isSome := by
  simp only [wildcardFallback, fallbackPatterns]
  generalize (path.truncate (portalMaxPathLen - 1)).bytes = wild
  have hloop := wildcardLoop_eq tree (wild.length + 1) (le_refl wild.length) (Nat.lt_succ_self _)
  rw [take_length] at hloop
  rw [hloop, find?_append]
  cases (wildcardPatterns wild wild.length).find? fun p => (portalPathLookup tree p).isSome with
  | some p => rfl
  | none =>
    cases h : (portalPathLookup tree (.lit "/*")).isSome <;> simp [h]

end Wildcard

/-! ### The module selected -/

/-- `WildcardRun tree wild r`: started on the buffer `wild`, the shortening loop ends,
with the pattern `r` if it found one. -/
inductive WildcardRun (tree : PortalPathTree) : Bytes → Option CStr → Prop where
  | noSlash {wild : Bytes} (h : strrchrSlash wild = none) : WildcardRun tree wild none
  | found {wild : Bytes} {off : Nat} (h : strrchrSlash wild = some off)
      (hreg : (portalPathLookup tree (wildcardAt wild off)).isSome) :
      WildcardRun tree wild (some (wildcardAt wild off))
  | shorten {wild : Bytes} {off : Nat} {r : Option CStr} (h : strrchrSlash wild = some off)
      (hreg : ¬ (portalPathLookup tree (wildcardAt wild off)).isSome)
      (next : WildcardRun tree (wild.take off) r) : WildcardRun tree wild r

/-- Every cut makes the buffer shorter, so the loop ends whatever the path. -/
theorem wildcardRun_loop (tree : PortalPathTree) (fuel : Nat) (wild : Bytes)
    (hfuel : wild.length < fuel) : WildcardRun tree wild (wildcardLoop tree fuel wild) := by
  induction fuel generalizing wild with
  | zero => omega
  | succ fuel ih =>
    rw [wildcardLoop]
    cases hs : strrchrSlash wild with
    | none => exact .noSlash hs
    | some off =>
      have hoff := strrchrSlash_lt hs
      by_cases hreg : (portalPathLookup tree (wildcardAt wild off)).isSome
      · simp only [hreg, if_true]
        exact .found hs hreg
      · simp only [hreg]
        apply WildcardRun.shorten hs hreg
        apply ih
        rw [length_take]
        omega

/-- `a` stands before a slash of the path. -/
def IsAncestor (a path : CStr) : Prop := a.bytes ++ [slash] <+: path.bytes

/-- The wildcard pattern of an ancestor; the empty ancestor has `/*`. -/
def wildcardOf (a : CStr) : CStr := a.append (.lit "/*")

def HasWildcard (tree : PortalPathTree) (a : CStr) : Prop :=
  (portalPathLookup tree (wildcardOf a)).isSome

/-- The longest ancestor of the path for which a wildcard entry is registered. -/
def LongestWildcard (tree : PortalPathTree) (path a : CStr) : Prop :=
  IsAncestor a path ∧ HasWildcard tree a ∧
    ∀ b, IsAncestor b path → HasWildcard tree b → b.bytes.length ≤ a.bytes.length

/-- Which module the registry selects for a path, if any. -/
inductive Selects (tree : PortalPathTree) (path : CStr) : Option CStr → Prop where
  | exact {modName : CStr} (h : portalPathLookup tree path = some modName) :
      Selects tree path (some modName)
  | core (h : portalPathLookup tree path = none) (hcore : isCorePath path = true) :
      Selects tree path (some (.lit "core"))
  | wildcard {a modName : CStr} (h : portalPathLookup tree path = none)
      (hcore : isCorePath path = false) (ha : LongestWildcard tree path a)
      (hmod : portalPathLookup tree (wildcardOf a) = some modName) :
      Selects tree path (some modName)
  | notFound (h : portalPathLookup tree path = none) (hcore : isCorePath path = false)
      (hnone : ∀ a, IsAncestor a path → ¬ HasWildcard tree a) : Selects tree path none

def selectedModule (inst : PortalInstance) (msg : PortalMsg) : Option CStr :=
  msg.path.bind fun p => (resolve inst.paths (.ofBytes (stripOwnName inst p))).map Prod.fst

section Resolution

variable {tree : PortalPathTree} {path : CStr}

theorem isAncestor_iff {a : CStr} :
    IsAncestor a path ↔
      ∃ off < path.bytes.length, path.bytes.getD off 0 = slash ∧ a = path.truncate off := by
  constructor
  · rintro ⟨rest, hrest⟩
    refine ⟨a.bytes.length, ?_, ?_, ?_⟩
    · rw [← hrest]
      simp
    · rw [← hrest]
      simp
    · cases a
      simp [CStr.truncate, ← hrest]
  rintro ⟨off, hoff, hslash, rfl⟩
  have hget : path.bytes[off] = slash := by
    rw [getD_eq_getElem _ _ hoff] at hslash
    exact hslash
  refine ⟨path.bytes.drop (off + 1), ?_⟩
  change path.bytes.take off ++ [slash] ++ _ = _
  rw [← hget, take_append_getElem, take_append_drop]

theorem IsAncestor.ext {a b : CStr} (ha : IsAncestor a path) (hb : IsAncestor b path)
    (hlen : a.bytes.length = b.bytes.length) : a = b := by
  have hpre : a.bytes <+: b.bytes :=
    prefix_of_prefix_length_le ((prefix_append _ _).trans ha)
      ((prefix_append _ _).trans hb) (le_of_eq hlen)
  have hbytes := hpre.eq_of_length hlen
  cases a
  cases b
  simpa using hbytes

theorem LongestWildcard.unique {a b : CStr} (ha : LongestWildcard tree path a)
    (hb : LongestWildcard tree path b) : a = b := by
  apply ha.1.ext hb.1
  apply le_antisymm
  · exact hb.2.2 a ha.1 ha.2.1
  · exact ha.2.2 b hb.1 hb.2.1

/-- The star fits behind every slash of a path of at most 1021 bytes. -/
theorem wildcardAt_eq (hlen : path.bytes.length ≤ 1021) {off : Nat}
    (hoff : off < path.bytes.length) (hslash : path.bytes.getD off 0 = slash) :
    wildcardAt path.bytes off = wildcardOf (path.truncate off) := by
  have hget : path.bytes[off] = slash := by
    rw [getD_eq_getElem _ _ hoff] at hslash
    exact hslash
  have hstar : (CStr.lit "*").truncate (portalMaxPathLen - off - 1 - 1) = .lit "*" := by
    apply CStr.truncate_eq_self
    rw [portalMaxPathLen, show (CStr.lit "*").bytes.length = 1 from rfl]
    omega
  have hbytes : path.bytes.take (off + 1) ++ (CStr.lit "*").bytes
      = (wildcardOf (path.truncate off)).bytes := by
    rw [← take_append_getElem hoff, hget, append_assoc]
    rfl
  rw [wildcardAt, hstar, hbytes, CStr.ofBytes_bytes]

/-- The first registered pattern is the one behind the last slash that has one. -/
theorem find?_wildcardPatterns (wild : Bytes) (n : Nat) :
    (∃ off < n, wild.getD off 0 = slash ∧ (portalPathLookup tree (wildcardAt wild off)).isSome ∧
      (∀ i < n, wild.getD i 0 = slash → (portalPathLookup tree (wildcardAt wild i)).isSome →
        i ≤ off) ∧
      ((wildcardPatterns wild n).find? fun p => (portalPathLookup tree p).isSome)
        = some (wildcardAt wild off)) ∨
    (∀ i < n, wild.getD i 0 = slash → ¬ (portalPathLookup tree (wildcardAt wild i)).isSome) ∧
      ((wildcardPatterns wild n).find? fun p => (portalPathLookup tree p).isSome) = none := by
  induction n with
  | zero => exact .inr ⟨by simp, rfl⟩
  | succ n ih =>
    rw [wildcardPatterns_succ]
    by_cases hhere : wild.getD n 0 = slash ∧ (portalPathLookup tree (wildcardAt wild n)).isSome
    · refine .inl ⟨n, Nat.lt_succ_self n, hhere.1, hhere.2, fun i hi _ _ => by omega, ?_⟩
      rw [if_pos hhere.1]
      exact find?_cons_of_pos hhere.2
    · -- nothing registered at `n`: the answer is that of the shorter cut
      have hskip : ((if wild.getD n 0 = slash then wildcardAt wild n :: wildcardPatterns wild n
            else wildcardPatterns wild n).find? fun p => (portalPathLookup tree p).isSome)
          = (wildcardPatterns wild n).find? fun p => (portalPathLookup tree p).isSome := by
        split
        · rename_i hslash
          exact find?_cons_of_neg fun hreg => hhere ⟨hslash, hreg⟩
        · rfl
      rw [hskip]
      rcases ih with ⟨off, hoff, hslash, hreg, hmax, hfind⟩ | ⟨hnone, hfind⟩
      · refine .inl ⟨off, by omega, hslash, hreg, fun i hi hi' hreg' => ?_, hfind⟩
        rcases Nat.lt_succ_iff_lt_or_eq.mp hi with hlt | rfl
        · exact hmax i hlt hi' hreg'
        · exact absurd ⟨hi', hreg'⟩ hhere
      · refine .inr ⟨fun i hi hi' hreg' => ?_, hfind⟩
        rcases Nat.lt_succ_iff_lt_or_eq.mp hi with hlt | rfl
        · exact hnone i hlt hi' hreg'
        · exact hhere ⟨hi', hreg'⟩

/-- The fallback finds the pattern of the longest ancestor that has one. -/
theorem wildcardFallback_spec (tree : PortalPathTree) (hlen : path.bytes.length ≤ 1021)
    (hslash : path.bytes.head? = some slash) :
    (∃ a, LongestWildcard tree path a ∧ wildcardFallback tree path = some (wildcardOf a)) ∨
      (∀ a, IsAncestor a path → ¬ HasWildcard tree a) ∧ wildcardFallback tree path = none := by
  have hcut : (path.truncate (portalMaxPathLen - 1)).bytes = path.bytes := by
    rw [CStr.truncate_eq_self]
    rw [portalMaxPathLen]
    omega
  have hfallback : wildcardFallback tree path
      = ((wildcardPatterns path.bytes path.bytes.length).find? fun p =>
          (portalPathLookup tree p).isSome).or
        (if (portalPathLookup tree (.lit "/*")).isSome then some (.lit "/*") else none) := by
    rw [wildcardFallback_eq, fallbackPatterns, hcut, find?_append]
    cases h : (portalPathLookup tree (.lit "/*")).isSome <;> simp [h]
  rw [hfallback]
  rcases @find?_wildcardPatterns tree path.bytes path.bytes.length with
    ⟨off, hoff, hoffSlash, hreg, hmax, hfind⟩ | ⟨hnone, hfind⟩
  · left
    refine ⟨path.truncate off, ⟨isAncestor_iff.mpr ⟨off, hoff, hoffSlash, rfl⟩, ?_, ?_⟩, ?_⟩
    · rw [wildcardAt_eq hlen hoff hoffSlash] at hreg
      exact hreg
    · intro b hb hbreg
      obtain ⟨i, hi, hiSlash, rfl⟩ := isAncestor_iff.mp hb
      have := hmax i hi hiSlash (by rw [wildcardAt_eq hlen hi hiSlash]; exact hbreg)
      simp only [CStr.truncate, length_take]
      omega
    · rw [hfind, wildcardAt_eq hlen hoff hoffSlash]
      rfl
  · right
    have hall : ∀ a, IsAncestor a path → ¬ HasWildcard tree a := by
      intro a ha hareg
      obtain ⟨i, hi, hiSlash, rfl⟩ := isAncestor_iff.mp ha
      apply hnone i hi hiSlash
      rw [wildcardAt_eq hlen hi hiSlash]
      exact hareg
    refine ⟨hall, ?_⟩
    -- The path starts with a slash, so `/*` was among the patterns already.
    have hroot : ¬ (portalPathLookup tree (.lit "/*")).isSome := by
      apply hall ⟨[], by simp⟩
      cases hb : path.bytes with
      | nil => simp [hb] at hslash
      | cons b rest =>
        obtain rfl : b = slash := by simpa [hb] using hslash
        exact ⟨rest, by simp [hb]⟩
    simp [hfind, hroot]

theorem selects_resolve (tree : PortalPathTree) (hlen : path.bytes.length ≤ 1021)
    (hslash : path.bytes.head? = some slash) :
    Selects tree path ((resolve tree path).map Prod.fst) := by
  rw [resolve]
  cases hexact : portalPathLookup tree path with
  | some modName => exact .exact hexact
  | none =>
    cases hcore : isCorePath path with
    | true => exact .core hexact hcore
    | false =>
      simp only [Bool.false_eq_true, if_false]
      rcases wildcardFallback_spec tree hlen hslash with ⟨a, ha, heq⟩ | ⟨hnone, heq⟩
      · obtain ⟨modName, hmod⟩ := isSome_iff_exists.mp ha.2.1
        simp only [heq, hmod, map_some]
        exact .wildcard hexact hcore ha hmod
      · rw [heq]
        exact .notFound hexact hcore hnone

theorem Selects.unique {sel sel' : Option CStr} (h : Selects tree path sel)
    (h' : Selects tree path sel') : sel = sel' := by
  cases h with
  | exact h | core h hcore => cases h' <;> simp_all
  | wildcard h hcore ha hmod =>
    cases h' with
    | exact h' | core h' hcore' => simp_all
    | wildcard _ _ hb hmod' =>
      obtain rfl := ha.unique hb
      rw [← hmod, hmod']
    | notFound _ _ hnone => exact absurd ha.2.1 (hnone _ ha.1)
  | notFound h hcore hnone =>
    cases h' with
    | exact h' | core h' hcore' => simp_all
    | wildcard _ _ hb _ => exact absurd hb.2.1 (hnone _ hb.1)
    | notFound => rfl

/-- Nothing selected is NOT_FOUND, and a selected module is called unless the access check or its
absence prevents it. -/
theorem apiSend_selected (inst : PortalInstance) (nextId now : UInt64) {msg : PortalMsg}
    {p : Bytes} (hp : msg.path = some p) :
    (selectedModule inst msg = none ↔ (apiSend inst nextId now msg).1 = .notFound) ∧
    ∀ modName, selectedModule inst msg = some modName →
      (apiSend inst nextId now msg).1 = .forbidden ∨
      (apiSend inst nextId now msg).1 = invoke inst modName := by
  have hpath : (populateTrace nextId now msg).path = some p := hp
  simp only [apiSend, hpath, selectedModule, hp, bind_some, dispatch]
  generalize CStr.ofBytes (stripOwnName inst p) = path
  cases hres : resolve inst.paths path with
  | none => simp
  | some r =>
    obtain ⟨modName, route⟩ := r
    have hinvoke : invoke inst modName ≠ .notFound := by
      unfold invoke
      split
      · simp
      · split
        · simp
        · split <;> simp
    simp only [map_some, reduceCtorEq, false_iff, some.injEq, forall_eq']
    split
    · exact ⟨by simp, .inl rfl⟩
    · exact ⟨hinvoke, .inr rfl⟩

end Resolution

/-- For every path of at most 1021 bytes that starts with a slash and is not a self-reference, the
module selected is the one `Selects` says, and an unselected path is NOT_FOUND; the shortening loop
ends on every path. -/
theorem apiSend_resolution (inst : PortalInstance) (nextId now : UInt64) (msg : PortalMsg)
    (path : CStr) (hpath : msg.path = some path.bytes) (hlen : path.bytes.length ≤ 1021)
    (hslash : path.bytes.head? = some slash)
    (hown : ∀ own, ownName inst = some own → selfReference own path = false) :
    (∀ sel, Selects inst.paths path sel ↔ selectedModule inst msg = sel) ∧
    (Selects inst.paths path none ↔ (apiSend inst nextId now msg).1 = .notFound) ∧
    (∀ modName, Selects inst.paths path (some modName) →
      (apiSend inst nextId now msg).1 = .forbidden ∨
      (apiSend inst nextId now msg).1 = invoke inst modName) ∧
    ∀ wild : Bytes, ∃ r, WildcardRun inst.paths wild r := by
  have hstrip : stripOwnName inst path.bytes = path.bytes := by
    unfold stripOwnName
    cases ho : ownName inst with
    | none => rfl
    | some own =>
      simp [CStr.ofBytes_bytes, hown own ho]
  have hsel : ∀ sel, Selects inst.paths path sel ↔ selectedModule inst msg = sel := by
    have hself : Selects inst.paths path (selectedModule inst msg) := by
      rw [selectedModule, hpath, bind_some, hstrip, CStr.ofBytes_bytes]
      exact selects_resolve inst.paths hlen hslash
    intro sel
    constructor
    · exact fun h => hself.unique h
    · rintro rfl
      exact hself
  obtain ⟨hnone, hsome⟩ := apiSend_selected inst nextId now hpath
  refine ⟨hsel, ?_, ?_, fun wild => ⟨_, wildcardRun_loop _ _ wild (Nat.lt_succ_self _)⟩⟩
  · rw [hsel, hnone]
  · intro modName h
    exact hsome modName ((hsel _).mp h)

/-! ### Access control -/

/-- The key of the registry entry that selected the module; a core prefix selects
without an entry. -/
def selectedKey (tree : PortalPathTree) (path : CStr) : Option CStr :=
  match resolve tree path with
  | some (_, .exact) => some path
  | some (_, .wildcard pattern) => some pattern
  | _ => none

/-- If a handler is called and an entry selected it, the access check on that entry
grants access to the caller. -/
def AccessChecked (inst : PortalInstance) (nextId now : UInt64) (msg : PortalMsg) : Prop :=
  (apiSend inst nextId now msg).1.invokes = true →
    ∀ p, (apiSend inst nextId now msg).2.path = some p →
      ∀ key, selectedKey inst.paths (.ofBytes p) = some key →
        portalPathCheckAccess inst.paths key (apiSend inst nextId now msg).2.ctx = true

/-- The module can be called: it is the core, or loaded and not about to go. -/
def Callable (inst : PortalInstance) (modName : CStr) : Prop :=
  modName = .lit "core" ∨
    ∃ e, portalModuleFind inst.modules modName = some e ∧ e.loaded = true ∧ e.unloading = false

/-- The path has its own entry, or is a core path, or the entry of its first registered pattern has
a module that cannot be called or permits the caller. -/
def NoForbiddenWildcard (inst : PortalInstance) (msg : PortalMsg) : Prop :=
  ∀ p, msg.path = some p →
    (portalPathLookup inst.paths (.ofBytes (stripOwnName inst p))).isSome ∨
    isCorePath (.ofBytes (stripOwnName inst p)) ∨
    ∀ key, ((fallbackPatterns (.ofBytes (stripOwnName inst p))).find? fun q =>
        (portalPathLookup inst.paths q).isSome) = some key →
      ∀ e, portalPathLookupEntry inst.paths key = some e →
        Callable inst e.moduleName → Permits e.labels msg.ctx

theorem invokes_invoke_iff (inst : PortalInstance) (modName : CStr) :
    (invoke inst modName).invokes = true ↔ Callable inst modName := by
  rw [invoke, Callable]
  by_cases hcore : modName = .lit "core"
  · simp [hcore, Dispatch.invokes]
  · cases hfind : portalModuleFind inst.modules modName with
    | none => simp [hcore, Dispatch.invokes]
    | some e =>
      cases hl : e.loaded <;> cases hu : e.unloading <;>
        simp [hcore, hl, hu, Dispatch.invokes]

theorem permits_populateTrace (labels : PortalLabels) (nextId now : UInt64) (msg : PortalMsg) :
    Permits labels (populateTrace nextId now msg).ctx ↔ Permits labels msg.ctx := by
  cases h : msg.ctx with
  | none => simp [Permits, populateTrace, h, PortalCtx.userName, PortalCtx.zero]
  | some c => simp [Permits, populateTrace, h, PortalCtx.userName]

section Routes

variable {inst : PortalInstance} {path : CStr} {ctx : Option PortalCtx}

/-- Through an exact entry the check made is the check asked for. -/
theorem checkAccess_of_dispatch_exact {modName : CStr}
    (hlookup : portalPathLookup inst.paths path = some modName)
    (hinvokes : (dispatch inst path ctx).invokes = true) :
    selectedKey inst.paths path = some path ∧ portalPathCheckAccess inst.paths path ctx = true := by
  have hresolve : resolve inst.paths path = some (modName, .exact) := by
    simp only [resolve, hlookup]
  refine ⟨by rw [selectedKey, hresolve], ?_⟩
  by_contra hdenied
  have hforbidden : dispatch inst path ctx = .forbidden := by
    simp [dispatch, hresolve, hlookup, Bool.eq_false_of_not_eq_true hdenied]
  rw [hforbidden] at hinvokes
  cases hinvokes

theorem selectedKey_core (hlookup : portalPathLookup inst.paths path = none)
    (hcore : isCorePath path = true) : selectedKey inst.paths path = none := by
  simp [selectedKey, resolve, hlookup, hcore]

/-- A path that is neither registered nor a core path goes to the first registered
pattern, whatever the caller. -/
theorem dispatch_wildcard (ctx : Option PortalCtx)
    (hlookup : portalPathLookup inst.paths path = none)
    (hcore : isCorePath path = false) {key : CStr} {e : PathEntry}
    (hkey : wildcardFallback inst.paths path = some key)
    (he : portalPathLookupEntry inst.paths key = some e) :
    selectedKey inst.paths path = some key ∧ dispatch inst path ctx = invoke inst e.moduleName := by
  have hmod : portalPathLookup inst.paths key = some e.moduleName := by
    rw [portalPathLookup, he, map_some]
  have hresolve : resolve inst.paths path = some (e.moduleName, .wildcard key) := by
    simp [resolve, hlookup, hcore, hkey, hmod]
  exact ⟨by rw [selectedKey, hresolve], by simp [dispatch, hresolve, hlookup]⟩

theorem dispatch_notFound (hlookup : portalPathLookup inst.paths path = none)
    (hcore : isCorePath path = false) (hkey : wildcardFallback inst.paths path = none) :
    dispatch inst path ctx = .notFound := by
  simp [dispatch, resolve, hlookup, hcore, hkey]

theorem exists_entry_of_wildcardFallback {key : CStr}
    (hkey : wildcardFallback inst.paths path = some key) :
    ∃ e, portalPathLookupEntry inst.paths key = some e := by
  rw [wildcardFallback_eq] at hkey
  have hreg := find?_some hkey
  simpa [portalPathLookup, isSome_iff_exists] using hreg

end Routes

/-- The handler runs under a granted check of the entry that selected it exactly when no forbidden
wildcard entry decides: the only check is on an entry of the path itself. -/
theorem apiSend_accessChecked_iff (inst : PortalInstance) (nextId now : UInt64)
    (msg : PortalMsg) :
    AccessChecked inst nextId now msg ↔ NoForbiddenWildcard inst msg := by
  cases hp : msg.path with
  | none =>
    have hcrash : (apiSend inst nextId now msg).1 = .crash := by
      have hpath : (populateTrace nextId now msg).path = none := hp
      simp only [apiSend, hpath]
    simp [AccessChecked, NoForbiddenWildcard, hcrash, hp, Dispatch.invokes]
  | some p =>
    have hsend : apiSend inst nextId now msg =
        (dispatch inst (.ofBytes (stripOwnName inst p)) (populateTrace nextId now msg).ctx,
          { populateTrace nextId now msg with path := some (stripOwnName inst p) }) := by
      have hpath : (populateTrace nextId now msg).path = some p := hp
      simp only [apiSend, hpath]
    simp only [AccessChecked, NoForbiddenWildcard, hsend, hp, some.injEq, forall_eq',
      ← wildcardFallback_eq]
    generalize CStr.ofBytes (stripOwnName inst p) = path
    cases hlookup : portalPathLookup inst.paths path with
    | some modName =>
      simp only [isSome_some, true_or, iff_true]
      intro hinvokes key hkey
      obtain ⟨hself, hgranted⟩ := checkAccess_of_dispatch_exact hlookup hinvokes
      obtain rfl : path = key := some.inj (hself.symm.trans hkey)
      exact hgranted
    | none =>
      cases hcore : isCorePath path with
      | true =>
        simp [selectedKey_core hlookup hcore]
      | false =>
        cases hfall : wildcardFallback inst.paths path with
        | none => simp [dispatch_notFound hlookup hcore hfall, Dispatch.invokes]
        | some key =>
          obtain ⟨e, he⟩ := exists_entry_of_wildcardFallback hfall
          obtain ⟨hself, hcall⟩ := dispatch_wildcard
            (populateTrace nextId now msg).ctx hlookup hcore hfall he
          simp [hself, hcall, invokes_invoke_iff, he, portalPathCheckAccess_iff,
            permits_populateTrace]

theorem invoke_ne_forbidden (inst : PortalInstance) (modName : CStr) :
    invoke inst modName ≠ .forbidden := by
  unfold invoke
  split
  · nofun
  · split
    · nofun
    · split <;> nofun

/-- Two contexts are treated alike exactly when an entry of the path itself permits both or
neither. -/
theorem dispatch_eq_iff (inst : PortalInstance) (path : CStr) (ctx ctx' : Option PortalCtx) :
    dispatch inst path ctx = dispatch inst path ctx' ↔
      ∀ e, portalPathLookupEntry inst.paths path = some e →
        (Permits e.labels ctx ↔ Permits e.labels ctx') := by
  cases he : portalPathLookupEntry inst.paths path with
  | none =>
    have hlookup : portalPathLookup inst.paths path = none := by rw [portalPathLookup, he]; rfl
    simp [dispatch, hlookup]
  | some e =>
    have hlookup : portalPathLookup inst.paths path = some e.moduleName := by
      rw [portalPathLookup, he]
      rfl
    have hcheck : ∀ c, portalPathCheckAccess inst.paths path c = true ↔ Permits e.labels c := by
      intro c
      simp [portalPathCheckAccess_iff, he]
    have hdispatch : ∀ c, dispatch inst path c =
        if portalPathCheckAccess inst.paths path c then invoke inst e.moduleName
        else .forbidden := by
      intro c
      cases h : portalPathCheckAccess inst.paths path c <;>
        simp [dispatch, resolve, hlookup, h]
    simp only [some.injEq, forall_eq', hdispatch, ← hcheck]
    have hne := invoke_ne_forbidden inst e.moduleName
    cases portalPathCheckAccess inst.paths path ctx <;>
      cases portalPathCheckAccess inst.paths path ctx' <;> simp [hne, hne.symm]

theorem apiSend_withCtx_eq_iff (inst : PortalInstance) (nextId now : UInt64) {msg : PortalMsg}
    {p : Bytes} (hp : msg.path = some p) (ctx : Option PortalCtx) :
    (apiSend inst nextId now msg).1 = (apiSend inst nextId now { msg with ctx := ctx }).1 ↔
      ∀ e, portalPathLookupEntry inst.paths (.ofBytes (stripOwnName inst p)) = some e →
        (Permits e.labels msg.ctx ↔ Permits e.labels ctx) := by
  have hsend : ∀ m : PortalMsg, m.path = some p → (apiSend inst nextId now m).1 =
      dispatch inst (.ofBytes (stripOwnName inst p)) (populateTrace nextId now m).ctx := by
    intro m hm
    have hpath : (populateTrace nextId now m).path = some p := hm
    simp only [apiSend, hpath]
  rw [hsend msg hp, hsend { msg with ctx := ctx } hp, dispatch_eq_iff]
  simp only [permits_populateTrace]

/-- A registry whose only entry is the wildcard `/a/*` of module `m`, labelled `staff`. -/
def staffInstance : PortalInstance where
  paths := (portalPathAddLabel
    (portalPathRegister portalPathInit (.lit "/a/*") (.lit "m")).1 (.lit "/a/*") (.lit "staff")).1
  modules := [⟨.lit "m", true, false⟩]
  portalConfigGet _ _ := none

def anonymousMsg : PortalMsg := { PortalMsg.zero with path := some (CStr.lit "/a/x").bytes }

/-- `/a/x` is served by the wildcard entry `/a/*` of its ancestor `/a`. -/
theorem apiSend_resolution_staff :
    Selects staffInstance.paths (.lit "/a/x") (some (.lit "m")) ∧
      (apiSend staffInstance 1 1 anonymousMsg).1 ≠ .notFound := by
  obtain ⟨hsel, hnone, -, -⟩ := apiSend_resolution staffInstance 1 1 anonymousMsg (.lit "/a/x") rfl
    (by decide) (by decide) (by simp [ownName, staffInstance])
  constructor
  · apply (hsel _).mpr
    decide +kernel
  · rw [Ne, ← hnone, hsel]
    decide +kernel

/-- The anonymous caller is handed to module `m`, although the entry that selected `m`
asks for the label `staff`. -/
theorem apiSend_accessChecked_false :
    (apiSend staffInstance 1 1 anonymousMsg).1 = .handle (.lit "m") ∧
      ¬ AccessChecked staffInstance 1 1 anonymousMsg := by
  constructor
  · decide +kernel
  intro h
  have hdenied := h (by decide +kernel) (CStr.lit "/a/x").bytes (by decide +kernel)
    (.lit "/a/*") (by decide +kernel)
  revert hdenied
  decide +kernel

end Portal
