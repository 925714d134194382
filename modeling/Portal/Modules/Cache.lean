import Portal.Core.CString
import Portal.Lib.Runs
import Portal.Lib.Slots

/-!
The key-value cache of `mod_cache`. An entry whose time is over stays in its slot until somebody
looks for its key or cleans up: `cache_find` releases it on the way, so every search may change the
table and the counter.

What the cache is for is a map from keys to values with a last second each. `Keeps` says which map
the table holds, `Tracks` that it differs from the map of the accepted values only in entries whose
time is over.
-/

namespace Portal

open List Runs Slots Option Function

/-! ### The module -/

def cacheDefaultMax : Int := 10000

/-- `cache_entry_t`; an entry with `expires` 0 is there for ever. -/
structure CacheEntry where
  key : Option CStr
  value : Option CStr
  expires : Int
  active : Bool
deriving DecidableEq

/-- The array, whose length is `g_max`, and the counters. -/
structure Cache where
  entries : List CacheEntry
  count : Int
  hits : Int
  misses : Int
  sets : Int
deriving DecidableEq

/-- What `portal_module_load` sets up, from the configured `max_entries`. -/
def cacheLoad (maxEntries : Option CStr) : Cache :=
  let configured := maxEntries.elim cacheDefaultMax fun v => atoi v.bytes
  let max := if configured < 1 then cacheDefaultMax else configured
  ⟨List.replicate max.toNat ⟨none, none, 0, false⟩, 0, 0, 0, 0⟩

def cacheExpired (now expires : Int) : Bool := 0 < expires && expires < now

/-- The slot of the key. An entry whose time is over is released, its strings with it. -/
def cacheFind (c : Cache) (now : Int) (key : CStr) : Cache × Option Nat :=
  match c.entries.findIdx? fun e => e.active && e.key = some key with
  | none => (c, none)
  | some i =>
    if c.entries[i]?.any fun e => cacheExpired now e.expires then
      ({ c with
        entries := c.entries.modify i fun e => { e with active := false }
        count := c.count - 1 }, none)
    else (c, some i)

def cacheExpires (now ttl : Int) : Int := if 0 < ttl then now + ttl else 0

/-- The clock is read twice: `now` when the key is looked up, `later` when it is written. -/
def cacheSet (c : Cache) (now later : Int) (key value : CStr) (ttl : Int) : Cache × Int :=
  match cacheFind c now key with
  | (c, some i) =>
    ({ c with
      entries := c.entries.modify i fun e =>
        { e with value := some value, expires := cacheExpires later ttl }
      sets := c.sets + 1 }, 0)
  | (c, none) =>
    if (c.entries.length : Int) ≤ c.count then (c, -1)
    else
      match c.entries.findIdx? fun e => !e.active with
      | some i =>
        ({ c with
          entries := c.entries.set i ⟨some key, some value, cacheExpires later ttl, true⟩
          count := c.count + 1
          sets := c.sets + 1 }, 0)
      | none => (c, -1)

def cacheGet (c : Cache) (now : Int) (key : CStr) : Cache × Option CStr :=
  match cacheFind c now key with
  | (c, some i) => ({ c with hits := c.hits + 1 }, c.entries[i]?.bind (·.value))
  | (c, none) => ({ c with misses := c.misses + 1 }, none)

def cacheDel (c : Cache) (now : Int) (key : CStr) : Cache × Int :=
  match cacheFind c now key with
  | (c, some i) =>
    ({ c with
      entries := c.entries.modify i fun e =>
        { e with key := none, value := none, active := false }
      count := c.count - 1 }, 0)
  | (c, none) => (c, -1)

def cacheFlush (c : Cache) : Cache :=
  { c with
    entries := c.entries.map fun e => if e.active then { e with active := false } else e
    count := 0 }

def cacheCleanup (c : Cache) (now : Int) : Cache × Int :=
  let due (e : CacheEntry) : Bool := e.active && cacheExpired now e.expires
  ({ c with
    entries := c.entries.map fun e => if due e then { e with active := false } else e
    count := c.count - c.entries.countP due }, c.entries.countP due)

inductive CacheOp where
  | set (now later : Int) (key value : CStr) (ttl : Int)
  | get (now : Int) (key : CStr)
  | del (now : Int) (key : CStr)
  | flush
  | cleanup (now : Int)
deriving DecidableEq

def cacheStep (c : Cache) : CacheOp → Cache
  | .set now later key value ttl => (cacheSet c now later key value ttl).1
  | .get now key => (cacheGet c now key).1
  | .del now key => (cacheDel c now key).1
  | .flush => cacheFlush c
  | .cleanup now => (cacheCleanup c now).1

def CacheOp.readings : CacheOp → List Int
  | .set now later _ _ _ => [now, later]
  | .get now _ => [now]
  | .del now _ => [now]
  | .flush => []
  | .cleanup now => [now]

/-! ### The map that the table holds -/

abbrev TtlMap := CStr → Option (CStr × Int)

def ttlLive (now : Int) (entry : Option (CStr × Int)) : Option (CStr × Int) :=
  entry.filter fun e => !cacheExpired now e.2

def CacheEntry.view (e : CacheEntry) : Option (CStr × CStr × Int) :=
  if e.active then e.key.bind fun k => e.value.map fun v => (k, v, e.expires) else none

open CacheEntry (view)

/-- Every active entry has a key and a value, no two have one key, the entries are those of
the map, and the counter is their number. -/
structure Cache.Keeps (c : Cache) (held : TtlMap) : Prop where
  filled : ∀ e ∈ c.entries, e.active = true → ∃ k v, e = ⟨some k, some v, e.expires, true⟩
  represents : Represents (contents CacheEntry.view c.entries) held
  count : c.count = c.entries.countP CacheEntry.active

section Operations

variable {c : Cache} {held : TtlMap} {now t : Int} {key : CStr}

theorem ttlLive_ttlLive {a : Option (CStr × Int)} (h : t ≤ now) :
    ttlLive now (ttlLive t a) = ttlLive now a := by
  cases a with
  | none => rfl
  | some e =>
    simp only [ttlLive, filter_some, cacheExpired]
    by_cases hlive : (!(decide (0 < e.2) && decide (e.2 < t))) = true
    · rw [if_pos hlive, filter_some]
    · rw [if_neg hlive, if_neg]
      · rfl
      · simp only [Bool.not_eq_true', Bool.and_eq_false_iff, decide_eq_false_iff_not] at hlive ⊢
        omega

theorem ttlLive_congr {a b : Option (CStr × Int)} (h : t ≤ now) (hab : ttlLive t a = ttlLive t b) :
    ttlLive now a = ttlLive now b := by
  rw [← ttlLive_ttlLive h, hab, ttlLive_ttlLive h]

theorem ttlLive_forget (h : ttlLive now (held key) = none) (k : CStr) :
    ttlLive now (update held key none k) = ttlLive now (held k) := by
  by_cases hk : k = key
  · subst hk
    rw [update_self, h]
    rfl
  · rw [update_of_ne hk]

section

variable (h : c.Keeps held)

include h

open CacheEntry

theorem Cache.Keeps.entry {i : Nat}
    (hi : c.entries.findIdx? (fun e => e.active && e.key = some key) = some i) :
    ∃ v x, c.entries[i]? = some ⟨some key, some v, x, true⟩ := by
  obtain ⟨hlt, htest, -⟩ := findIdx?_eq_some_iff_getElem.mp hi
  rw [Bool.and_eq_true, decide_eq_true_eq] at htest
  obtain ⟨k, v, he⟩ := h.filled _ (getElem_mem hlt) htest.1
  have hk : k = key := some.inj ((congrArg CacheEntry.key he).symm.trans htest.2)
  refine ⟨v, c.entries[i].expires, ?_⟩
  rw [getElem?_eq_getElem hlt, he, hk]

theorem Cache.Keeps.absent
    (hnone : c.entries.findIdx? (fun e => e.active && e.key = some key) = none) :
    held key = none := by
  refine h.represents.eq_none ?_
  intro i v hi
  obtain ⟨e, he, hview⟩ := bind_eq_some_iff.mp hi
  have htest := findIdx?_eq_none_iff.mp hnone e (mem_of_getElem? he)
  unfold view at hview
  split at hview
  · rename_i hactive
    obtain ⟨k, hk, hrest⟩ := bind_eq_some_iff.mp hview
    obtain ⟨w, -, heq⟩ := map_eq_some_iff.mp hrest
    obtain rfl := (Prod.mk.inj heq).1
    simp [hactive, hk] at htest
  · cases hview

theorem Cache.Keeps.held_eq {i : Nat} {v : CStr} {x : Int}
    (hi : c.entries[i]? = some ⟨some key, some v, x, true⟩) : held key = some (v, x) := by
  refine h.represents.mem.mpr ⟨i, ?_⟩
  rw [contents, hi]
  rfl

theorem Cache.Keeps.release {i : Nat} {v : CStr} {x : Int}
    (hi : c.entries[i]? = some ⟨some key, some v, x, true⟩) {f : CacheEntry → CacheEntry}
    (hf : ∀ e, (f e).active = false) :
    Cache.Keeps { c with entries := c.entries.modify i f, count := c.count - 1 }
      (update held key none) where
  filled := by
    intro e he hactive
    obtain ⟨j, hj⟩ := getElem?_of_mem he
    rw [getElem?_modify] at hj
    obtain ⟨e', he', heq⟩ := map_eq_some_iff.mp hj
    by_cases hji : i = j
    · rw [if_pos hji] at heq
      rw [← heq, hf] at hactive
      cases hactive
    · rw [if_neg hji] at heq
      exact heq ▸ h.filled e' (mem_of_getElem? he') (heq ▸ hactive)
  represents := by
    have hview : ∀ e, (f e).view = none := by
      intro e
      rw [view, hf]
      rfl
    rw [contents_modify_none view hview]
    refine h.represents.erase (v := (v, x)) ?_
    rw [contents, hi]
    rfl
  count := by
    have hcount := countP_modify_off (p := active) hf hi rfl
    change c.count - 1 = ((c.entries.modify i f).countP active : Int)
    rw [h.count, ← hcount]
    omega

/-- Looking for a key finds its entry, or leaves a table without it. -/
theorem Cache.Keeps.find (now : Int) (key : CStr) :
    (∃ i v x, cacheFind c now key = (c, some i) ∧
        c.entries[i]? = some ⟨some key, some v, x, true⟩ ∧ ttlLive now (held key) = some (v, x)) ∨
      ∃ c', cacheFind c now key = (c', none) ∧ c'.Keeps (update held key none) ∧
        ttlLive now (held key) = none := by
  unfold cacheFind
  cases hi : c.entries.findIdx? fun e => e.active && e.key = some key with
  | none =>
    have habsent := h.absent hi
    refine .inr ⟨c, rfl, ?_, ?_⟩
    · rw [← habsent, update_eq_self]
      exact h
    · rw [habsent]
      rfl
  | some i =>
    obtain ⟨v, x, hentry⟩ := h.entry hi
    simp only [hentry, Option.any_some]
    by_cases hexpired : cacheExpired now x = true
    · refine .inr ⟨_, if_pos hexpired, h.release hentry fun _ => rfl, ?_⟩
      rw [h.held_eq hentry, ttlLive, filter_some, hexpired]
      rfl
    · refine .inl ⟨i, v, x, if_neg hexpired, hentry, ?_⟩
      rw [h.held_eq hentry, ttlLive, filter_some, if_pos]
      rw [Bool.eq_false_iff.mpr hexpired]
      rfl

theorem Cache.Keeps.overwrite {i : Nat} {v : CStr} {x : Int}
    (hi : c.entries[i]? = some ⟨some key, some v, x, true⟩) (value : CStr) (expires sets : Int) :
    Cache.Keeps
      { c with
        entries := c.entries.modify i fun e => { e with value := some value, expires := expires }
        sets := sets }
      (update held key (some (value, expires))) := by
  obtain ⟨hlt, -⟩ := List.getElem?_eq_some_iff.mp hi
  rw [modify_eq_set hi]
  constructor
  · intro e he hactive
    rcases mem_or_eq_of_mem_set he with he | rfl
    · exact h.filled e he hactive
    · exact ⟨key, value, rfl⟩
  · have hslot : contents view c.entries i = some (key, v, x) := by
      rw [contents, hi]
      rfl
    have hrep := h.represents.replace hslot (.inl rfl) (value, expires)
    rw [update_idem] at hrep
    rw [contents_set view hlt]
    exact hrep
  · rw [countP_set_same hi rfl rfl]
    exact h.count

theorem Cache.Keeps.take {i : Nat}
    (hi : c.entries.findIdx? (fun e => !e.active) = some i) (hkey : held key = none) (value : CStr)
    (expires sets : Int) :
    Cache.Keeps
      { c with
        entries := c.entries.set i ⟨some key, some value, expires, true⟩
        count := c.count + 1
        sets := sets }
      (update held key (some (value, expires))) := by
  obtain ⟨hlt, hidle, -⟩ := findIdx?_eq_some_iff_getElem.mp hi
  have hidle : c.entries[i].active = false := by simpa using hidle
  have hslot : c.entries[i]? = some c.entries[i] := getElem?_eq_getElem hlt
  constructor
  · intro e he hactive
    rcases mem_or_eq_of_mem_set he with he | rfl
    · exact h.filled e he hactive
    · exact ⟨key, value, rfl⟩
  · rw [contents_set view hlt]
    refine h.represents.insert ?_ hkey (value, expires)
    rw [contents, hslot, bind_some, view, hidle]
    rfl
  · rw [countP_set_on hslot hidle rfl, h.count]
    rfl

/-- A set is accepted and the key has the value, or it is refused and the key was not there. -/
theorem Cache.Keeps.set (now later : Int) (key value : CStr) (ttl : Int) :
    ((cacheSet c now later key value ttl).2 = 0 ∧
        (cacheSet c now later key value ttl).1.Keeps
          (update held key (some (value, cacheExpires later ttl)))) ∨
      ((cacheSet c now later key value ttl).2 = -1 ∧
        (cacheSet c now later key value ttl).1.Keeps (update held key none) ∧
        ttlLive now (held key) = none) := by
  unfold cacheSet
  rcases h.find now key with ⟨i, v, x, hfind, hentry, -⟩ | ⟨c', hfind, hkeeps, hgone⟩
  · simp only [hfind]
    exact .inl ⟨trivial, h.overwrite hentry value _ _⟩
  · simp only [hfind]
    by_cases hfull : (c'.entries.length : Int) ≤ c'.count
    · simp only [if_pos hfull]
      exact .inr ⟨trivial, hkeeps, hgone⟩
    · simp only [if_neg hfull]
      cases hi : c'.entries.findIdx? fun e => !e.active with
      | none => exact .inr ⟨rfl, hkeeps, hgone⟩
      | some i =>
        have hput := hkeeps.take hi (update_self ..) value (cacheExpires later ttl)
          (c'.sets + 1)
        rw [update_idem] at hput
        exact .inl ⟨rfl, hput⟩

theorem Cache.Keeps.get (now : Int) (key : CStr) :
    (cacheGet c now key).2 = (ttlLive now (held key)).map Prod.fst ∧
      ∃ held', (cacheGet c now key).1.Keeps held' ∧
        ∀ k, ttlLive now (held' k) = ttlLive now (held k) := by
  unfold cacheGet
  rcases h.find now key with ⟨i, v, x, hfind, hentry, hlive⟩ | ⟨c', hfind, hkeeps, hgone⟩
  · simp only [hfind, hentry, hlive]
    exact ⟨rfl, held, ⟨h.filled, h.represents, h.count⟩, fun _ => rfl⟩
  · simp only [hfind, hgone]
    exact ⟨rfl, _, ⟨hkeeps.filled, hkeeps.represents, hkeeps.count⟩, ttlLive_forget hgone⟩

theorem Cache.Keeps.del (now : Int) (key : CStr) :
    (cacheDel c now key).1.Keeps (update held key none) := by
  unfold cacheDel
  rcases h.find now key with ⟨i, v, x, hfind, hentry, -⟩ | ⟨c', hfind, hkeeps, -⟩
  · simp only [hfind]
    exact h.release hentry fun _ => rfl
  · simp only [hfind]
    exact hkeeps

theorem Cache.Keeps.releaseAll (past : Int → Bool) :
    let due (e : CacheEntry) : Bool := e.active && past e.expires
    Cache.Keeps
      { c with
        entries := c.entries.map fun e => if due e then { e with active := false } else e
        count := c.count - c.entries.countP due }
      (fun k => (held k).filter fun e => !past e.2) := by
  intro due
  constructor
  · intro e he hactive
    obtain ⟨e', he', rfl⟩ := mem_map.mp he
    by_cases hdue : due e' = true
    · rw [if_pos hdue] at hactive
      cases hactive
    · rw [if_neg hdue] at hactive ⊢
      exact h.filled e' he' hactive
  · have hcontents : contents view
        (c.entries.map fun e => if due e then { e with active := false } else e) =
        fun i => (contents view c.entries i).filter fun e => !past e.2.2 := by
      funext i
      rw [contents_map, contents]
      cases hi : c.entries[i]? with
      | none => rfl
      | some e =>
        rw [bind_some, bind_some]
        cases hactive : e.active with
        | false => simp [view, due, hactive]
        | true =>
          obtain ⟨k, v, he⟩ := h.filled e (mem_of_getElem? hi) hactive
          rw [he]
          cases hpast : past e.expires <;>
            simp [view, due, hpast, filter_some]
    rw [hcontents]
    exact h.represents.filter fun _ e => !past e.2
  have hcount := countP_map_off (p := active) (q := due)
    (f := fun e => { e with active := false }) (fun _ => rfl)
    (fun e he => (Bool.and_eq_true_iff.mp he).1) c.entries
  rw [h.count, ← hcount]
  push_cast
  omega

theorem Cache.Keeps.flush : (cacheFlush c).Keeps fun _ => none := by
  have hall := h.releaseAll fun _ => true
  have hnone : c.count - (c.entries.countP active : Int) = 0 := by
    rw [h.count, sub_self]
  have hfilter : ∀ k, (held k).filter (fun _ => false) = none := by
    intro k
    cases held k <;> rfl
  simp only [Bool.and_true, Bool.not_true, hfilter, hnone] at hall
  exact hall

theorem Cache.Keeps.cleanup (now : Int) :
    (cacheCleanup c now).1.Keeps fun k => ttlLive now (held k) :=
  h.releaseAll (cacheExpired now)

end

theorem keeps_cacheLoad (maxEntries : Option CStr) :
    (cacheLoad maxEntries).Keeps fun _ => none where
  filled := by
    intro e he hactive
    rw [(mem_replicate.mp he).2] at hactive
    cases hactive
  represents := by
    have hempty : contents view (cacheLoad maxEntries).entries = fun _ => none := by
      funext i
      rw [contents, Option.bind_eq_none_iff]
      intro e he
      rw [(mem_replicate.mp (mem_of_getElem? he)).2]
      rfl
    rw [hempty]
    exact represents_empty
  count := by
    change (0 : Int) = ((List.replicate _ _).countP CacheEntry.active : Int)
    rw [countP_replicate]
    rfl

end Operations

/-! ### The map of the accepted values -/

def ttlStep (c : Cache) (m : TtlMap) : CacheOp → TtlMap
  | .set now later key value ttl =>
    if (cacheSet c now later key value ttl).2 = 0 then
      Function.update m key (some (value, cacheExpires later ttl))
    else m
  | .get _ _ => m
  | .del _ key => Function.update m key none
  | .flush => fun _ => none
  | .cleanup _ => m

/-- The table holds the map, but for entries whose time is over. -/
def Cache.Tracks (c : Cache) (t : Int) (m : TtlMap) : Prop :=
  ∃ held, c.Keeps held ∧ ∀ k, ttlLive t (held k) = ttlLive t (m k)

section Tracking

variable {c : Cache} {m : TtlMap} {t now : Int}

theorem Cache.Tracks.mono (h : c.Tracks t m) (hle : t ≤ now) : c.Tracks now m := by
  obtain ⟨held, hkeeps, hsame⟩ := h
  exact ⟨held, hkeeps, fun k => ttlLive_congr hle (hsame k)⟩

theorem update_live {held : TtlMap} (hsame : ∀ k, ttlLive t (held k) = ttlLive t (m k))
    (key : CStr) (entry : Option (CStr × Int)) (k : CStr) :
    ttlLive t (update held key entry k) = ttlLive t (update m key entry k) := by
  by_cases hk : k = key
  · subst hk
    rw [update_self, update_self]
  · rw [update_of_ne hk, update_of_ne hk]
    exact hsame k

/-- An operation whose readings are not before the time at which the map was tracked. -/
theorem Cache.Tracks.step (h : c.Tracks t m) (op : CacheOp)
    (hclock : (t :: op.readings).Pairwise (· ≤ ·)) (hend : ∀ r ∈ op.readings, r ≤ now)
    (ht : t ≤ now) : (cacheStep c op).Tracks now (ttlStep c m op) := by
  cases op with
  | set first later key value ttl =>
    have hle : t ≤ first := rel_of_pairwise_cons hclock mem_cons_self
    obtain ⟨held, hkeeps, hsame⟩ := h.mono hle
    refine Cache.Tracks.mono ?_ (hend first mem_cons_self)
    rcases hkeeps.set first later key value ttl with ⟨hrc, hput⟩ | ⟨hrc, hput, hgone⟩
    · refine ⟨_, hput, fun k => ?_⟩
      rw [ttlStep, if_pos hrc]
      exact update_live hsame key _ k
    · refine ⟨_, hput, fun k => ?_⟩
      rw [ttlStep, if_neg (by rw [hrc]; decide)]
      exact (ttlLive_forget hgone k).trans (hsame k)
  | get first key =>
    obtain ⟨held, hkeeps, hsame⟩ := h.mono (rel_of_pairwise_cons hclock mem_cons_self)
    obtain ⟨-, held', hkeeps', hsame'⟩ := hkeeps.get first key
    have htracks : (cacheStep c (.get first key)).Tracks first m :=
      ⟨held', hkeeps', fun k => (hsame' k).trans (hsame k)⟩
    exact htracks.mono (hend first mem_cons_self)
  | del first key =>
    obtain ⟨held, hkeeps, hsame⟩ := h.mono ht
    exact ⟨_, hkeeps.del first key, update_live hsame key none⟩
  | flush =>
    obtain ⟨held, hkeeps, -⟩ := h
    exact ⟨_, hkeeps.flush, fun _ => rfl⟩
  | cleanup first =>
    obtain ⟨held, hkeeps, hsame⟩ := h.mono ht
    have hle : first ≤ now := hend first mem_cons_self
    exact ⟨_, hkeeps.cleanup first, fun k => (ttlLive_ttlLive hle).trans (hsame k)⟩

end Tracking

/-! ### Histories -/

/-- The operation neither sets the key with success nor deletes or flushes it. -/
def LeavesKey (key : CStr) (c : Cache) : CacheOp → Prop
  | .set now later k value ttl => k = key → (cacheSet c now later k value ttl).2 ≠ 0
  | .get _ _ => True
  | .del _ k => k ≠ key
  | .flush => False
  | .cleanup _ => True

/-- The latest successful set of the key gave it the value, at that time and for those seconds, and
it was not deleted or flushed since. -/
def LatestSet (c : Cache) (ops : List CacheOp) (key value : CStr) (time ttl : Int) : Prop :=
  ∃ before now after, ops = before ++ .set now time key value ttl :: after ∧
    (cacheSet (run cacheStep c before) now time key value ttl).2 = 0 ∧
    Along cacheStep (LeavesKey key) (run cacheStep c (before ++ [.set now time key value ttl]))
      after

theorem latestSet_concat {c : Cache} {ops : List CacheOp} {op : CacheOp} {key value : CStr}
    {time ttl : Int} :
    LatestSet c (ops ++ [op]) key value time ttl ↔
      (∃ now, op = .set now time key value ttl ∧
        (cacheSet (run cacheStep c ops) now time key value ttl).2 = 0) ∨
      LatestSet c ops key value time ttl ∧ LeavesKey key (run cacheStep c ops) op := by
  constructor
  · rintro ⟨before, now, after, hsplit, hrc, hkeeps⟩
    rcases append_singleton_eq_split.mp hsplit with ⟨rfl, hop, rfl⟩ | ⟨after', rfl, rfl⟩
    · exact .inl ⟨now, hop.symm, hrc⟩
    · obtain ⟨hkeeps, hlast, -⟩ := (along_append _ _ _).mp hkeeps
      refine .inr ⟨⟨before, now, after', rfl, hrc, hkeeps⟩, ?_⟩
      rw [← run_append] at hlast
      simpa using hlast
  rintro (⟨now, rfl, hrc⟩ | ⟨⟨before, now, after, rfl, hrc, hkeeps⟩, hlast⟩)
  · exact ⟨ops, now, [], rfl, hrc, trivial⟩
  · refine ⟨before, now, after ++ [op], by simp, hrc, ?_⟩
    refine (along_append _ _ _).mpr ⟨hkeeps, ?_, trivial⟩
    rw [← run_append]
    simpa using hlast

/-- An entry of the map after an operation was put there by it, or was left there. -/
theorem ttlStep_eq_some {c : Cache} {m : TtlMap} {op : CacheOp} {key : CStr} {entry : CStr × Int} :
    ttlStep c m op key = some entry ↔
      (∃ now later ttl, op = .set now later key entry.1 ttl ∧
        (cacheSet c now later key entry.1 ttl).2 = 0 ∧ entry.2 = cacheExpires later ttl) ∨
      m key = some entry ∧ LeavesKey key c op := by
  obtain ⟨v, x⟩ := entry
  cases op with
  | set now later k value ttl =>
    by_cases hput : k = key ∧ (cacheSet c now later k value ttl).2 = 0
    · obtain ⟨rfl, hrc⟩ := hput
      rw [ttlStep, if_pos hrc, update_self]
      constructor
      · intro h
        obtain ⟨rfl, rfl⟩ := Prod.mk.inj (some.inj h)
        exact .inl ⟨now, later, ttl, rfl, hrc, rfl⟩
      rintro (⟨now', later', ttl', hop, -, hx⟩ | ⟨-, hleaves⟩)
      · cases hop
        exact congrArg (fun x => some (v, x)) hx.symm
      · exact absurd hrc (hleaves rfl)
    · have hsame : ttlStep c m (.set now later k value ttl) key = m key := by
        rw [ttlStep]
        split
        · rename_i hrc
          exact update_of_ne (fun hk => hput ⟨hk.symm, hrc⟩) _ m
        · rfl
      rw [hsame]
      constructor
      · exact fun h => .inr ⟨h, fun hk hrc => hput ⟨hk, hrc⟩⟩
      rintro (⟨now', later', ttl', hop, hrc, -⟩ | ⟨h, -⟩)
      · cases hop
        exact absurd ⟨rfl, hrc⟩ hput
      · exact h
  | get => simp [ttlStep, LeavesKey]
  | del now k =>
    by_cases hk : k = key
    · subst hk
      simp [ttlStep, LeavesKey]
    · simp [ttlStep, LeavesKey, hk, update_of_ne (Ne.symm hk)]
  | flush | cleanup => simp [ttlStep, LeavesKey]

def cacheClock (ops : List CacheOp) : List Int := 0 :: ops.flatMap CacheOp.readings

theorem exists_between {past new : List Int} {t : Int} (hclock : (past ++ new).Pairwise (· ≤ ·))
    (hend : ∀ r ∈ past ++ new, r ≤ t) :
    ∃ s, (∀ r ∈ past, r ≤ s) ∧ (s :: new).Pairwise (· ≤ ·) ∧ s ≤ t := by
  obtain ⟨-, hnew, hcross⟩ := pairwise_append.mp hclock
  cases new with
  | nil => exact ⟨t, fun r hr => hend r (mem_append_left _ hr), by simp, le_refl t⟩
  | cons s rest =>
    have hfirst : ∀ r ∈ s :: rest, s ≤ r :=
      forall_mem_cons.mpr ⟨le_refl s, fun r => rel_of_pairwise_cons hnew⟩
    exact ⟨s, fun r hr => hcross r hr s mem_cons_self, .cons hfirst hnew, hend s (by simp)⟩

/-- After any history the table tracks the map of the latest sets. -/
theorem tracks_latest {c : Cache} (hc : c.Keeps fun _ => none) (ops : List CacheOp) {t : Int}
    (hclock : (cacheClock ops).Pairwise (· ≤ ·)) (ht : ∀ r ∈ cacheClock ops, r ≤ t) :
    ∃ m, (run cacheStep c ops).Tracks t m ∧ ∀ key value x, m key = some (value, x) ↔
      ∃ time ttl, LatestSet c ops key value time ttl ∧ x = cacheExpires time ttl := by
  induction ops using reverseRecOn generalizing t with
  | nil =>
    refine ⟨fun _ => none, ⟨_, hc, fun _ => rfl⟩, ?_⟩
    intro key value x
    simp [LatestSet]
  | append_singleton ops op ih =>
    have happend : cacheClock (ops ++ [op]) = cacheClock ops ++ op.readings := by
      simp [cacheClock]
    rw [happend] at hclock ht
    obtain ⟨s, hpast, hnew, hst⟩ := exists_between hclock ht
    obtain ⟨m, htracks, hm⟩ := ih (pairwise_append.mp hclock).1 hpast
    refine ⟨ttlStep (run cacheStep c ops) m op, ?_, ?_⟩
    · rw [run_append]
      exact htracks.step op hnew (fun r hr => ht r (mem_append_right _ hr)) hst
    intro key value x
    simp only [ttlStep_eq_some, hm, latestSet_concat]
    constructor
    · rintro (⟨now, later, ttl, rfl, hrc, rfl⟩ | ⟨⟨time, ttl, hlatest, rfl⟩, hleaves⟩)
      · exact ⟨later, ttl, .inl ⟨now, rfl, hrc⟩, rfl⟩
      · exact ⟨time, ttl, .inr ⟨hlatest, hleaves⟩, rfl⟩
    · rintro ⟨time, ttl, ⟨now, rfl, hrc⟩ | ⟨hlatest, hleaves⟩, rfl⟩
      · exact .inl ⟨now, time, ttl, rfl, hrc, rfl⟩
      · exact .inr ⟨⟨time, ttl, hlatest, rfl⟩, hleaves⟩

theorem LatestSet.nonneg {c : Cache} {ops : List CacheOp} {key value : CStr} {time ttl : Int}
    (h : LatestSet c ops key value time ttl) (hclock : (cacheClock ops).Pairwise (· ≤ ·)) :
    0 ≤ time := by
  obtain ⟨before, now, after, rfl, -⟩ := h
  have hop : CacheOp.set now time key value ttl ∈ before ++ .set now time key value ttl :: after :=
    mem_append_right _ mem_cons_self
  have htime : time ∈ (CacheOp.set now time key value ttl).readings :=
    mem_cons_of_mem _ mem_cons_self
  exact rel_of_pairwise_cons hclock (mem_flatMap.mpr ⟨_, hop, htime⟩)

theorem cacheExpired_eq_false {now time ttl : Int} (htime : 0 ≤ time) :
    cacheExpired now (cacheExpires time ttl) = false ↔ (0 < ttl → now ≤ time + ttl) := by
  unfold cacheExpired cacheExpires
  split
  · simp only [Bool.and_eq_false_iff, decide_eq_false_iff_not]
    omega
  · simp only [lt_irrefl, decide_false, Bool.false_and, true_iff]
    omega

/-- As long as the clock does not go back, a lookup gives the value of the key's latest successful
set, if it was neither deleted nor flushed since and its time is not over, and nothing otherwise;
no two active entries have one key, and the counter is their number. -/
theorem cache_ttl (maxEntries : Option CStr) (ops : List CacheOp) (now : Int)
    (hclock : (cacheClock ops ++ [now]).Pairwise (· ≤ ·)) :
    let c := run cacheStep (cacheLoad maxEntries) ops
    (∀ key value, (cacheGet c now key).2 = some value ↔
      ∃ time ttl, LatestSet (cacheLoad maxEntries) ops key value time ttl ∧
        (0 < ttl → now ≤ time + ttl)) ∧
    (∀ (i j : Nat) (e f : CacheEntry), c.entries[i]? = some e → c.entries[j]? = some f →
      e.active = true → f.active = true → e.key = f.key → i = j) ∧
    c.count = c.entries.countP CacheEntry.active := by
  intro c
  obtain ⟨hclock, -, hcross⟩ := pairwise_append.mp hclock
  obtain ⟨m, ⟨held, hkeeps, hsame⟩, hm⟩ := tracks_latest (keeps_cacheLoad maxEntries) ops hclock
    fun r hr => hcross r hr now (mem_singleton_self now)
  refine ⟨?_, ?_, hkeeps.count⟩
  · intro key value
    rw [(hkeeps.get now key).1, hsame key, map_eq_some_iff]
    constructor
    · rintro ⟨⟨v, x⟩, hlive, rfl⟩
      obtain ⟨hentry, hx⟩ := filter_eq_some_iff.mp hlive
      obtain ⟨time, ttl, hlatest, rfl⟩ := (hm key v x).mp hentry
      refine ⟨time, ttl, hlatest, ?_⟩
      exact (cacheExpired_eq_false (hlatest.nonneg hclock)).mp (by simpa using hx)
    rintro ⟨time, ttl, hlatest, hx⟩
    have hentry := (hm key value _).mpr ⟨time, ttl, hlatest, rfl⟩
    have hlive := (cacheExpired_eq_false (hlatest.nonneg hclock)).mpr hx
    exact ⟨_, filter_eq_some_iff.mpr ⟨hentry, by simp [hlive]⟩, rfl⟩
  intro i j e f hi hj he hf hkey
  obtain ⟨k, v, heq⟩ := hkeeps.filled e (mem_of_getElem? hi) he
  obtain ⟨k', v', hfeq⟩ := hkeeps.filled f (mem_of_getElem? hj) hf
  rw [heq, hfeq] at hkey
  obtain rfl := some.inj hkey
  have hci : contents view c.entries i = some (k, v, e.expires) := by
    rw [contents, hi, heq]
    rfl
  have hcj : contents view c.entries j = some (k, v', f.expires) := by
    rw [contents, hj, hfeq]
    rfl
  exact hkeeps.represents.unique hci hcj

/-- A value for ten seconds, looked up in the tenth and, after another key was set, in the
eleventh. -/
theorem cache_ttl_tenSeconds :
    let ops := [CacheOp.set 100 100 (.lit "k") (.lit "v") 10]
    let ops' := ops ++ [.get 110 (.lit "k"), .set 111 111 (.lit "l") (.lit "w") 0]
    (cacheGet (run cacheStep (cacheLoad (some (.lit "2"))) ops) 110 (.lit "k")).2 =
        some (.lit "v") ∧
      ¬ ∃ time ttl, LatestSet (cacheLoad (some (.lit "2"))) ops' (.lit "k") (.lit "v") time ttl ∧
        (0 < ttl → 111 ≤ time + ttl) := by
  intro ops ops'
  constructor
  · refine ((cache_ttl (some (.lit "2")) ops 110 (by decide)).1 (.lit "k") (.lit "v")).mpr ?_
    exact ⟨100, 10, ⟨[], 100, [], rfl, by decide +kernel, trivial⟩, by decide⟩
  · rw [← (cache_ttl (some (.lit "2")) ops' 111 (by decide)).1 (.lit "k") (.lit "v")]
    decide +kernel

end Portal
