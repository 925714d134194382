import Mathlib.Data.List.Perm.Basic
import Portal.Core.Message
import Portal.Lib.Runs

/-!
The label functions of `src/core/core_message.c` over whole histories: a set of labels as a
set.
-/

namespace Portal.Labels

open List Runs

inductive Op where
  | add (label : CStr)
  | remove (label : CStr)
  | clear
deriving DecidableEq

def portalLabelsClear (_ : PortalLabels) : PortalLabels := .empty

def step (ls : PortalLabels) : Op → PortalLabels
  | .add label => (portalLabelsAdd ls label).1
  | .remove label => (portalLabelsRemove ls label).1
  | .clear => portalLabelsClear ls

/-- A call does to the stored labels what it does to a set. -/
structure ActsAsSet (ls : PortalLabels) (op : Op) : Prop where
  distinct : (step ls op).labels.Nodup
  added : ∀ label, op = .add label →
    ((portalLabelsAdd ls label).2 = 0 ↔ portalLabelsHas (step ls op) label = true)
  removed : ∀ label, op = .remove label → portalLabelsHas (step ls op) label = false
  others : ∀ label m, op = .add label ∨ op = .remove label → m ≠ label →
    portalLabelsHas (step ls op) m = portalLabelsHas ls m

/-- What is added to a set with room fits its field, and to a full set nothing is added that
is there. -/
def Proper (ls : PortalLabels) : Op → Prop
  | .add label => if ls.count < portalMaxLabels then label.bytes.length < portalMaxLabelLen
      else label ∉ ls.labels
  | _ => True

section Calls

variable {ls : PortalLabels} {label : CStr}

/-- Overwriting the label by the last one, and dropping the last one. -/
theorem remove_perm : (portalLabelsRemove ls label).1.labels.Perm (ls.labels.erase label) := by
  unfold portalLabelsRemove
  split
  case h_1 hnone => rw [erase_of_not_mem (idxOf?_eq_none_iff.mp hnone)]
  case h_2 i hi =>
    have hmem : label ∈ ls.labels := by
      by_contra hnot
      rw [idxOf?_eq_none_iff.mpr hnot] at hi
      cases hi
    obtain ⟨before, after, heq, hfirst⟩ := eq_append_cons_of_mem hmem
    obtain rfl : i = before.length := by
      rw [heq, idxOf?_append_cons hfirst] at hi
      exact (Option.some.inj hi).symm
    change ((ls.labels.set before.length (ls.labels.getLast?.getD label)).dropLast).Perm _
    rw [heq, erase_append_right _ hfirst, erase_cons_head]
    rcases eq_nil_or_concat' after with rfl | ⟨middle, last, rfl⟩
    · simp
    · -- the last label now stands before those that were between
      have hlast : (before ++ label :: (middle ++ [last])).getLast?.getD label = last := by
        simp [getLast?_cons]
      have hset : ((before ++ label :: (middle ++ [last])).set before.length last).dropLast
          = before ++ last :: middle := by
        rw [set_append_right _ _ le_rfl, Nat.sub_self, set_cons_zero, ← cons_append,
          ← append_assoc, dropLast_concat]
      rw [hlast, hset]
      exact (perm_append_singleton last middle).symm.append_left before

theorem mem_remove (hls : ls.labels.Nodup) {m : CStr} :
    m ∈ (portalLabelsRemove ls label).1.labels ↔ m ≠ label ∧ m ∈ ls.labels := by
  rw [remove_perm.mem_iff, hls.mem_erase_iff]

theorem actsAsSet_remove (hls : ls.labels.Nodup) : ActsAsSet ls (.remove label) where
  distinct := remove_perm.nodup_iff.mpr (hls.erase label)
  added := by simp
  removed := by simp [step, portalLabelsHas, mem_remove hls]
  others := by
    rintro l m (h | h) hm
    · cases h
    · obtain rfl := Op.remove.inj h
      simp [step, portalLabelsHas, mem_remove hls, hm]

theorem add_full (h : ¬ ls.count < portalMaxLabels) : portalLabelsAdd ls label = (ls, -1) :=
  dif_pos (not_lt.mp h)

theorem add_present (h : ls.count < portalMaxLabels) (hmem : label ∈ ls.labels) :
    portalLabelsAdd ls label = (ls, 0) := by
  rw [portalLabelsAdd, dif_neg (not_le.mpr h), if_pos hmem]

theorem add_new (h : ls.count < portalMaxLabels) (hmem : label ∉ ls.labels) :
    (portalLabelsAdd ls label).2 = 0 ∧ (portalLabelsAdd ls label).1.labels
      = ls.labels ++ [label.truncate (portalMaxLabelLen - 1)] := by
  rw [portalLabelsAdd, dif_neg (not_le.mpr h), if_neg hmem]
  exact ⟨rfl, rfl⟩

theorem actsAsSet_of_same (hls : ls.labels.Nodup) {rc : Int}
    (h : portalLabelsAdd ls label = (ls, rc)) :
    ActsAsSet ls (.add label) ↔ (rc = 0 ↔ label ∈ ls.labels) := by
  constructor
  · intro hacts
    simpa [step, h, portalLabelsHas] using hacts.added label rfl
  intro hrc
  exact
    { distinct := by simpa [step, h] using hls
      added := by simpa [step, h, portalLabelsHas] using hrc
      removed := by simp
      others := by simp [step, h] }

theorem actsAsSet_new (hls : ls.labels.Nodup) (h : ls.count < portalMaxLabels)
    (hmem : label ∉ ls.labels) :
    ActsAsSet ls (.add label) ↔ label.bytes.length < portalMaxLabelLen := by
  obtain ⟨hrc, hlabels⟩ := add_new h hmem
  constructor
  · intro hacts
    have hfound := (hacts.added label rfl).mp hrc
    simp only [step, portalLabelsHas, hlabels, mem_append, hmem, mem_singleton, false_or,
      decide_eq_true_eq] at hfound
    rw [hfound]
    exact label.length_truncate_lt (by decide)
  intro hshort
  rw [CStr.truncate_eq_self (Nat.le_sub_one_of_lt hshort)] at hlabels
  exact
    { distinct := by simpa [step, hlabels] using hls.concat hmem
      added := by simp [step, hrc, hlabels, portalLabelsHas]
      removed := by simp
      others := by
        rintro l m (hop | hop) hm
        · obtain rfl := Op.add.inj hop
          simp [step, hlabels, portalLabelsHas, hm]
        · cases hop }

theorem actsAsSet_iff {op : Op} (hls : ls.labels.Nodup) : ActsAsSet ls op ↔ Proper ls op := by
  cases op with
  | add label =>
    by_cases hroom : ls.count < portalMaxLabels
    · rw [Proper, if_pos hroom]
      by_cases hmem : label ∈ ls.labels
      · rw [actsAsSet_of_same hls (add_present hroom hmem)]
        simp [hmem, ls.short label hmem]
      · exact actsAsSet_new hls hroom hmem
    · rw [Proper, if_neg hroom, actsAsSet_of_same hls (add_full hroom)]
      simp
  | remove label => exact iff_of_true (actsAsSet_remove hls) trivial
  | clear => exact iff_of_true ⟨nodup_nil, by simp, by simp, by simp⟩ trivial

end Calls

/-- Over any history, each call does to the labels what it does to a set, exactly when what is
added to a set with room has less than 64 bytes, and nothing that is there is added to a full set.
-/
theorem acts_as_set_iff (ops : List Op) :
    Along step ActsAsSet .empty ops ↔ Along step Proper .empty ops := by
  suffices h : ∀ ls : PortalLabels, ls.labels.Nodup →
      (Along step ActsAsSet ls ops ↔ Along step Proper ls ops) from h .empty nodup_nil
  induction ops with
  | nil => exact fun _ _ => Iff.rfl
  | cons op ops ih =>
    intro ls hls
    rw [along_cons, along_cons, ← actsAsSet_iff hls]
    exact and_congr_right fun hacts => ih (step ls op) hacts.distinct

def fullSet : PortalLabels :=
  run step .empty ((List.range 32).map fun i => .add (.ofBytes [UInt8.ofNat (i + 1)]))

def longLabel : CStr := .ofBytes (List.replicate 64 97)

/-- A label of a full set cannot be added again, and a long one is said to be added, is not there,
and is stored once more by the next call. -/
theorem acts_as_set_false :
    (portalLabelsHas fullSet (.ofBytes [1]) = true ∧
      (portalLabelsAdd fullSet (.ofBytes [1])).2 = -1) ∧
    ((portalLabelsAdd .empty longLabel).2 = 0 ∧
      portalLabelsHas (portalLabelsAdd .empty longLabel).1 longLabel = false ∧
      ¬ (run step .empty [.add longLabel, .add longLabel]).labels.Nodup) := by
  decide +kernel

end Portal.Labels
