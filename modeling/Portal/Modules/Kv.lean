import Portal.Core.Message
import Mathlib.Logic.Function.Basic

/-!
The key-value store of `mod_kv`, which has a file for each key. What the file operations of a set
request come to is an argument: `fopen` fails, or it empties the file, `fwrite` takes some bytes,
and some of these are in the file after `fclose`.
-/

namespace Portal.Kv

open Function

structure KvConfig where
  dir : CStr
  maxValue : Nat

abbrev Files := CStr → Option Bytes

def validKey (key : CStr) : Bool :=
  decide (key.bytes ≠ []) && decide (key.bytes.length ≤ 256) &&
    (strstr (CStr.lit "..").bytes key.bytes).isNone && decide (47 ∉ key.bytes) &&
    decide (key.bytes.head? ≠ some 46)

def kvPath (cfg : KvConfig) (key : CStr) : Option CStr :=
  if validKey key then some ((CStr.concat [cfg.dir, .lit "/", key]).truncate 1023) else none

def reply (status : PortalStatus) (rc : Int) (text : List CStr) : Reply :=
  ⟨status, rc, (CStr.concat text).bytes⟩

def kvGet (cfg : KvConfig) (files : Files) (msg : ModMsg) : Reply :=
  match (msg.hdr "key").bind fun key => (kvPath cfg key).map fun path => (key, path) with
  | none => reply .badRequest (-1) [.lit "Need: key header (no . or / or ..)\n"]
  | some (key, path) =>
    match files path with
    | none => reply .notFound (-1) [.lit "Key not found: ", key, .lit "\n"]
    | some data => ⟨.ok, 0, data⟩

def kvValue (msg : ModMsg) : Option Bytes :=
  if msg.body = [] then (msg.hdr "value").map CStr.bytes else some msg.body

/-- How many bytes `fwrite` takes, and how many are in the file after `fclose`. -/
structure Written where
  taken : Nat
  flushed : Nat

/-- `write` is the error that `fopen` fails with, or what comes of `fwrite` and `fclose`, whose
results are not looked at. -/
def kvSet (cfg : KvConfig) (files : Files) (write : Except CStr Written) (msg : ModMsg) :
    Files × Reply :=
  match (msg.hdr "key").bind (kvPath cfg), kvValue msg with
  | none, _ => (files, reply .badRequest (-1) [.lit "Need: key header\n"])
  | some _, none => (files, reply .badRequest (-1) [.lit "Need: value header or body\n"])
  | some path, some value =>
    let size := CStr.ofInt value.length
    if cfg.maxValue < value.length then
      (files, reply .badRequest (-1)
        [.lit "Value too large (", size, .lit " > ", .ofInt cfg.maxValue, .lit ")\n"])
    else
      match write with
      | .error errno => (files, reply .internalError (-1) [.lit "Write error: ", errno, .lit "\n"])
      | .ok done =>
        (update files path (some ((value.take done.taken).take done.flushed)),
          reply .ok 0 [.lit "OK (", size, .lit " bytes)\n"])

/-- After a success a get of the key returns the value, and after a failure what it returned
before. -/
def AllOrNothing (cfg : KvConfig) (files : Files) (write : Except CStr Written) (msg : ModMsg) :
    Prop :=
  ∀ get : ModMsg, get.hdr "key" = msg.hdr "key" →
    if (kvSet cfg files write msg).2.status = .ok then
      ∃ value, kvValue msg = some value ∧
        kvGet cfg (kvSet cfg files write msg).1 get = ⟨.ok, 0, value⟩
    else kvGet cfg (kvSet cfg files write msg).1 get = kvGet cfg files get

/-- The request comes to a file that is opened and written. -/
structure Stores (cfg : KvConfig) (write : Except CStr Written) (msg : ModMsg) (key : CStr)
    (value : Bytes) (done : Written) : Prop where
  hkey : msg.hdr "key" = some key
  hvalid : validKey key = true
  hvalue : kvValue msg = some value
  hsmall : value.length ≤ cfg.maxValue
  hopen : write = .ok done

section

variable {cfg : KvConfig} {files : Files} {write : Except CStr Written} {msg : ModMsg} {key : CStr}
  {value : Bytes} {done : Written} (h : Stores cfg write msg key value done)
include h

theorem Stores.kvSet : (kvSet cfg files write msg).2.status = .ok ∧
    ∀ get : ModMsg, get.hdr "key" = some key →
      kvGet cfg (kvSet cfg files write msg).1 get =
        ⟨.ok, 0, (value.take done.taken).take done.flushed⟩ := by
  have hpath : kvPath cfg key = some _ := if_pos h.hvalid
  simp only [Kv.kvSet, h.hkey, Option.bind_some, hpath, h.hvalue, if_neg (not_lt.mpr h.hsmall),
    h.hopen]
  refine ⟨rfl, fun get hget => ?_⟩
  simp [kvGet, hget, hpath]

theorem Stores.length_le (hall : AllOrNothing cfg files write msg) :
    value.length ≤ done.taken ∧ value.length ≤ done.flushed := by
  obtain ⟨hok, hget⟩ := h.kvSet
  have hmsg := hall msg rfl
  rw [if_pos hok, hget msg h.hkey, h.hvalue] at hmsg
  obtain ⟨_, ⟨⟩, hreply⟩ := hmsg
  have hlength : ((value.take done.taken).take done.flushed).length = value.length :=
    congrArg (·.body.length) hreply
  rw [List.length_take, List.length_take] at hlength
  omega

end

variable (cfg : KvConfig) (files : Files) (write : Except CStr Written) (msg : ModMsg)

theorem stores_or_kvSet_unchanged :
    (∃ key value done, Stores cfg write msg key value done) ∨
      (kvSet cfg files write msg).1 = files ∧ (kvSet cfg files write msg).2.status ≠ .ok := by
  rw [kvSet]
  split
  · exact .inr ⟨rfl, by simp [reply]⟩
  · exact .inr ⟨rfl, by simp [reply]⟩
  rename_i path value hpath hvalue
  split
  · exact .inr ⟨rfl, by simp [reply]⟩
  rename_i hsmall
  cases write with
  | error errno => exact .inr ⟨rfl, by simp [reply]⟩
  | ok done =>
    obtain ⟨key, hkey, hpath⟩ := Option.bind_eq_some_iff.mp hpath
    obtain ⟨hvalid, _⟩ := Option.ite_none_right_eq_some.mp hpath
    exact .inl ⟨key, value, done, hkey, hvalid, hvalue, not_lt.mp hsmall, rfl⟩

/-- For every key, every value and every outcome of the file operations. -/
theorem kvSet_allOrNothing_iff : AllOrNothing cfg files write msg ↔
    ∀ key value done, Stores cfg write msg key value done →
      value.length ≤ done.taken ∧ value.length ≤ done.flushed := by
  refine ⟨fun hall key value done h => h.length_le hall, fun hdone get hkey => ?_⟩
  obtain ⟨key, value, done, h⟩ | ⟨hfiles, hfailed⟩ := stores_or_kvSet_unchanged cfg files write msg
  · obtain ⟨hok, hget⟩ := h.kvSet
    obtain ⟨htaken, hflushed⟩ := hdone key value done h
    rw [if_pos hok, hget get (hkey.trans h.hkey), List.take_of_length_le htaken,
      List.take_of_length_le hflushed]
    exact ⟨value, h.hvalue, rfl⟩
  · rw [if_neg hfailed, hfiles]

def setOne : ModMsg := ⟨.lit "/kv/functions/set", [(.lit "key", .lit "k")], [1]⟩

theorem setOne_lost {done : Written} (h : ¬ [1].length ≤ done.flushed) :
    (kvSet ⟨.lit "d", 8⟩ (fun _ => some [2]) (.ok done) setOne).2.status = .ok ∧
      ¬ AllOrNothing ⟨.lit "d", 8⟩ (fun _ => some [2]) (.ok done) setOne := by
  have hstores : Stores ⟨.lit "d", 8⟩ (.ok done) setOne (.lit "k") [1] done :=
    ⟨by decide +kernel, by decide +kernel, rfl, by decide, rfl⟩
  exact ⟨hstores.kvSet.1, fun hall => h (hstores.length_le hall).2⟩

/-- The disk is full, and `fwrite` or `fclose` fails: the old value is gone, and success is
reported. -/
theorem kvSet_allOrNothing_false :
    ((kvSet ⟨.lit "d", 8⟩ (fun _ => some [2]) (.ok ⟨0, 0⟩) setOne).2.status = .ok ∧
      ¬ AllOrNothing ⟨.lit "d", 8⟩ (fun _ => some [2]) (.ok ⟨0, 0⟩) setOne) ∧
    (kvSet ⟨.lit "d", 8⟩ (fun _ => some [2]) (.ok ⟨1, 0⟩) setOne).2.status = .ok ∧
      ¬ AllOrNothing ⟨.lit "d", 8⟩ (fun _ => some [2]) (.ok ⟨1, 0⟩) setOne :=
  ⟨setOne_lost (by decide), setOne_lost (by decide)⟩

end Portal.Kv
