import Mathlib.Data.Nat.Bits
import Portal.Modules.Http

/-!
What a Basic credential decodes to when only its beginning is known (`base64_decode` in
`modules/mod_web/mod_web.c`). `decodeText` is the meaning of the loop; behind a credential whose
length is not a multiple of four it can add only NULs. `knownBytes` are certain whatever follows,
and `Settled` says when they settle the user and the password.
-/

namespace Portal.Web

open List CStr
open UInt8 (ofNat_or toNat_inj toNat_ofNat' zero_or)

variable {i : Nat} {text : Bytes}

/-! ### The meaning of the decoding loop -/

/-- `d[c]`, with what lies behind the table. -/
def sextet (table : UInt8 → UInt8) (c : UInt8) : Nat := base64Value ⟨[], [], table⟩ c

def byte1 (d0 d1 : Nat) : UInt8 := UInt8.ofNat (d0 <<< 2 ||| d1 >>> 4)

def byte2 (d1 d2 : Nat) : UInt8 := UInt8.ofNat (d1 <<< 4 ||| d2 >>> 2)

def byte3 (d2 d3 : Nat) : UInt8 := UInt8.ofNat (d2 <<< 6 ||| d3)

def equals : UInt8 := 61

/-- The second and the third byte of a group are not put out for an `=`. -/
def unlessEquals (c : UInt8) (byte : UInt8) : Bytes := if c = equals then [] else [byte]

def groupBytes (d : UInt8 → Nat) (c0 c1 c2 c3 : UInt8) : Bytes :=
  byte1 (d c0) (d c1) :: (unlessEquals c2 (byte2 (d c1) (d c2)) ++
    unlessEquals c3 (byte3 (d c2) (d c3)))

/-- The bytes of a credential. A group that is not complete counts as filled up with zeros. -/
def decodeText (d : UInt8 → Nat) : Bytes → Bytes
  | c0 :: c1 :: c2 :: c3 :: rest => groupBytes d c0 c1 c2 c3 ++ decodeText d rest
  | [c0, c1, c2] =>
    byte1 (d c0) (d c1) :: (unlessEquals c2 (byte2 (d c1) (d c2)) ++ [byte3 (d c2) 0])
  | [c0, c1] => [byte1 (d c0) (d c1), byte2 (d c1) 0]
  | [c0] => [byte1 (d c0) 0]
  | [] => []

def knownBytes (d : UInt8 → Nat) : Bytes → Bytes
  | c0 :: c1 :: c2 :: c3 :: rest => groupBytes d c0 c1 c2 c3 ++ knownBytes d rest
  | [c0, c1, c2] => byte1 (d c0) (d c1) :: unlessEquals c2 (byte2 (d c1) (d c2))
  | [c0, c1] => [byte1 (d c0) (d c1)]
  | _ => []

section Bits

variable (d0 d1 d2 d3 : Nat)

theorem ofNat_shiftLeft_eq_zero (a : Nat) {k : Nat} (hk : 8 ≤ k) : UInt8.ofNat (a <<< k) = 0 := by
  apply toNat_inj.mp
  rw [toNat_ofNat', Nat.shiftLeft_eq]
  exact Nat.mod_eq_zero_of_dvd (Nat.dvd_mul_left_of_dvd (Nat.pow_dvd_pow 2 hk) a)

theorem byte1_eq (h2 : d2 < 256) (h3 : d3 < 256) :
    UInt8.ofNat ((d0 <<< 18 ||| d1 <<< 12 ||| d2 <<< 6 ||| d3) >>> 16) = byte1 d0 d1 := by
  have hd0 : d0 <<< 18 >>> 16 = d0 <<< 2 := (Nat.shiftLeft_sub d0 (by decide)).symm
  have hd1 : d1 <<< 12 >>> 16 = d1 >>> 4 := by
    simp only [Nat.shiftLeft_eq, Nat.shiftRight_eq_div_pow]
    omega
  have hd2 : d2 <<< 6 >>> 16 = 0 := by
    simp only [Nat.shiftLeft_eq, Nat.shiftRight_eq_div_pow]
    omega
  have hd3 : d3 >>> 16 = 0 := Nat.shiftRight_eq_zero d3 16 (by omega)
  rw [Nat.shiftRight_or_distrib, Nat.shiftRight_or_distrib, Nat.shiftRight_or_distrib, hd0, hd1,
    hd2, hd3, Nat.or_zero, Nat.or_zero, byte1]

theorem byte2_eq (h3 : d3 < 256) :
    UInt8.ofNat ((d0 <<< 18 ||| d1 <<< 12 ||| d2 <<< 6 ||| d3) >>> 8) = byte2 d1 d2 := by
  have hd0 : d0 <<< 18 >>> 8 = d0 <<< 10 := (Nat.shiftLeft_sub d0 (by decide)).symm
  have hd1 : d1 <<< 12 >>> 8 = d1 <<< 4 := (Nat.shiftLeft_sub d1 (by decide)).symm
  have hd2 : d2 <<< 6 >>> 8 = d2 >>> 2 := by
    simp only [Nat.shiftLeft_eq, Nat.shiftRight_eq_div_pow]
    omega
  have hd3 : d3 >>> 8 = 0 := Nat.shiftRight_eq_zero d3 8 h3
  rw [Nat.shiftRight_or_distrib, Nat.shiftRight_or_distrib, Nat.shiftRight_or_distrib, hd0, hd1,
    hd2, hd3, Nat.or_zero, byte2, ofNat_or, ofNat_or, ofNat_shiftLeft_eq_zero d0 (by omega),
    zero_or, ← ofNat_or]

theorem byte3_eq :
    UInt8.ofNat (d0 <<< 18 ||| d1 <<< 12 ||| d2 <<< 6 ||| d3) = byte3 d2 d3 := by
  rw [byte3, ofNat_or, ofNat_or, ofNat_or, ofNat_shiftLeft_eq_zero d0 (by omega),
    ofNat_shiftLeft_eq_zero d1 (by omega), zero_or, zero_or, ← ofNat_or]

end Bits

section Loop

variable (left : Leftover) (table : UInt8 → UInt8)

theorem sextet_lt (c : UInt8) : sextet table c < 256 := by
  have hc := c.toNat_lt
  unfold sextet base64Value
  split
  · exact (table c).toNat_lt
  split
  · omega
  split
  · omega
  split
  · rename_i hdigit
    have hle : c.toNat ≤ 57 := UInt8.le_iff_toNat_le.mp hdigit.2
    omega
  · split
    · decide
    · split <;> decide

theorem cText_append_zeros (a : Bytes) {zeros : Bytes} (h : ∀ b ∈ zeros, b = 0) :
    cText (a ++ zeros) = cText a := by
  by_cases ha : (0 : UInt8) ∈ a
  · exact cText_append_of_mem ha zeros
  · have hzeros : cText zeros = [] := by
      rw [cText, takeWhile_eq_nil_iff]
      intro hlen
      simp [h _ (getElem_mem hlen)]
    rw [cText_append_of_notMem ha, hzeros, append_nil, cText_eq_self ha]

theorem append_unlessEquals (c byte : UInt8) {out : Bytes} {cap : Nat} (h : out.length < cap) :
    (if c ≠ 61 ∧ out.length < cap then out ++ [byte] else out) = out ++ unlessEquals c byte := by
  unfold unlessEquals equals
  by_cases hc : c = 61
  · simp [hc]
  · simp [hc, h]

theorem length_unlessEquals_le (c byte : UInt8) : (unlessEquals c byte).length ≤ 1 := by
  unfold unlessEquals
  split <;> simp

/-- What the loop puts out for the group at `i`, if there is room. -/
def loopGroup (d : UInt8 → Nat) (mem : Bytes) (len i : Nat) : Bytes :=
  let c := fun k => mem.getD (i + k) 0
  byte1 (d (c 0)) (d (c 1)) ::
    (unlessEquals (c 2) (byte2 (d (c 1)) (if i + 2 < len then d (c 2) else 0)) ++
      unlessEquals (c 3) (byte3 (if i + 2 < len then d (c 2) else 0)
        (if i + 3 < len then d (c 3) else 0)))

theorem base64Groups_step (mem : Bytes) {len cap fuel : Nat} {out : Bytes} (hi : i < len)
    (hroom : out.length + 2 < cap) :
    base64Groups left mem len cap (fuel + 1) i out =
      base64Groups left mem len cap fuel (i + 4)
        (out ++ loopGroup (sextet left.table) mem len i) := by
  rw [base64Groups, if_pos ⟨hi, by omega⟩]
  have hvalue (c : UInt8) : base64Value left c = sextet left.table c := rfl
  have h2 : (if i + 2 < len then sextet left.table (mem.getD (i + 2) 0) else 0) < 256 := by
    split
    · exact sextet_lt _ _
    · decide
  have h3 : (if i + 3 < len then sextet left.table (mem.getD (i + 3) 0) else 0) < 256 := by
    split
    · exact sextet_lt _ _
    · decide
  have hshift : (if i + 2 < len then sextet left.table (mem.getD (i + 2) 0) <<< 6 else 0) =
      (if i + 2 < len then sextet left.table (mem.getD (i + 2) 0) else 0) <<< 6 := by
    split
    · rfl
    · rfl
  simp only [hvalue, hshift, byte1_eq _ _ _ _ h2 h3, byte2_eq _ _ _ _ h3, byte3_eq]
  congr 1
  have hfirst (b : UInt8) : (out ++ [b]).length < cap := by
    rw [length_append, length_singleton]
    omega
  rw [append_unlessEquals _ _ (hfirst _), append_unlessEquals, loopGroup, append_assoc,
    append_assoc]
  · rfl
  have hle := length_unlessEquals_le (mem.getD (i + 2) 0)
    (byte2 (sextet left.table (mem.getD (i + 1) 0))
      (if i + 2 < len then sextet left.table (mem.getD (i + 2) 0) else 0))
  simp only [length_append, length_singleton]
  omega

theorem base64Groups_end (mem : Bytes) {len cap fuel : Nat} (out : Bytes) (hi : len ≤ i) :
    base64Groups left mem len cap fuel i out = out := by
  cases fuel with
  | zero => rfl
  | succ fuel => rw [base64Groups, if_neg fun h => by omega]

theorem loopGroup_drop (d : UInt8 → Nat) (text behind : Bytes) (hi : i ≤ text.length) :
    loopGroup d (text ++ behind) text.length i =
      loopGroup d (text.drop i ++ behind) (text.drop i).length 0 := by
  have hmem (k : Nat) : (text ++ behind).getD (i + k) 0 = (text.drop i ++ behind).getD k 0 := by
    rw [getD_eq_getElem?_getD, getD_eq_getElem?_getD, ← drop_append_of_le_length hi, getElem?_drop]
  have hlt (k : Nat) : i + k < text.length ↔ 0 + k < (text.drop i).length := by
    rw [length_drop]
    omega
  unfold loopGroup
  simp only [hmem, hlt, zero_add]

theorem length_groupBytes_le (d : UInt8 → Nat) (c0 c1 c2 c3 : UInt8) :
    (groupBytes d c0 c1 c2 c3).length ≤ 3 := by
  have h2 := length_unlessEquals_le c2 (byte2 (d c1) (d c2))
  have h3 := length_unlessEquals_le c3 (byte3 (d c2) (d c3))
  rw [groupBytes, length_cons, length_append]
  omega

theorem sextet_zero : sextet table 0 = 0 := rfl

/-- Behind an incomplete group the loop reads the NUL and what follows it. -/
theorem loopGroup_last (rest behind : Bytes) (hne : rest ≠ []) (hlen : rest.length < 4) :
    ∃ zeros, (∀ b ∈ zeros, b = 0) ∧ loopGroup (sextet table) (rest ++ 0 :: behind) rest.length 0 =
      decodeText (sextet table) rest ++ zeros := by
  have hzero (c : UInt8) : ∀ b ∈ unlessEquals c 0, b = 0 := by
    unfold unlessEquals
    split <;> simp
  have hnul (byte : UInt8) : unlessEquals 0 byte = [byte] := rfl
  rcases rest with _ | ⟨c0, _ | ⟨c1, _ | ⟨c2, _ | ⟨c3, rest⟩⟩⟩⟩
  · exact absurd rfl hne
  · refine ⟨unlessEquals (behind.getD 0 0) 0 ++ unlessEquals (behind.getD 1 0) 0, ?_, ?_⟩
    · exact forall_mem_append.mpr ⟨hzero _, hzero _⟩
    · simp [loopGroup, decodeText, sextet_zero, byte2, byte3]
  · refine ⟨unlessEquals (behind.getD 0 0) 0, hzero _, ?_⟩
    simp [loopGroup, decodeText, byte3, hnul]
  · refine ⟨[], by simp, ?_⟩
    simp [loopGroup, decodeText, hnul]
  · simp only [length_cons] at hlen
    omega

/-- The loop computes `decodeText`, but for NULs at the end. -/
theorem cText_base64Groups (text : Bytes) (hlen : text.length ≤ 255) {fuel : Nat} {out : Bytes}
    (hfuel : text.length ≤ i + fuel) (hout : 4 * out.length ≤ 3 * i) :
    cText (base64Groups left (text ++ 0 :: left.b64) text.length 255 fuel i out) =
      cText (out ++ decodeText (sextet left.table) (text.drop i)) := by
  induction fuel generalizing i out with
  | zero => rw [base64Groups, drop_eq_nil_of_le (by omega), decodeText, append_nil]
  | succ fuel ih =>
    by_cases hi : i < text.length
    · rw [base64Groups_step left _ hi (by omega), loopGroup_drop _ _ _ (by omega)]
      by_cases hfull : i + 4 ≤ text.length
      · obtain ⟨c0, c1, c2, c3, rest, hrest⟩ : ∃ c0 c1 c2 c3 rest,
            text.drop i = c0 :: c1 :: c2 :: c3 :: rest := by
          have hlong : 4 ≤ (text.drop i).length := by
            rw [length_drop]
            omega
          revert hlong
          rcases text.drop i with _ | ⟨c0, _ | ⟨c1, _ | ⟨c2, _ | ⟨c3, rest⟩⟩⟩⟩
          all_goals simp
        have hgroup : loopGroup (sextet left.table) (text.drop i ++ 0 :: left.b64)
            (text.drop i).length 0 = groupBytes (sextet left.table) c0 c1 c2 c3 := by
          rw [hrest]
          simp [loopGroup, groupBytes]
        have hnext : text.drop (i + 4) = rest := by
          rw [← drop_drop, hrest]
          rfl
        have hgrow := length_groupBytes_le (sextet left.table) c0 c1 c2 c3
        rw [hgroup, ih (by omega) (by rw [length_append]; omega), hnext, hrest, decodeText,
          append_assoc]
      · obtain ⟨zeros, hzeros, hgroup⟩ := loopGroup_last left.table (text.drop i) left.b64
          (by simp; omega) (by simp; omega)
        rw [base64Groups_end left _ _ (by omega), hgroup, ← append_assoc,
          cText_append_zeros _ hzeros]
    · rw [base64Groups_end left _ _ (by omega), drop_eq_nil_of_le (by omega), decodeText,
        append_nil]

end Loop

/-! ### Credentials -/

def readCredential (decoded : CStr) : Option (CStr × CStr) :=
  (decoded.bytes.idxOf? colon).map fun i =>
    ((decoded.truncate i).truncate 63, (decoded.drop (i + 1)).truncate 127)

/-- What a credential stands for; at most 255 characters of it are read. -/
def credential (d : UInt8 → Nat) (text : Bytes) : Option (CStr × CStr) :=
  readCredential (.ofBytes (decodeText d (text.take 255)))

theorem decodeBasic_eq (left : Leftover) (value : CStr) :
    decodeBasic left value = credential (sextet left.table) value.bytes := by
  have hloop : cText (base64Decode left (value.truncate 255) 256) =
      cText (decodeText (sextet left.table) (value.bytes.take 255)) := by
    rw [base64Decode]
    refine (cText_base64Groups left (value.truncate 255).bytes ?_ ?_ ?_).trans ?_
    · exact length_take_le _ _
    · exact Nat.le_add_left _ _
    · exact Nat.zero_le _
    · rw [drop_zero, nil_append]
      rfl
  exact congrArg readCredential (ext_bytes hloop)

section Credentials

variable {a : Bytes}

theorem lt_of_idxOf?_eq_some {c : UInt8} (h : a.idxOf? c = some i) : i < a.length :=
  (findIdx?_eq_some_iff_getElem.mp h).1

theorem notMem_take_drop (hnul : (0 : UInt8) ∉ a) (i : Nat) :
    (0 : UInt8) ∉ a.take i ∧ (0 : UInt8) ∉ a.drop i :=
  ⟨fun h => hnul (mem_of_mem_take h), fun h => hnul (mem_of_mem_drop h)⟩

theorem readCredential_append (hnul : (0 : UInt8) ∉ a) (hcolon : a.idxOf? colon = some i)
    (z : Bytes) :
    readCredential (.ofBytes (a ++ z)) = some ((CStr.ofBytes (a.take i)).truncate 63,
      (CStr.ofBytes (a.drop (i + 1) ++ z)).truncate 127) := by
  have hi := lt_of_idxOf?_eq_some hcolon
  have hbytes : (ofBytes (a ++ z)).bytes = a ++ cText z := cText_append_of_notMem hnul z
  have hfound : (a ++ cText z).idxOf? colon = some i := by
    unfold idxOf? at hcolon ⊢
    rw [findIdx?_append, hcolon]
    rfl
  have huser : (ofBytes (a ++ z)).truncate i = .ofBytes (a.take i) := by
    apply ext_bytes
    change (ofBytes (a ++ z)).bytes.take i = cText (a.take i)
    rw [hbytes, take_append_of_le_length (le_of_lt hi),
      cText_eq_self (notMem_take_drop hnul i).1]
  have hpass : (ofBytes (a ++ z)).drop (i + 1) = .ofBytes (a.drop (i + 1) ++ z) := by
    apply ext_bytes
    change (ofBytes (a ++ z)).bytes.drop (i + 1) = cText (a.drop (i + 1) ++ z)
    rw [hbytes, drop_append_of_le_length hi,
      cText_append_of_notMem (notMem_take_drop hnul (i + 1)).2]
  rw [readCredential, hbytes, hfound, Option.map_some, huser, hpass]

theorem readCredential_of_long (hnul : (0 : UInt8) ∉ a) (hcolon : a.idxOf? colon = some i)
    (hlong : i + 128 ≤ a.length) (z z' : Bytes) :
    readCredential (.ofBytes (a ++ z)) = readCredential (.ofBytes (a ++ z')) := by
  have hpass (z : Bytes) : (ofBytes (a.drop (i + 1) ++ z)).truncate 127 =
      (ofBytes (a.drop (i + 1))).truncate 127 := by
    apply ext_bytes
    change (cText (a.drop (i + 1) ++ z)).take 127 = (cText (a.drop (i + 1))).take 127
    have hdrop := (notMem_take_drop hnul (i + 1)).2
    rw [cText_append_of_notMem hdrop, cText_eq_self hdrop, take_append_of_le_length]
    rw [length_drop]
    omega
  rw [readCredential_append hnul hcolon, readCredential_append hnul hcolon, hpass, hpass]

end Credentials

/-! ### Settled credentials -/

/-- Nothing more is read, or a NUL ends the credential, or all of the password that is kept is
there. -/
def Settled (d : UInt8 → Nat) (text : Bytes) : Prop :=
  255 ≤ text.length ∨ 0 ∈ knownBytes d text ∨
    ∃ i, (knownBytes d text).idxOf? colon = some i ∧ i + 128 ≤ (knownBytes d text).length

section Settling

variable {d : UInt8 → Nat}

theorem decodeText_append (text y : Bytes) :
    ∃ z, decodeText d (text ++ y) = knownBytes d text ++ z := by
  induction text using knownBytes.induct with
  | case1 c0 c1 c2 c3 rest ih =>
    obtain ⟨z, hz⟩ := ih
    refine ⟨z, ?_⟩
    change groupBytes d c0 c1 c2 c3 ++ decodeText d (rest ++ y) = _
    rw [hz, knownBytes, append_assoc]
  | case2 c0 c1 c2 =>
    rcases y with _ | ⟨c3, y⟩
    · exact ⟨[byte3 (d c2) 0], rfl⟩
    · refine ⟨unlessEquals c3 (byte3 (d c2) (d c3)) ++ decodeText d y, ?_⟩
      change groupBytes d c0 c1 c2 c3 ++ decodeText d y = _
      rw [groupBytes, knownBytes, cons_append, append_assoc, cons_append]
  | case3 c0 c1 =>
    rcases y with _ | ⟨c2, _ | ⟨c3, y⟩⟩
    · exact ⟨[byte2 (d c1) 0], rfl⟩
    · exact ⟨unlessEquals c2 (byte2 (d c1) (d c2)) ++ [byte3 (d c2) 0], rfl⟩
    · exact ⟨_, rfl⟩
  | case4 text h4 h3 h2 =>
    refine ⟨decodeText d (text ++ y), ?_⟩
    rw [knownBytes.eq_4 d text h4 h3 h2, nil_append]

theorem credential_settled (h : Settled d text) (y : Bytes) :
    credential d (text ++ y) = credential d text := by
  by_cases hlong : 255 ≤ text.length
  · rw [credential, credential, take_append_of_le_length hlong]
  · have htake (y : Bytes) : ∃ y', (text ++ y).take 255 = text ++ y' := by
      refine ⟨y.take (255 - text.length), ?_⟩
      rw [take_append, take_of_length_le (by omega)]
    obtain ⟨y₁, hy₁⟩ := htake y
    obtain ⟨y₂, hy₂⟩ := htake []
    obtain ⟨z₁, hz₁⟩ := decodeText_append (d := d) text y₁
    obtain ⟨z₂, hz₂⟩ := decodeText_append (d := d) text y₂
    rw [append_nil] at hy₂
    rw [credential, credential, hy₁, hy₂, hz₁, hz₂]
    by_cases hnul : (0 : UInt8) ∈ knownBytes d text
    · refine congrArg readCredential (ext_bytes ?_)
      change cText _ = cText _
      rw [cText_append_of_mem hnul, cText_append_of_mem hnul]
    · rcases h with h | h | ⟨i, hcolon, hkept⟩
      · exact absurd h hlong
      · exact absurd h hnul
      · exact readCredential_of_long hnul hcolon hkept z₁ z₂

/-! ### Credentials that are open -/

theorem decodeText_groups {g : Bytes} (h : 4 ∣ g.length) (u : Bytes) :
    decodeText d (g ++ u) = knownBytes d g ++ decodeText d u ∧
      knownBytes d (g ++ u) = knownBytes d g ++ knownBytes d u := by
  induction g using knownBytes.induct with
  | case1 c0 c1 c2 c3 rest ih =>
    obtain ⟨hdecode, hknown⟩ := ih (by simp only [length_cons] at h; omega)
    constructor
    · change groupBytes d c0 c1 c2 c3 ++ decodeText d (rest ++ u) = _
      rw [hdecode, knownBytes, append_assoc]
    · change groupBytes d c0 c1 c2 c3 ++ knownBytes d (rest ++ u) = _
      rw [hknown, knownBytes, append_assoc]
  | case2 c0 c1 c2 | case3 c0 c1 =>
    simp only [length_cons, length_nil] at h
    omega
  | case4 g h4 h3 h2 =>
    rcases g with _ | ⟨c0, _ | ⟨c1, _ | ⟨c2, _ | ⟨c3, rest⟩⟩⟩⟩
    · exact ⟨rfl, rfl⟩
    · simp only [length_cons, length_nil] at h
      omega
    · exact absurd rfl (h2 c0 c1)
    · exact absurd rfl (h3 c0 c1 c2)
    · exact absurd rfl (h4 c0 c1 c2 c3 rest)

theorem exists_groups (text : Bytes) : ∃ g s, text = g ++ s ∧ 4 ∣ g.length ∧ s.length < 4 := by
  refine ⟨text.take (4 * (text.length / 4)), text.drop (4 * (text.length / 4)),
    (take_append_drop _ _).symm, ?_, ?_⟩
  · rw [length_take, min_eq_left (Nat.mul_div_le _ _)]
    exact Nat.dvd_mul_right 4 _
  · rw [length_drop]
    omega

end Settling

section Fork

theorem readCredential_ne {a : Bytes} (hnul : (0 : UInt8) ∉ a) (hcolon : a.idxOf? colon = some i)
    (hshort : a.length < i + 128) {x₁ x₂ : UInt8} (hne : x₁ ≠ x₂) (z₁ z₂ : Bytes) :
    readCredential (.ofBytes (a ++ x₁ :: z₁)) ≠ readCredential (.ofBytes (a ++ x₂ :: z₂)) := by
  have hnext (x : UInt8) (z : Bytes) :
      ((ofBytes (a.drop (i + 1) ++ x :: z)).truncate 127).bytes[a.length - (i + 1)]? =
        if x = 0 then none else some x := by
    change ((cText (a.drop (i + 1) ++ x :: z)).take 127)[a.length - (i + 1)]? = _
    rw [cText_append_of_notMem (notMem_take_drop hnul (i + 1)).2,
      getElem?_take_of_lt (by omega), getElem?_append_right (by simp), length_drop,
      Nat.sub_self]
    unfold cText
    by_cases hx : x = 0
    · simp [hx]
    · simp [hx]
  rw [readCredential_append hnul hcolon, readCredential_append hnul hcolon]
  intro heq
  have hpass := congrArg bytes (Prod.mk.inj (Option.some.inj heq)).2
  have hbyte := (hnext x₁ z₁).symm.trans ((congrArg (·[a.length - (i + 1)]?) hpass).trans
    (hnext x₂ z₂))
  split at hbyte <;> split at hbyte
  · rename_i h₁ h₂
    exact hne (h₁.trans h₂.symm)
  · cases hbyte
  · cases hbyte
  · exact hne (Option.some.inj hbyte)

theorem toNat_byte1 (d0 : Nat) {d1 : Nat} (h : d1 < 64) :
    (byte1 d0 d1).toNat = (4 * d0 + d1 / 16) % 256 := by
  rw [byte1, toNat_ofNat', Nat.shiftRight_eq_div_pow,
    ← Nat.shiftLeft_add_eq_or_of_lt (by omega), Nat.shiftLeft_eq]
  omega

theorem toNat_byte2 (d1 : Nat) {d2 : Nat} (h : d2 < 64) :
    (byte2 d1 d2).toNat = (16 * d1 + d2 / 4) % 256 := by
  rw [byte2, toNat_ofNat', Nat.shiftRight_eq_div_pow,
    ← Nat.shiftLeft_add_eq_or_of_lt (by omega), Nat.shiftLeft_eq]
  omega

theorem toNat_byte3 (d2 : Nat) {d3 : Nat} (h : d3 < 64) :
    (byte3 d2 d3).toNat = (64 * d2 + d3) % 256 := by
  rw [byte3, toNat_ofNat', ← Nat.shiftLeft_add_eq_or_of_lt (by omega), Nat.shiftLeft_eq]
  omega

def Plain (y : Bytes) : Prop := ∀ b ∈ y, b ≠ 0 ∧ b ≠ 10 ∧ b ≠ 13

instance : DecidablePred Plain := fun y =>
  List.decidableBAll (fun b => b ≠ 0 ∧ b ≠ 10 ∧ b ≠ 13) y

/-- The credential can be continued so that two different passwords come out. -/
def Forks (d : UInt8 → Nat) (text : Bytes) : Prop :=
  ∃ y₁ y₂ c₁ c₂, Plain y₁ ∧ Plain y₂ ∧ credential d (text ++ y₁) = some c₁ ∧
    credential d (text ++ y₂) = some c₂ ∧ c₁ ≠ c₂

theorem forks_of_decodeText {d : UInt8 → Nat} {a z₁ z₂ : Bytes} {x₁ x₂ : UInt8} (y₁ y₂ : Bytes)
    (hy₁ : Plain y₁) (hy₂ : Plain y₂) (hlen₁ : text.length + y₁.length ≤ 255)
    (hlen₂ : text.length + y₂.length ≤ 255) (h₁ : decodeText d (text ++ y₁) = a ++ x₁ :: z₁)
    (h₂ : decodeText d (text ++ y₂) = a ++ x₂ :: z₂) (hnul : (0 : UInt8) ∉ a)
    (hcolon : a.idxOf? colon = some i) (hshort : a.length < i + 128) (hne : x₁ ≠ x₂) :
    Forks d text := by
  have hread (y : Bytes) (hlen : text.length + y.length ≤ 255) :
      credential d (text ++ y) = readCredential (.ofBytes (decodeText d (text ++ y))) := by
    rw [credential, take_of_length_le]
    rw [length_append]
    exact hlen
  have hsome₁ := (hread y₁ hlen₁).trans (by rw [h₁, readCredential_append hnul hcolon])
  have hsome₂ := (hread y₂ hlen₂).trans (by rw [h₂, readCredential_append hnul hcolon])
  refine ⟨y₁, y₂, _, _, hy₁, hy₂, hsome₁, hsome₂, fun heq => ?_⟩
  have hsame := (hsome₁.trans (congrArg some heq)).trans hsome₂.symm
  rw [hread y₁ hlen₁, hread y₂ hlen₂, h₁, h₂] at hsame
  exact readCredential_ne hnul hcolon hshort hne z₁ z₂ hsame

variable (table : UInt8 → UInt8)

theorem forks_of_colon (hlen : text.length ≤ 254)
    (hnul : (0 : UInt8) ∉ knownBytes (sextet table) text)
    (hcolon : (knownBytes (sextet table) text).idxOf? colon = some i)
    (hshort : (knownBytes (sextet table) text).length < i + 128) : Forks (sextet table) text := by
  obtain ⟨g, s, rfl, hg, hs⟩ := exists_groups text
  have hnext (y₁ y₂ : UInt8) {x₁ x₂ : UInt8} {z₁ z₂ : Bytes} (hplain : Plain [y₁, y₂])
      (h₁ : decodeText (sextet table) (s ++ [y₁]) = knownBytes (sextet table) s ++ x₁ :: z₁)
      (h₂ : decodeText (sextet table) (s ++ [y₂]) = knownBytes (sextet table) s ++ x₂ :: z₂)
      (hne : x₁ ≠ x₂) : Forks (sextet table) (g ++ s) := by
    have hsplit (y x : UInt8) (z : Bytes)
        (h : decodeText (sextet table) (s ++ [y]) = knownBytes (sextet table) s ++ x :: z) :
        decodeText (sextet table) (g ++ s ++ [y]) =
          knownBytes (sextet table) (g ++ s) ++ x :: z := by
      rw [append_assoc, (decodeText_groups hg _).1, h, (decodeText_groups hg s).2, append_assoc]
    refine forks_of_decodeText [y₁] [y₂] ?_ ?_ ?_ ?_ (hsplit y₁ x₁ z₁ h₁)
      (hsplit y₂ x₂ z₂ h₂) hnul hcolon hshort hne
    · exact fun b hb => hplain b (by rw [mem_singleton.mp hb]; simp)
    · exact fun b hb => hplain b (by rw [mem_singleton.mp hb]; simp)
    · exact Nat.succ_le_succ hlen
    · exact Nat.succ_le_succ hlen
  have htoNat {x₁ x₂ : UInt8} (h : x₁.toNat ≠ x₂.toNat) : x₁ ≠ x₂ := fun heq => h (heq ▸ rfl)
  rcases s with _ | ⟨c0, _ | ⟨c1, _ | ⟨c2, _ | ⟨c3, s⟩⟩⟩⟩
  · -- `Q` and `R`
    refine hnext 81 82 (by decide) rfl rfl ?_
    change byte1 16 0 ≠ byte1 17 0
    decide
  · -- `Q` and `g`
    refine hnext 81 103 (by decide) rfl rfl (htoNat ?_)
    change (byte1 (sextet table c0) 16).toNat ≠ (byte1 (sextet table c0) 32).toNat
    rw [toNat_byte1 _ (by decide), toNat_byte1 _ (by decide)]
    omega
  · -- `E` and `I`
    refine hnext 69 73 (by decide) rfl rfl (htoNat ?_)
    change (byte2 (sextet table c1) 4).toNat ≠ (byte2 (sextet table c1) 8).toNat
    rw [toNat_byte2 _ (by decide), toNat_byte2 _ (by decide)]
    omega
  · -- `B` and `C`
    have hlast (c : UInt8) (hc : unlessEquals c = fun byte => [byte]) :
        decodeText (sextet table) ([c0, c1, c2] ++ [c]) =
          knownBytes (sextet table) [c0, c1, c2] ++
            byte3 (sextet table c2) (sextet table c) :: [] := by
      change groupBytes (sextet table) c0 c1 c2 c ++ [] = _
      rw [groupBytes, hc, append_nil, knownBytes, cons_append]
    refine hnext 66 67 (by decide) (hlast 66 rfl) (hlast 67 rfl) (htoNat ?_)
    change (byte3 (sextet table c2) 1).toNat ≠ (byte3 (sextet table c2) 2).toNat
    rw [toNat_byte3 _ (by decide), toNat_byte3 _ (by decide)]
    omega
  · simp only [length_cons] at hs
    omega

/-- Characters that bring the text to the start of a group, and the first sextet of a colon
with it. Then `o` and `p` make a colon, and differ in what follows it. -/
theorem forks_of_newColon {d : UInt8 → Nat} (ho : d 111 = 40) (hp : d 112 = 41)
    {g s : Bytes} (hg : 4 ∣ g.length)
    (hnul : (0 : UInt8) ∉ knownBytes d (g ++ s))
    (hcolon : colon ∉ knownBytes d (g ++ s)) (y m : Bytes) (hplain : Plain y)
    (hroom : (g ++ s).length + y.length ≤ 254) (hm : ∀ b ∈ m, b ≠ 0 ∧ b ≠ colon)
    (h : ∀ c, decodeText d (s ++ (y ++ [c])) = knownBytes d s ++
      (m ++ (unlessEquals c (byte2 19 (d c)) ++ [byte3 (d c) 0]))) :
    Forks d (g ++ s) := by
  have hsplit (c x : UInt8) (hc : unlessEquals c (byte2 19 (d c)) ++ [byte3 (d c) 0] = [colon, x]) :
      decodeText d (g ++ s ++ (y ++ [c])) = (knownBytes d (g ++ s) ++ m ++ [colon]) ++ x :: [] := by
    rw [append_assoc, (decodeText_groups hg _).1, h c, hc, (decodeText_groups hg s).2]
    simp
  have hplain' (c : UInt8) (hc : c ≠ 0 ∧ c ≠ 10 ∧ c ≠ 13) : Plain (y ++ [c]) :=
    forall_mem_append.mpr ⟨hplain, forall_mem_singleton.mpr hc⟩
  have hlast (c : UInt8) : (g ++ s).length + (y ++ [c]).length ≤ 255 := by
    have happend : (y ++ [c]).length = y.length + 1 := length_append
    omega
  refine forks_of_decodeText (y ++ [111]) (y ++ [112]) (hplain' 111 (by decide))
    (hplain' 112 (by decide)) (hlast 111) (hlast 112) (hsplit 111 0 (by rw [ho]; decide))
    (hsplit 112 64 (by rw [hp]; decide))
    (i := (knownBytes d (g ++ s) ++ m).length) ?_ ?_ ?_ (by decide)
  · simp only [mem_append, mem_singleton, not_or]
    exact ⟨⟨hnul, fun hin => (hm 0 hin).1 rfl⟩, by decide⟩
  · apply idxOf?_append_cons
    rw [mem_append, not_or]
    exact ⟨hcolon, fun hin => (hm colon hin).2 rfl⟩
  · have happend : (knownBytes d (g ++ s) ++ m ++ [colon]).length =
        (knownBytes d (g ++ s) ++ m).length + 1 := length_append
    omega

/-- Without a colon, the colon can still come, and a password after it. -/
theorem forks_of_noColon (hlen : text.length ≤ 253)
    (hnul : (0 : UInt8) ∉ knownBytes (sextet table) text)
    (hcolon : colon ∉ knownBytes (sextet table) text) : Forks (sextet table) text := by
  obtain ⟨g, s, rfl, hg, hs⟩ := exists_groups text
  have hnext := forks_of_newColon (d := sextet table) rfl rfl hg hnul hcolon
  have hroom {y : Bytes} (hy : g.length + s.length + y.length ≤ 254) :
      (g ++ s).length + y.length ≤ 254 := by
    rw [length_append]
    exact hy
  rw [length_append] at hlen
  have htoNat {x : UInt8} (h : x.toNat ≠ 0 ∧ x.toNat ≠ 58) : x ≠ 0 ∧ x ≠ colon :=
    ⟨fun heq => h.1 (heq ▸ rfl), fun heq => h.2 (heq ▸ rfl)⟩
  have hletters : ∀ b ∈ [byte1 0 19], b ≠ 0 ∧ b ≠ colon := forall_mem_singleton.mpr (by decide)
  rcases s with _ | ⟨c0, _ | ⟨c1, _ | ⟨c2, _ | ⟨c3, s⟩⟩⟩⟩
  · -- `AT`
    refine hnext [65, 84] [byte1 0 19] (by decide) (hroom ?_) hletters fun c => rfl
    simp only [length_cons, length_nil] at hlen ⊢
    omega
  · -- `T`
    refine hnext [84] [byte1 (sextet table c0) 19] (by decide) (hroom ?_) ?_ fun c => rfl
    · simp only [length_cons, length_nil] at hlen ⊢
      omega
    · refine forall_mem_singleton.mpr (htoNat ?_)
      rw [toNat_byte1 _ (by decide)]
      omega
  · -- `//AT`
    refine hnext [47, 47, 65, 84] [byte2 (sextet table c1) 63, byte3 63 63, byte1 0 19] (by decide)
      (hroom ?_) (forall_mem_cons.mpr ⟨htoNat ?_,
        forall_mem_cons.mpr ⟨by decide, hletters⟩⟩) fun c => rfl
    · simp only [length_cons, length_nil] at hlen ⊢
      omega
    · rw [toNat_byte2 _ (by decide)]
      omega
  · -- `/AT`
    refine hnext [47, 65, 84] [byte3 (sextet table c2) 63, byte1 0 19] (by decide) (hroom ?_)
      (forall_mem_cons.mpr ⟨htoNat ?_, hletters⟩) fun c => ?_
    · simp only [length_cons, length_nil] at hlen ⊢
      omega
    · rw [toNat_byte3 _ (by decide)]
      omega
    · change groupBytes (sextet table) c0 c1 c2 47 ++ decodeText (sextet table) [65, 84, c] = _
      rw [groupBytes, knownBytes, cons_append, cons_append, append_assoc]
      rfl
  · simp only [length_cons] at hs
    omega

/-- A credential that is not settled, with room for two more characters, can be continued in
two ways. -/
theorem forks_of_not_settled (hlen : text.length ≤ 253) (h : ¬ Settled (sextet table) text) :
    Forks (sextet table) text := by
  obtain ⟨-, hnul, hkept⟩ := not_or.mp h |>.imp_right not_or.mp
  cases hcolon : (knownBytes (sextet table) text).idxOf? colon with
  | none => exact forks_of_noColon table hlen hnul (idxOf?_eq_none_iff.mp hcolon)
  | some i =>
    refine forks_of_colon table (Nat.le_succ_of_le hlen) hnul hcolon ?_
    exact not_le.mp fun hle => hkept ⟨i, hcolon, hle⟩

end Fork

end Portal.Web
