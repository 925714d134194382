import Portal.Core.Session

/-!
Hashed passwords (`portal_auth_hash_password` and `portal_auth_check_password` of
`src/core/core_auth.c`). What is hashed is salt and password in a buffer of 384 bytes; what is
stored is `$sha256$`, the salt, a `$` and the digest.
-/

namespace Portal

open List

def HexDigest (sha256Hex : Bytes → CStr) : Prop := ∀ text, (sha256Hex text).bytes.length = 64

/-- The check accepts `q` for the hash of `p` exactly when the digests are the same, and the
hash is stored whole. -/
structure Verified (sha256Hex : Bytes → CStr) (salt p q : CStr) : Prop where
  check : portalAuthCheckPassword sha256Hex (portalAuthHashPassword sha256Hex p salt 256) q = true ↔
    sha256Hex (salt.bytes ++ q.bytes) = sha256Hex (salt.bytes ++ p.bytes)
  fits : ∀ outLen, 256 ≤ outLen → portalAuthHashPassword sha256Hex p salt outLen =
    portalAuthHashPassword sha256Hex p salt 256 ∧
      (portalAuthHashPassword sha256Hex p salt 256).bytes.length < 256

def FitsHashed (salt p : CStr) : Prop := salt.bytes.length + p.bytes.length ≤ 383

section Hashing

variable {sha256Hex : Bytes → CStr} {salt p q : CStr}

def hashedText (salt p : CStr) : Bytes := (salt.bytes ++ p.bytes).take 383

theorem hashPassword_bytes (hsha : HexDigest sha256Hex) (hsalt : salt.bytes.length ≤ 64)
    {outLen : Nat} (hout : 256 ≤ outLen) :
    (portalAuthHashPassword sha256Hex p salt outLen).bytes =
      authHashPrefix.bytes ++ (salt.bytes ++ dollar :: (sha256Hex (hashedText salt p)).bytes) := by
  have hprefix : authHashPrefix.bytes.length = 8 := by decide
  have hlit : (CStr.lit "$").bytes = [dollar] := by decide
  have hhex := hsha (hashedText salt p)
  change ((authHashPrefix.bytes ++ salt.bytes) ++ ((CStr.lit "$").bytes ++
    (sha256Hex (hashedText salt p)).bytes)).take (outLen - 1) = _
  rw [hlit, take_of_length_le]
  · rw [append_assoc]
    rfl
  · simp only [length_append, length_singleton, hprefix, hhex]
    omega

/-- The salt is found again, so the check compares two digests. -/
theorem checkPassword_hashPassword (hsha : HexDigest sha256Hex) (hsalt : salt.bytes.length ≤ 64)
    (hdollar : dollar ∉ salt.bytes) :
    portalAuthCheckPassword sha256Hex (portalAuthHashPassword sha256Hex p salt 256) q = true ↔
      sha256Hex (hashedText salt q) = sha256Hex (hashedText salt p) := by
  have hstored := @hashPassword_bytes sha256Hex salt p hsha hsalt 256 (le_refl _)
  have hentered := @hashPassword_bytes sha256Hex salt q hsha hsalt 256 (le_refl _)
  have hfind : (salt.bytes ++ dollar :: (sha256Hex (hashedText salt p)).bytes).idxOf? dollar =
      some salt.bytes.length := idxOf?_append_cons hdollar _
  have hagain : CStr.ofBytes ((salt.bytes ++ dollar ::
      (sha256Hex (hashedText salt p)).bytes).take salt.bytes.length) = salt := by
    rw [take_left, CStr.ofBytes_bytes]
  rw [portalAuthCheckPassword, hstored, if_pos (List.prefix_append _ _), drop_left]
  simp only [hfind, if_neg (show ¬ 65 ≤ salt.bytes.length by omega), hagain, decide_eq_true_eq]
  constructor
  · intro heq
    have hbytes := congrArg CStr.bytes heq
    rw [hstored, hentered] at hbytes
    have hdigest := (List.cons.inj (append_cancel_left (append_cancel_left hbytes))).2
    exact CStr.ext_bytes hdigest.symm
  · intro heq
    apply CStr.ext_bytes
    rw [hstored, hentered, heq]

end Hashing

/-! ### Passwords that do not fit -/

def markDigest (mark text : Bytes) : CStr :=
  ⟨List.replicate 64 (if text = mark then 49 else 48), by
    intro h
    have := eq_of_mem_replicate h
    split at this <;> cases this⟩

theorem hexDigest_mark (mark : Bytes) : HexDigest (markDigest mark) :=
  fun _ => length_replicate

theorem markDigest_eq_iff {mark x y : Bytes} :
    markDigest mark x = markDigest mark y ↔ (x = mark ↔ y = mark) := by
  have hbytes (t : Bytes) : (markDigest mark t).bytes[0]? = some (if t = mark then 49 else 48) := by
    rfl
  constructor
  · intro h
    have hfirst := hbytes x
    rw [h, hbytes y, Option.some.injEq] at hfirst
    by_cases hx : x = mark <;> by_cases hy : y = mark <;> simp_all
  intro h
  by_cases hx : x = mark
  · simp only [markDigest, hx, h.mp hx]
  · simp only [markDigest, if_neg hx, if_neg (h.not.mp hx)]

/-- A text that does not fit can be taken for another one, or not be taken for itself. -/
theorem exists_confused {x y : Bytes} (hne : x ≠ y) (hlong : 383 < x.length) :
    ∃ mark, ¬ (markDigest mark (y.take 383) = markDigest mark (x.take 383) ↔
      markDigest mark y = markDigest mark x) := by
  have hcut : x.take 383 ≠ x := by
    intro heq
    have := congrArg List.length heq
    rw [length_take] at this
    omega
  by_cases hsame : y.take 383 = x.take 383
  · refine ⟨x, fun h => hne ?_⟩
    exact ((markDigest_eq_iff.mp (h.mp (congrArg _ hsame))).mpr rfl).symm
  · have hother : y ≠ x.take 383 := by
      rintro rfl
      exact hsame (take_take.trans (by rw [min_self]))
    refine ⟨x.take 383, fun h => hsame ?_⟩
    have hboth : markDigest (x.take 383) y = markDigest (x.take 383) x :=
      markDigest_eq_iff.mpr ⟨fun heq => absurd heq hother, fun heq => absurd heq.symm hcut⟩
    exact (markDigest_eq_iff.mp (h.mpr hboth)).mpr rfl

/-- For a salt without `$` of at most 64 bytes, the check is right for every digest exactly when
both passwords fit behind the salt, or are the same. -/
theorem password_verified_iff (salt p q : CStr) (hsalt : salt.bytes.length ≤ 64)
    (hdollar : dollar ∉ salt.bytes) :
    (∀ sha256Hex, HexDigest sha256Hex → Verified sha256Hex salt p q) ↔
      p = q ∨ FitsHashed salt p ∧ FitsHashed salt q := by
  constructor
  · intro h
    by_contra hnot
    obtain ⟨hne, hlong⟩ := not_or.mp hnot
    have htexts : salt.bytes ++ p.bytes ≠ salt.bytes ++ q.bytes :=
      fun heq => hne (CStr.ext_bytes (append_cancel_left heq))
    -- the property for a digest is about the two texts that are hashed
    have hiff (mark : Bytes) : markDigest mark (hashedText salt q) =
        markDigest mark (hashedText salt p) ↔
          markDigest mark (salt.bytes ++ q.bytes) = markDigest mark (salt.bytes ++ p.bytes) :=
      (checkPassword_hashPassword (hexDigest_mark mark) hsalt hdollar).symm.trans
        (h _ (hexDigest_mark mark)).check
    by_cases hp : FitsHashed salt p
    · have hq : 383 < (salt.bytes ++ q.bytes).length := by
        rw [length_append]
        exact not_le.mp fun hq => hlong ⟨hp, hq⟩
      obtain ⟨mark, hmark⟩ := exists_confused htexts.symm hq
      exact hmark (eq_comm.trans ((hiff mark).trans eq_comm))
    · have hlen : 383 < (salt.bytes ++ p.bytes).length := by
        rw [length_append]
        exact not_le.mp hp
      obtain ⟨mark, hmark⟩ := exists_confused htexts hlen
      exact hmark (hiff mark)
  · intro hcond sha256Hex hsha
    constructor
    · rw [checkPassword_hashPassword hsha hsalt hdollar]
      rcases hcond with rfl | ⟨hp, hq⟩
      · exact ⟨fun _ => rfl, fun _ => rfl⟩
      · rw [hashedText, hashedText, take_of_length_le, take_of_length_le]
        · rw [length_append]
          exact hp
        · rw [length_append]
          exact hq
    intro outLen hout
    have hstored := @hashPassword_bytes sha256Hex salt p hsha hsalt 256 (le_refl _)
    refine ⟨CStr.ext_bytes ((hashPassword_bytes hsha hsalt hout).trans hstored.symm), ?_⟩
    exact Nat.lt_succ_of_le (length_take_le 255 _)

/-- A short password. -/
theorem password_verified_short : HexDigest (markDigest []) ∧
    ∀ sha256Hex, HexDigest sha256Hex → Verified sha256Hex (.lit "pepper") (.lit "a") (.lit "b") :=
  ⟨hexDigest_mark [],
    (password_verified_iff (.lit "pepper") (.lit "a") (.lit "b") (by decide) (by decide)).mpr
      (.inr ⟨(by decide : 6 + 1 ≤ 383), (by decide : 6 + 1 ≤ 383)⟩)⟩

def longPassword (last : UInt8) (h : last ≠ 0) : CStr :=
  ⟨List.replicate 399 97 ++ [last], by
    rw [mem_append, not_or]
    exact ⟨fun hmem => absurd (eq_of_mem_replicate hmem) (by decide),
      fun hmem => h (List.mem_singleton.mp hmem).symm⟩⟩

/-- Two such passwords pass for each other, whatever digest tells them apart. -/
theorem password_verified_false :
    ∃ p q : CStr, p ≠ q ∧ ∀ sha256Hex, HexDigest sha256Hex → sha256Hex p.bytes ≠ sha256Hex q.bytes →
      portalAuthCheckPassword sha256Hex (portalAuthHashPassword sha256Hex p (.lit "") 256) q =
        true := by
  refine ⟨longPassword 98 (by decide), longPassword 99 (by decide), by decide +kernel, ?_⟩
  intro sha256Hex hsha _
  rw [checkPassword_hashPassword hsha (by decide) (by decide)]
  exact congrArg sha256Hex (by decide +kernel)

end Portal
