import Portal.Modules.WebReads

/-!
Basic credentials from both ends (`base64_decode` and `parse_http_request` in
`modules/mod_web/mod_web.c`). The decoder works on a copy of at most 255 characters, so the longest
credentials lose their last `=`, and with it nothing. What the decoder touches on its way is listed
as `Access`es.

* `credential_encode` — every credential is read back.
-/

namespace Portal.Web

open List

variable {text : Bytes}

/-! ### Encoding -/

def base64Digits : Bytes :=
  (CStr.lit "ABCDEFGHIJKLMNOPQRSTUVWXYZabcdefghijklmnopqrstuvwxyz0123456789+/").bytes

def base64Digit (n : Nat) : UInt8 := base64Digits.getD n 0

def base64Encode : Bytes → Bytes
  | a :: b :: c :: rest =>
    base64Digit (a.toNat / 4) :: base64Digit (a.toNat % 4 * 16 + b.toNat / 16) ::
      base64Digit (b.toNat % 16 * 4 + c.toNat / 64) :: base64Digit (c.toNat % 64) ::
        base64Encode rest
  | [a, b] =>
    [base64Digit (a.toNat / 4), base64Digit (a.toNat % 4 * 16 + b.toNat / 16),
      base64Digit (b.toNat % 16 * 4), equals]
  | [a] => [base64Digit (a.toNat / 4), base64Digit (a.toNat % 4 * 16), equals, equals]
  | [] => []

section Digits

variable (table : UInt8 → UInt8)

theorem sextet_digit {n : Nat} (h : n < 64) : sextet table (base64Digit n) = n := by
  have hdigits : ∀ n < 64, base64Digit n ≤ 122 ∧ sextet (fun _ => 0) (base64Digit n) = n := by
    decide +kernel
  obtain ⟨hle, hvalue⟩ := hdigits n h
  have hlt : ¬ 122 < base64Digit n := UInt8.not_lt.mpr hle
  unfold sextet base64Value at hvalue ⊢
  rw [if_neg hlt] at hvalue ⊢
  exact hvalue

theorem unlessEquals_digit {n : Nat} (h : n < 64) (byte : UInt8) :
    unlessEquals (base64Digit n) byte = [byte] := by
  have hne : ∀ n < 64, base64Digit n ≠ equals := by decide +kernel
  rw [unlessEquals, if_neg (hne n h)]

theorem ofNat_join {hi lo k : Nat} {b : UInt8} (hlo : lo < 2 ^ k)
    (h : (hi * 2 ^ k + lo) % 256 = b.toNat) : UInt8.ofNat (hi <<< k ||| lo) = b := by
  apply UInt8.toNat_inj.mp
  rw [← Nat.shiftLeft_add_eq_or_of_lt hlo, Nat.shiftLeft_eq, UInt8.toNat_ofNat', ← h]

theorem byte1_join (a : UInt8) {x : Nat} (h : x < 16) :
    byte1 (a.toNat / 4) (a.toNat % 4 * 16 + x) = a := by
  have ha := a.toNat_lt
  have hshift : (a.toNat % 4 * 16 + x) >>> 4 = a.toNat % 4 := by
    rw [Nat.shiftRight_eq_div_pow]
    omega
  rw [byte1, hshift]
  exact ofNat_join (by omega) (by omega)

theorem byte2_join (b : UInt8) (y : Nat) {x : Nat} (h : x < 4) :
    byte2 (y * 16 + b.toNat / 16) (b.toNat % 16 * 4 + x) = b := by
  have hb := b.toNat_lt
  have hshift : (b.toNat % 16 * 4 + x) >>> 2 = b.toNat % 16 := by
    rw [Nat.shiftRight_eq_div_pow]
    omega
  rw [byte2, hshift]
  exact ofNat_join (by omega) (by omega)

theorem byte3_join (c : UInt8) (y : Nat) :
    byte3 (y * 4 + c.toNat / 64) (c.toNat % 64) = c := by
  have hc := c.toNat_lt
  exact ofNat_join (by omega) (by omega)

/-- A text is decoded again if at most the last `=` of its encoding is cut off. -/
theorem decodeText_encode (s : Bytes) {n : Nat} (hn : n % 4 = 3)
    (hlen : 4 * s.length < 3 * (n + 1)) :
    ∃ zeros, (∀ b ∈ zeros, b = 0) ∧
      decodeText (sextet table) ((base64Encode s).take n) = s ++ zeros := by
  have hzero (y : Nat) : byte3 (y * 4) 0 = 0 := ofNat_join (by omega) (by simp; omega)
  induction s using base64Encode.induct generalizing n with
  | case1 a b c rest ih =>
    rw [length_cons, length_cons, length_cons] at hlen
    obtain ⟨m, rfl⟩ : ∃ m, n = m + 4 := ⟨n - 4, by omega⟩
    obtain ⟨zeros, hzeros, hrest⟩ := @ih m (by omega) (by omega)
    have ha := a.toNat_lt
    have hb := b.toNat_lt
    have hc := c.toNat_lt
    refine ⟨zeros, hzeros, ?_⟩
    rw [base64Encode, take_succ_cons, take_succ_cons, take_succ_cons, take_succ_cons, decodeText,
      hrest, groupBytes, unlessEquals_digit (by omega), unlessEquals_digit (by omega),
      sextet_digit _ (by omega), sextet_digit _ (by omega), sextet_digit _ (by omega),
      sextet_digit _ (by omega), byte1_join a (by omega), byte2_join b _ (by omega), byte3_join]
    rfl
  | case2 a b =>
    have ha := a.toNat_lt
    have hb := b.toNat_lt
    have hd2 := byte2_join b (a.toNat % 4) (show 0 < 4 by decide)
    rw [add_zero] at hd2
    by_cases h3 : n = 3
    · refine ⟨[0], by simp, ?_⟩
      rw [h3, base64Encode, take_succ_cons, take_succ_cons, take_succ_cons, take_zero, decodeText,
        unlessEquals_digit (by omega), sextet_digit _ (by omega), sextet_digit _ (by omega),
        sextet_digit _ (by omega), byte1_join a (by omega), hd2, hzero]
      rfl
    · refine ⟨[], by simp, ?_⟩
      rw [take_of_length_le (by simp [base64Encode]; omega), base64Encode, decodeText, groupBytes,
        unlessEquals_digit (by omega), sextet_digit _ (by omega), sextet_digit _ (by omega),
        sextet_digit _ (by omega), byte1_join a (by omega), hd2, decodeText]
      rfl
  | case3 a =>
    have ha := a.toNat_lt
    have hd1 := byte1_join a (show 0 < 16 by decide)
    rw [add_zero] at hd1
    have hequals : sextet table equals = 0 * 4 := rfl
    by_cases h3 : n = 3
    · refine ⟨[0], by simp, ?_⟩
      rw [h3, base64Encode, take_succ_cons, take_succ_cons, take_succ_cons, take_zero, decodeText,
        sextet_digit _ (by omega), sextet_digit _ (by omega), hd1, hequals, hzero]
      rfl
    · refine ⟨[], by simp, ?_⟩
      rw [take_of_length_le (by simp [base64Encode]; omega), base64Encode, decodeText, groupBytes,
        sextet_digit _ (by omega), sextet_digit _ (by omega), hd1, decodeText]
      rfl
  | case4 => exact ⟨[], by simp, by rw [base64Encode, take_nil, decodeText]; rfl⟩

def encodedCredential (user pass : CStr) : Bytes :=
  base64Encode (user.bytes ++ colon :: pass.bytes)

theorem credential_encode {user pass : CStr} (huser : user.bytes.length ≤ 63)
    (hpass : pass.bytes.length ≤ 127) (hcolon : colon ∉ user.bytes) :
    credential (sextet table) (encodedCredential user pass) = some (user, pass) := by
  have hnul : (0 : UInt8) ∉ user.bytes ++ colon :: pass.bytes := by
    rw [mem_append, mem_cons]
    rintro (h | h | h)
    · exact user.nulFree h
    · cases h
    · exact pass.nulFree h
  have hfind : (user.bytes ++ colon :: pass.bytes).idxOf? colon = some user.bytes.length :=
    idxOf?_append_cons hcolon _
  obtain ⟨zeros, hzeros, hdecode⟩ := decodeText_encode table (user.bytes ++ colon :: pass.bytes)
    (show 255 % 4 = 3 by decide) (by simp only [length_append, length_cons]; omega)
  have hrest : CStr.ofBytes (pass.bytes ++ zeros) = pass :=
    (CStr.ext_bytes (cText_append_zeros pass.bytes hzeros)).trans pass.ofBytes_bytes
  have hdrop : (user.bytes ++ colon :: pass.bytes).drop (user.bytes.length + 1) = pass.bytes := by
    rw [← drop_drop, drop_left, drop_succ_cons, drop_zero]
  rw [credential, encodedCredential, hdecode, readCredential_append hnul hfind, take_left,
    CStr.ofBytes_bytes, CStr.truncate_eq_self huser, hdrop, hrest, CStr.truncate_eq_self hpass]

end Digits

/-! ### Requests with a credential -/

def basicLine (user pass : CStr) : Bytes := basicName.bytes ++ encodedCredential user pass

theorem headerValue_basicLine {user pass : CStr} (h : Plain (basicLine user pass)) :
    ∃ value, headerValue basicName (basicLine user pass) = some value ∧
      value.bytes = encodedCredential user pass := by
  have hnul : (0 : UInt8) ∉ encodedCredential user pass :=
    fun hmem => (h 0 (mem_append_right _ hmem)).1 rfl
  refine ⟨.ofBytes (encodedCredential user pass), ?_, cText_eq_self hnul⟩
  rw [headerValue, basicLine, take_left, if_pos rfl, drop_left]

/-- Whatever lies behind the request, its user and password are those its header line was made of,
if no later line has a credential. -/
theorem basic_parsed (left : Leftover) (user pass : CStr)
    (hshort : user.bytes.length ≤ 63) (hpass : pass.bytes.length ≤ 127)
    (hcolon : colon ∉ user.bytes) (t : HttpText) (ht : t.WellFormed)
    (hline : requestLine (t.line ++ crlf) ≠ none) (before after : List Bytes)
    (hheaders : t.headers = before ++ basicLine user pass :: after)
    (hlast : ∀ h ∈ after, headerValue basicName h = none) :
    ∃ req, parseHttpRequest left t.bytes = some req ∧ req.basicUser = user ∧
      req.basicPass = pass := by
  obtain ⟨r, hr⟩ := Option.ne_none_iff_exists'.mp hline
  have hplain : Plain (basicLine user pass) :=
    (ht.headers _ (hheaders ▸ mem_append_right _ mem_cons_self)).2
  have hbasic : basicOf left.table t.headers = (user, pass) := by
    have hcred := credential_encode left.table hshort hpass hcolon
    obtain ⟨value, hvalue, hbytes⟩ := headerValue_basicLine hplain
    rw [← hbytes] at hcred
    have hnone : after.filterMap (headerValue basicName) = [] := filterMap_eq_nil_iff.mpr hlast
    rw [basicOf, hheaders, filterMap_append, filterMap_cons_some hvalue, hnone,
      filterMap_append, filterMap_cons, hcred, filterMap_nil, getLast?_append]
    rfl
  obtain ⟨-, hread, -⟩ := foldl_readLine_spec left.table t.bytes r.2.1 r.2.2 t.headers
  rw [hbasic] at hread
  have hkey (req : HttpRequest) : (withApiKey req).basicUser = req.basicUser ∧
      (withApiKey req).basicPass = req.basicPass := by
    unfold withApiKey
    split <;> exact ⟨rfl, rfl⟩
  refine ⟨_, ?_, (hkey _).1.trans (Prod.mk.inj hread).1, (hkey _).2.trans (Prod.mk.inj hread).2⟩
  rw [parse_first ht prefix_rfl (le_length_bytes t) left, hr, linesOf_whole]
  rfl

def annText : HttpText where
  line := (CStr.lit "GET /api/a/x HTTP/1.1").bytes
  headers := [basicLine (.lit "ann") (.lit "pw")]
  body := []

theorem basic_parsed_ann :
    annText.headers = [(CStr.lit "Authorization: Basic YW5uOnB3").bytes] ∧
      ∃ req, parseHttpRequest ⟨[], [], fun _ => 0⟩ annText.bytes = some req ∧
        req.basicUser = .lit "ann" ∧ req.basicPass = .lit "pw" := by
  refine ⟨by decide +kernel, basic_parsed _ (.lit "ann") (.lit "pw") (by decide) (by decide)
    (by decide) annText ?_ (by decide +kernel) [] [] rfl (by rintro h ⟨⟩)⟩
  exact ⟨by decide +kernel, by decide +kernel, by decide +kernel⟩

/-! ### What the decoder touches -/

/-- An access of `base64_decode`: a character of the input, the entry of the table for a
character, or a byte of the output. -/
inductive Access where
  | input (k : Nat)
  | table (c : UInt8)
  | output (k : Nat)
deriving DecidableEq

/-- The input ends with its NUL, the table with the entry for `z`. -/
def Access.InBounds (len outLen : Nat) : Access → Prop
  | .input k => k ≤ len
  | .table c => c ≤ 122
  | .output k => k < outLen

/-- What the loop touches, and the NUL behind it. The last two characters of a group are always
read, and looked up only if they belong to the text. -/
def loopAccesses (left : Leftover) (mem : Bytes) (len cap : Nat) : Nat → Nat → Bytes → List Access
  | 0, _, out => [.output out.length]
  | fuel + 1, i, out =>
    if i < len ∧ out.length < cap then
      let next := base64Groups left mem len cap 1 i out
      (range 4).map (fun k => .input (i + k)) ++
        ((range 4).filter fun k => k < 2 ∨ i + k < len).map
          (fun k => .table (mem.getD (i + k) 0)) ++
        (range' out.length (next.length - out.length)).map .output ++
        loopAccesses left mem len cap fuel (i + 4) next
    else [.output out.length]

/-- The accesses of `base64_decode(b64, decoded, sizeof(decoded))` for the value of a header. -/
def base64Accesses (left : Leftover) (value : CStr) : List Access :=
  let text := (value.truncate 255).bytes
  loopAccesses left (text ++ 0 :: left.b64) text.length 255 text.length 0 []

/-- The decoder stays within its input, its table and its output. -/
def DecodesInBounds (left : Leftover) (value : CStr) : Prop :=
  ∀ a ∈ base64Accesses left value, a.InBounds (value.truncate 255).bytes.length 256

theorem length_loopGroup_le (d : UInt8 → Nat) (mem : Bytes) (len i : Nat) :
    (loopGroup d mem len i).length ≤ 3 := by
  have h2 := length_unlessEquals_le (mem.getD (i + 2) 0)
  have h3 := length_unlessEquals_le (mem.getD (i + 3) 0)
  rw [loopGroup, length_cons, length_append]
  exact Nat.succ_le_succ (add_le_add (h2 _) (h3 _))

/-- From `i` on, the text has characters of the table only, and no or three in its last group. -/
def WithinFrom (text : Bytes) (i : Nat) : Prop :=
  (i < text.length → (text.length - i) % 4 = 0 ∨ (text.length - i) % 4 = 3) ∧
    ∀ k, i ≤ k → k < text.length → text.getD k 0 ≤ 122

theorem withinFrom_step {i : Nat} (hi : i < text.length) :
    WithinFrom text i ↔ (i + 3 ≤ text.length ∧
      ∀ k < 4, i + k < text.length → text.getD (i + k) 0 ≤ 122) ∧ WithinFrom text (i + 4) := by
  constructor
  · rintro ⟨hmod, hchars⟩
    have hmod' := hmod hi
    exact ⟨⟨by omega, fun k _ => hchars (i + k) (by omega)⟩, fun _ => by omega,
      fun k hk => hchars k (by omega)⟩
  rintro ⟨⟨hlen, hgroup⟩, hmod, hchars⟩
  refine ⟨fun _ => ?_, fun k hk hlt => ?_⟩
  · by_cases hlast : i + 4 < text.length
    · have hmod' := hmod hlast
      omega
    · omega
  by_cases hk4 : k < i + 4
  · have hthis := hgroup (k - i) (by omega)
    rw [Nat.add_sub_cancel' hk] at hthis
    exact hthis hlt
  · exact hchars k (by omega) hlt

/-- The characters a group looks up are those of the text and perhaps the NUL. -/
theorem lookups_iff (left : Leftover) {i : Nat} (hi : i + 3 ≤ text.length) :
    (∀ k < 4, k < 2 ∨ i + k < text.length → (text ++ 0 :: left.b64).getD (i + k) 0 ≤ 122) ↔
      ∀ k < 4, i + k < text.length → text.getD (i + k) 0 ≤ 122 := by
  have hchar {k : Nat} (hk : i + k < text.length) :
      (text ++ 0 :: left.b64).getD (i + k) 0 = text.getD (i + k) 0 := by
    rw [getD_eq_getElem?_getD, getD_eq_getElem?_getD, getElem?_append_left hk]
  constructor
  · intro h k hk hlt
    rw [← hchar hlt]
    exact h k hk (.inr hlt)
  intro h k hk hread
  have hlt : i + k < text.length := by omega
  rw [hchar hlt]
  exact h k hk hlt

theorem ended_iff {out : Bytes} {i : Nat} (hi : text.length ≤ i) (hout : out.length < 256) :
    (∀ a ∈ [Access.output out.length], a.InBounds text.length 256) ↔ WithinFrom text i := by
  refine iff_of_true (fun a ha => ?_) ⟨fun h => by omega, fun k hk hlt => by omega⟩
  rw [mem_singleton.mp ha]
  exact hout

theorem loopAccesses_iff (left : Leftover) (hlen : text.length ≤ 255) {fuel i : Nat} {out : Bytes}
    (hfuel : text.length ≤ i + fuel) (hout : 4 * out.length ≤ 3 * i) (hi : i ≤ text.length + 3) :
    (∀ a ∈ loopAccesses left (text ++ 0 :: left.b64) text.length 255 fuel i out,
      a.InBounds text.length 256) ↔ WithinFrom text i := by
  -- over the groups: three bytes for four characters never fill the output
  induction fuel generalizing i out with
  | zero => exact ended_iff hfuel (by omega)
  | succ fuel ih =>
    rw [loopAccesses]
    split
    · rename_i hgo
      have hnext : base64Groups left (text ++ 0 :: left.b64) text.length 255 1 i out =
          out ++ loopGroup (sextet left.table) (text ++ 0 :: left.b64) text.length i :=
        base64Groups_step left _ hgo.1 (by omega)
      have hgroup := length_loopGroup_le (sextet left.table) (text ++ 0 :: left.b64) text.length i
      have hlength := congrArg length hnext
      rw [length_append] at hlength
      have hrest := @ih (i + 4) (base64Groups left (text ++ 0 :: left.b64) text.length 255 1 i out)
        (by omega) (by omega) (by omega)
      simp only [forall_mem_append, forall_mem_map, mem_filter, mem_range, mem_range'_1,
        decide_eq_true_eq, and_imp, hrest, withinFrom_step hgo.1]
      refine and_congr_left fun _ => ?_
      constructor
      · rintro ⟨⟨hinput, htable⟩, -⟩
        have hlast : i + 3 ≤ text.length := hinput 3 (by decide)
        exact ⟨hlast, (lookups_iff left hlast).mp htable⟩
      rintro ⟨hlast, hchars⟩
      refine ⟨⟨fun k hk => ?_, (lookups_iff left hlast).mpr hchars⟩, fun k _ hk => ?_⟩
      · exact (by omega : i + k ≤ text.length)
      · exact (by omega : k < 256)
    · exact ended_iff (by omega) (by omega)

/-- The decoder stays in bounds exactly for the values without characters behind `z` that do not
end with one or two characters of a group. -/
theorem base64_bounds_iff (left : Leftover) (value : CStr) :
    DecodesInBounds left value ↔ (∀ c ∈ (value.truncate 255).bytes, c ≤ 122) ∧
      ((value.truncate 255).bytes.length % 4 = 0 ∨ (value.truncate 255).bytes.length % 4 = 3) := by
  have hlen : (value.truncate 255).bytes.length ≤ 255 := length_take_le _ _
  refine (loopAccesses_iff left hlen (by omega) (Nat.le_refl _) (Nat.zero_le _)).trans ?_
  generalize (value.truncate 255).bytes = text
  have hchars : (∀ k, 0 ≤ k → k < text.length → text.getD k 0 ≤ 122) ↔ ∀ c ∈ text, c ≤ 122 := by
    rw [forall_mem_iff_getElem]
    refine forall_congr' fun k => ⟨fun h hk => ?_, fun h _ hk => ?_⟩
    · rw [← getD_eq_getElem text 0 hk]
      exact h (Nat.zero_le k) hk
    · rw [getD_eq_getElem text 0 hk]
      exact h hk
  rw [WithinFrom, hchars, and_comm, Nat.sub_zero]
  refine and_congr_right fun _ => ⟨fun h => ?_, fun h _ => h⟩
  by_cases h0 : 0 < text.length
  · exact h h0
  · omega

/-- A single character is followed by its NUL, and the decoder reads on; a byte above `z` has no
entry in the table. -/
theorem base64_bounds_false :
    ¬ DecodesInBounds ⟨[], [], fun _ => 0⟩ (.lit "A") ∧
      ¬ DecodesInBounds ⟨[], [], fun _ => 0⟩ (.lit "abc~") := by
  constructor
  · intro h
    exact absurd (h (.input 2) (by decide +kernel)) (by decide : ¬ 2 ≤ 1)
  · intro h
    exact absurd (h (.table 126) (by decide +kernel)) (by decide : ¬ (126 : UInt8) ≤ 122)

end Portal.Web
