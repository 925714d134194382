import Portal.Modules.HttpLines

/-!
What lies behind a request in the buffer, and the request that is read (`parse_http_request` in
`modules/mod_web/mod_web.c`). The buffer is on the stack and not terminated, so the searches for
the ends of lines run on into what an earlier call has left there.

* `parse_isolated_iff` — the requests that are read the same whatever lies behind them.
-/

namespace Portal.Web

open List Option

variable {y : Bytes} (req : HttpRequest)

/-! ### Cut lines that say nothing new -/

/-- The line leaves the request that is returned as it is. -/
def NoEffect (table : UInt8 → UInt8) (base : HttpRequest) (line : Bytes) : Prop :=
  withApiKey (readLine table base line) = withApiKey base

/-- As far as the cut line goes it repeats what the request says, and where it can become one of
the three headers, it goes so far that what follows has no influence on the value. -/
structure Harmless (table : UInt8 → UInt8) (base : HttpRequest) (cut : Bytes) : Prop where
  asIs : NoEffect table base cut
  ended : cut.getLast? = some 13 → NoEffect table base cut.dropLast
  bearer : Agrees bearerName cut → 22 + 127 ≤ cut.length
  basic : Agrees basicName cut → 21 ≤ cut.length ∧
    (Settled (sextet table) (cut.drop 21) ∨
      21 + 254 ≤ cut.length ∧
        ∀ c, c ≠ 0 → strstr crlf (cut ++ [c]) = none → NoEffect table base (cut ++ [c]))
  contentType : Agrees contentTypeName cut → 14 + 63 ≤ cut.length

section Harmless

variable {table : UInt8 → UInt8} {base : HttpRequest} {cut : Bytes}

theorem truncate_ofBytes_append {a : Bytes} {k : Nat} (ha : (0 : UInt8) ∉ a) (hk : k ≤ a.length) :
    (CStr.ofBytes (a ++ y)).truncate k = (CStr.ofBytes a).truncate k := by
  apply CStr.ext_bytes
  change (cText (a ++ y)).take k = (cText a).take k
  rw [cText_append_of_notMem ha, cText_eq_self ha, take_append_of_le_length hk]

theorem headerValue_longer {name : CStr} (h : Agrees name cut)
    (hlen : name.bytes.length ≤ cut.length) (y : Bytes) :
    headerValue name (cut ++ y) = some (.ofBytes (cut.drop name.bytes.length ++ y)) := by
  have hvalue := headerValue_of_agrees h y
  rwa [drop_eq_nil_of_le hlen, nil_append] at hvalue

theorem headerValue_asIs {name : CStr} (h : Agrees name cut)
    (hlen : name.bytes.length ≤ cut.length) :
    headerValue name cut = some (.ofBytes (cut.drop name.bytes.length)) := by
  have hvalue := headerValue_longer h hlen []
  rwa [append_nil, append_nil] at hvalue

/-- A credential that the rest of the name and more characters complete. -/
theorem readLine_credential (table : UInt8 → UInt8) (base : HttpRequest) (h : Agrees basicName cut)
    (hnul : (0 : UInt8) ∉ cut) (hy : (0 : UInt8) ∉ y) :
    readLine table base (cut ++ (basicName.bytes.drop cut.length ++ y)) =
      (credential (sextet table) (cut.drop 21 ++ y)).elim base fun c =>
        { base with basicUser := c.1, basicPass := c.2 } := by
  have hbytes : (CStr.ofBytes (cut.drop 21 ++ y)).bytes = cut.drop 21 ++ y := by
    apply cText_eq_self
    rw [mem_append, not_or]
    exact ⟨fun hin => hnul (mem_of_mem_drop hin), hy⟩
  rw [readLine_basic table base (headerValue_of_agrees h y)]
  change (credential _ (CStr.ofBytes (cut.drop 21 ++ y)).bytes).elim _ _ = _
  rw [hbytes]

theorem headerValue_full {name : CStr} {size : Nat} (hnul : (0 : UInt8) ∉ cut)
    (hagrees : Agrees name cut) (hlen : name.bytes.length + size ≤ cut.length) (y : Bytes) :
    ∃ v v', headerValue name (cut ++ y) = some v ∧ headerValue name cut = some v' ∧
      v.truncate size = v'.truncate size := by
  have hname : name.bytes.length ≤ cut.length := Nat.le_of_add_right_le hlen
  refine ⟨_, _, headerValue_longer hagrees hname y, headerValue_asIs hagrees hname, ?_⟩
  refine truncate_ofBytes_append (fun hin => hnul (mem_of_mem_drop hin)) ?_
  rw [length_drop]
  exact Nat.le_sub_of_add_le' hlen

/-- A longer credential is the same one, or one of which only one more character is read. -/
theorem Harmless.basic_longer (h : Harmless table base cut) (hnul : (0 : UInt8) ∉ cut)
    (hagrees : Agrees basicName cut) (hy : (0 : UInt8) ∉ y)
    (hfree : strstr crlf (cut ++ y) = none) :
    NoEffect table base (cut ++ y) := by
  obtain ⟨hlen, hsettled⟩ := h.basic hagrees
  have hread {y : Bytes} (hy : (0 : UInt8) ∉ y) : readLine table base (cut ++ y) =
      (credential (sextet table) (cut.drop 21 ++ y)).elim base fun c =>
        { base with basicUser := c.1, basicPass := c.2 } := by
    have hline := readLine_credential table base hagrees hnul hy
    rwa [drop_eq_nil_of_le (show basicName.bytes.length ≤ cut.length from hlen),
      nil_append] at hline
  have hsame (y' : Bytes) (hy' : (0 : UInt8) ∉ y') (hno : NoEffect table base (cut ++ y'))
      (heq : credential (sextet table) (cut.drop 21 ++ y) =
        credential (sextet table) (cut.drop 21 ++ y')) : NoEffect table base (cut ++ y) := by
    rw [NoEffect, hread hy, heq, ← hread hy']
    exact hno
  have hasIs : NoEffect table base (cut ++ []) := by
    rw [append_nil]
    exact h.asIs
  rcases hsettled with hsettled | ⟨hlong, hone⟩
  · refine hsame [] not_mem_nil hasIs ?_
    rw [credential_settled hsettled, append_nil]
  · rcases y with _ | ⟨c, y⟩
    · exact hasIs
    · -- only one more character is read
      have hc : c ≠ 0 := fun heq => hy (heq ▸ mem_cons_self)
      have hsplit (a : Bytes) : a ++ c :: y = (a ++ [c]) ++ y := by
        rw [append_assoc, singleton_append]
      refine hsame [c] (fun hin => hc (mem_singleton.mp hin).symm) (hone c hc ?_) ?_
      · refine eq_none_iff_forall_ne_some.mpr fun n hn => ?_
        rw [hsplit, strstr_append hn] at hfree
        cases hfree
      · rw [hsplit, credential, take_append_of_le_length, credential]
        rw [length_append, length_drop, length_singleton]
        omega

theorem Harmless.longer (h : Harmless table base cut) (hnul : (0 : UInt8) ∉ cut)
    (hy : (0 : UInt8) ∉ y) (hfree : strstr crlf (cut ++ y) = none) :
    NoEffect table base (cut ++ y) := by
  by_cases hbearer : headerValue bearerName (cut ++ y) = none
  · by_cases hbasic : headerValue basicName (cut ++ y) = none
    · by_cases htype : headerValue contentTypeName (cut ++ y) = none
      · exact congrArg withApiKey (readLine_other table base hbearer hbasic htype)
      · have hagrees := agrees_of_headerValue htype
        obtain ⟨v, v', hv, hv', heq⟩ := headerValue_full hnul hagrees (h.contentType hagrees) y
        rw [NoEffect, readLine_contentType table base hv, heq,
          ← readLine_contentType table base hv']
        exact h.asIs
    · exact h.basic_longer hnul (agrees_of_headerValue hbasic) hy hfree
  · have hagrees := agrees_of_headerValue hbearer
    obtain ⟨v, v', hv, hv', heq⟩ := headerValue_full hnul hagrees (h.bearer hagrees) y
    rw [NoEffect, readLine_bearer table base hv, heq, ← readLine_bearer table base hv']
    exact h.asIs

theorem plain_drop (name : CStr) (h : Plain name.bytes) (n : Nat) (hy : Plain y) :
    Plain (name.bytes.drop n ++ y) :=
  forall_mem_append.mpr ⟨fun b hb => h b (mem_of_mem_drop hb), hy⟩

theorem nul_notMem_of_plain (hy : Plain y) : (0 : UInt8) ∉ y :=
  fun hin => (hy 0 hin).1 rfl

theorem bytes_truncate_ofBytes {a : Bytes} {c : UInt8} (k : Nat) (ha : (0 : UInt8) ∉ a)
    (hc : c ≠ 0) : ((CStr.ofBytes (a ++ [c])).truncate k).bytes = (a ++ [c]).take k := by
  change (cText (a ++ [c])).take k = _
  rw [cText_eq_self]
  rw [mem_append, not_or]
  exact ⟨ha, fun hin => hc (mem_singleton.mp hin).symm⟩

/-- A field with room for more tells two continuations of a value apart. -/
theorem length_of_same_values {k size : Nat} (hnul : (0 : UInt8) ∉ cut) (hsize : 0 < size)
    (h : (CStr.ofBytes (cut.drop k ++ [65])).truncate size =
      (CStr.ofBytes (cut.drop k ++ [66])).truncate size) : k + size ≤ cut.length := by
  by_contra hshort
  have hdrop : (0 : UInt8) ∉ cut.drop k := fun hin => hnul (mem_of_mem_drop hin)
  have hroom (c : UInt8) : (cut.drop k ++ [c]).length ≤ size := by
    rw [length_append, length_drop, length_singleton]
    omega
  have hsame := congrArg CStr.bytes h
  rw [bytes_truncate_ofBytes size hdrop (by decide), bytes_truncate_ofBytes size hdrop (by decide),
    take_of_length_le (hroom 65), take_of_length_le (hroom 66)] at hsame
  simp at hsame

theorem withApiKey_of_token {req : HttpRequest} (h : req.authToken.bytes ≠ []) :
    withApiKey req = req := if_neg h

theorem contentType_withApiKey : (withApiKey req).contentType = req.contentType := by
  unfold withApiKey
  split <;> rfl

theorem basic_withApiKey : (withApiKey req).basicUser = req.basicUser ∧
    (withApiKey req).basicPass = req.basicPass := by
  unfold withApiKey
  split <;> exact ⟨rfl, rfl⟩

section Necessary

variable (hnul : (0 : UInt8) ∉ cut) (hplain : ∀ y, Plain y → NoEffect table base (cut ++ y))
include hnul hplain

theorem length_of_agrees_bearer (hagrees : Agrees bearerName cut) : 22 + 127 ≤ cut.length := by
  have hdrop : (0 : UInt8) ∉ cut.drop 22 := fun hin => hnul (mem_of_mem_drop hin)
  have htoken (c : UInt8) (hc : Plain [c]) : (withApiKey base).authToken =
      (CStr.ofBytes (cut.drop 22 ++ [c])).truncate 127 := by
    have hno := hplain _ (plain_drop bearerName (by decide) cut.length hc)
    rw [NoEffect, readLine_bearer table base (headerValue_of_agrees hagrees [c]),
      withApiKey_of_token] at hno
    · rw [← hno]
      rfl
    · have hbytes := bytes_truncate_ofBytes 127 hdrop (hc c mem_cons_self).1
      change ((CStr.ofBytes (cut.drop 22 ++ [c])).truncate 127).bytes ≠ []
      simp [hbytes]
  exact length_of_same_values hnul (by decide)
    ((htoken 65 (by decide)).symm.trans (htoken 66 (by decide)))

theorem length_of_agrees_contentType (hagrees : Agrees contentTypeName cut) :
    14 + 63 ≤ cut.length := by
  have htype (c : UInt8) (hc : Plain [c]) : base.contentType =
      (CStr.ofBytes (cut.drop 14 ++ [c])).truncate 63 := by
    have hno := congrArg HttpRequest.contentType
      (hplain _ (plain_drop contentTypeName (by decide) cut.length hc))
    rw [contentType_withApiKey, contentType_withApiKey,
      readLine_contentType table base (headerValue_of_agrees hagrees [c])] at hno
    exact hno.symm
  exact length_of_same_values hnul (by decide)
    ((htype 65 (by decide)).symm.trans (htype 66 (by decide)))

/-- A credential that can be continued in two ways is not without effect. -/
theorem not_forks_of_agrees (hagrees : Agrees basicName cut) :
    ¬ Forks (sextet table) (cut.drop 21) := by
  rintro ⟨y₁, y₂, c₁, c₂, hy₁, hy₂, h₁, h₂, hne⟩
  have hcredential {y : Bytes} {c : CStr × CStr} (hy : Plain y)
      (h : credential (sextet table) (cut.drop 21 ++ y) = some c) :
      (base.basicUser, base.basicPass) = c := by
    have hno := hplain _ (plain_drop basicName (by decide) cut.length hy)
    rw [NoEffect, readLine_credential table base hagrees hnul (nul_notMem_of_plain hy), h] at hno
    have huser := congrArg HttpRequest.basicUser hno
    have hpass := congrArg HttpRequest.basicPass hno
    rw [(basic_withApiKey _).1, (basic_withApiKey _).1] at huser
    rw [(basic_withApiKey _).2, (basic_withApiKey _).2] at hpass
    exact Prod.ext huser.symm hpass.symm
  exact hne ((hcredential hy₁ h₁).symm.trans (hcredential hy₂ h₂))

end Necessary

theorem not_settled_nil (d : UInt8 → Nat) : ¬ Settled d [] := by
  rintro (hlen | hnul | ⟨i, hcolon, -⟩)
  · cases hlen
  · cases hnul
  · cases hcolon

theorem harmless_of_noEffect (hnul : (0 : UInt8) ∉ cut)
    (hplain : ∀ y, Plain y → NoEffect table base (cut ++ y))
    (hended : cut.getLast? = some 13 → NoEffect table base cut.dropLast)
    (hone : ∀ c, c ≠ 0 → strstr crlf (cut ++ [c]) = none → NoEffect table base (cut ++ [c])) :
    Harmless table base cut where
  asIs := by
    have hno := hplain [] (by decide)
    rwa [append_nil] at hno
  ended := hended
  bearer := length_of_agrees_bearer hnul hplain
  contentType := length_of_agrees_contentType hnul hplain
  basic hagrees := by
    have hforks := not_forks_of_agrees hnul hplain hagrees
    have hopen (h : ¬ Settled (sextet table) (cut.drop 21)) : 253 < (cut.drop 21).length :=
      not_le.mp fun hle => hforks (forks_of_not_settled table hle h)
    have hlen : 21 ≤ cut.length := by
      by_contra hshort
      rw [drop_eq_nil_of_le (by omega)] at hopen
      exact absurd (hopen (not_settled_nil _)) (by decide)
    refine ⟨hlen, ?_⟩
    by_cases hsettled : Settled (sextet table) (cut.drop 21)
    · exact .inl hsettled
    · have hlong := hopen hsettled
      rw [length_drop] at hlong
      exact .inr ⟨by omega, hone⟩

end Harmless

/-! ### Closed requests -/

def HttpRequest.zero : HttpRequest where
  method := .lit ""
  path := .lit ""
  query := .lit ""
  authToken := .lit ""
  basicUser := .lit ""
  basicPass := .lit ""
  contentType := .lit ""
  body := []

/-- The status, and what is in the request: when it is refused, at most the method. -/
def parseResult (left : Leftover) (raw : Bytes) : Int × HttpRequest :=
  match parseHttpRequest left raw with
  | some req => (0, req)
  | none => (-1, { HttpRequest.zero with
      method := (methodWord (cText (raw ++ left.raw))).elim (.lit "") fun m => m.2.1 })

/-- A request line that is cut off is too long already, or so long that only a CR LF can
follow, and has no word. -/
def LongLine (raw : Bytes) : Prop :=
  2049 ≤ raw.length ∨ (raw.length = 2048 ∧ raw.getLast? ≠ some 13) ∨
    2047 ≤ raw.length ∧ ∀ b ∈ raw.take 2047, isSpace b = true

def headRequest (table : UInt8 → UInt8) (raw : Bytes) (ll : Nat) (method fullPath : CStr) :
    HttpRequest :=
  (completeLines (raw.length + 1) (raw.drop (ll + 2))).1.foldl (readLine table)
    (startRequest raw method fullPath)

/-- The bytes read leave nothing open. -/
def Closed (table : UInt8 → UInt8) (raw : Bytes) : Prop :=
  (0 : UInt8) ∉ raw → (strstr crlf raw = none → LongLine raw) ∧
    ∀ ll method fullPath cut, requestLine raw = some (ll, method, fullPath) →
      (completeLines (raw.length + 1) (raw.drop (ll + 2))).2 = some cut →
      Harmless table (headRequest table raw ll method fullPath) cut

section Results

variable {table : UInt8 → UInt8} {raw : Bytes}

theorem parseResult_refused {left : Leftover}
    (h : requestLine (cText (raw ++ left.raw)) = none) :
    parseResult left raw = (-1, { HttpRequest.zero with
      method := (methodWord (cText (raw ++ left.raw))).elim (.lit "") fun m => m.2.1 }) := by
  rw [parseResult, parseHttpRequest_eq, h]
  rfl

theorem parseResult_read {left : Leftover} {ll : Nat} {method fullPath : CStr}
    (h : requestLine (cText (raw ++ left.raw)) = some (ll, method, fullPath)) :
    parseResult left raw = (0, withApiKey ((headerLines (raw ++ left.raw) raw.length
      (raw.length + 1) (ll + 2)).foldl (readLine left.table)
        (startRequest raw method fullPath))) := by
  rw [parseResult, parseHttpRequest_eq, h, headerLine_eq]
  rfl

variable {text : Bytes} {n : Nat}

theorem strstr_of_requestLine {r : Nat × CStr × CStr}
    (h : requestLine text = some r) : strstr crlf text = some r.1 := by
  obtain ⟨m, hm, hpath⟩ := bind_eq_some_iff.mp h
  obtain ⟨w, -, rfl⟩ := map_eq_some_iff.mp hpath
  obtain ⟨ll, hll, hword⟩ := bind_eq_some_iff.mp hm
  obtain ⟨w, -, rfl⟩ := map_eq_some_iff.mp hword
  exact (filter_eq_some_iff.mp hll).1

theorem lt_of_requestLine {r : Nat × CStr × CStr} (h : requestLine text = some r) :
    r.1 + 1 < text.length :=
  lt_of_lineEnd (strstr_crlf_eq_some_iff.mp (strstr_of_requestLine h)).1

/-! ### A NUL in the request -/

theorem nul_mem_drop {s : Bytes} (h : (0 : UInt8) ∈ s) {k : Nat} (hk : k ≤ (cText s).length) :
    (0 : UInt8) ∈ s.drop k := by
  rw [← take_append_drop k s, mem_append] at h
  rcases h with h | h
  · rw [← take_cText hk] at h
    exact absurd (mem_of_mem_take h) (nul_notMem_cText s)
  · exact h

theorem headerLines_of_nul (l l' : Bytes) {fuel p : Nat} (h : (0 : UInt8) ∈ raw.drop p) :
    headerLines (raw ++ l) raw.length fuel p = headerLines (raw ++ l') raw.length fuel p := by
  induction fuel generalizing p with
  | zero => rfl
  | succ fuel ih =>
    have hp : p < raw.length := by
      by_contra hle
      rw [drop_eq_nil_of_le (not_lt.mp hle)] at h
      cases h
    have htext (l : Bytes) : cText ((raw ++ l).drop p) = cText (raw.drop p) := by
      rw [drop_append_of_le_length (le_of_lt hp), cText_append_of_mem h]
    rw [headerLines, headerLines, if_pos hp, if_pos hp]
    simp only [htext]
    obtain hfind | ⟨n, hfind⟩ := eq_none_or_eq_some (strstr crlf (cText (raw.drop p)))
    · simp only [hfind]
    · cases n with
      | zero => simp only [hfind]
      | succ n =>
        have hend := lt_of_lineEnd (strstr_crlf_eq_some_iff.mp hfind).1
        have hnext := nul_mem_drop h (k := n + 1 + 2) (by omega)
        rw [drop_drop, ← add_assoc] at hnext
        simp only [hfind, ih hnext]

theorem parseResult_of_nul (h : (0 : UInt8) ∈ raw) (l b : Bytes) :
    parseResult ⟨l, b, table⟩ raw = parseResult ⟨[], [], table⟩ raw := by
  have htext (l : Bytes) : cText (raw ++ l) = cText raw := cText_append_of_mem h l
  obtain hline | ⟨⟨ll, method, fullPath⟩, hline⟩ := eq_none_or_eq_some (requestLine (cText raw))
  · have hrefused (l b : Bytes) := @parseResult_refused raw ⟨l, b, table⟩ (by rw [htext, hline])
    rw [hrefused, hrefused, htext, htext]
  · have hread (l b : Bytes) := @parseResult_read raw ⟨l, b, table⟩ ll method fullPath
      (by rw [htext, hline])
    rw [hread, hread, headerLines_of_nul l [] (nul_mem_drop h (lt_of_requestLine hline))]

/-! ### A complete request line -/

theorem methodWord_append (hline : strstr crlf raw = some n) (behind : Bytes) :
    methodWord (raw ++ behind) = methodWord raw := by
  have hlt := lt_of_lineEnd (strstr_crlf_eq_some_iff.mp hline).1
  unfold methodWord
  rw [strstr_append hline, hline]
  cases hfilter : (some n).filter fun ll => ll < 2048 with
  | none => rfl
  | some ll =>
    obtain ⟨⟨⟩, -⟩ := filter_eq_some_iff.mp hfilter
    rw [bind_some, bind_some, take_append_of_le_length (by omega)]

theorem requestLine_append (hline : strstr crlf raw = some n) (behind : Bytes) :
    requestLine (raw ++ behind) = requestLine raw := by
  unfold requestLine
  rw [methodWord_append hline]

theorem completeLines_cut {fuel : Nat} {rest cut : Bytes}
    (h : (completeLines fuel rest).2 = some cut) :
    cut ≠ [] ∧ strstr crlf cut = none ∧ ∀ b ∈ cut, b ∈ rest := by
  induction fuel generalizing rest with
  | zero => cases h
  | succ fuel ih =>
    rw [completeLines] at h
    by_cases hnil : rest = []
    · rw [if_pos hnil] at h
      cases h
    · rw [if_neg hnil] at h
      obtain hfind | ⟨n, hfind⟩ := eq_none_or_eq_some (strstr crlf rest)
      · simp only [hfind, some.injEq] at h
        exact h ▸ ⟨hnil, hfind, fun b hb => hb⟩
      · cases n with
        | zero => simp only [hfind, reduceCtorEq] at h
        | succ n =>
          simp only [hfind] at h
          obtain ⟨hne, hfree, hsub⟩ := ih h
          exact ⟨hne, hfree, fun b hb => mem_of_mem_drop (hsub b hb)⟩

/-- With a complete request line, only the line that is cut off depends on what follows. -/
theorem parseResult_cut (hnul : (0 : UInt8) ∉ raw) {ll : Nat} {method fullPath : CStr}
    (hline : requestLine raw = some (ll, method, fullPath)) (l b : Bytes) :
    parseResult ⟨l, b, table⟩ raw = (0, withApiKey
      (((completeLines (raw.length + 1) (raw.drop (ll + 2))).2.elim []
        fun cut => cutLines cut (cText l)).foldl (readLine table)
          (headRequest table raw ll method fullPath))) := by
  have hend := strstr_of_requestLine hline
  rw [@parseResult_read raw ⟨l, b, table⟩ ll method fullPath
      (by rw [cText_append_of_notMem hnul, requestLine_append hend, hline]),
    headerLines_eq hnul l (lt_of_requestLine hline), foldl_append]
  rfl

theorem harmless_iff {base : HttpRequest} {cut : Bytes} (hnul : (0 : UInt8) ∉ cut)
    (hne : cut ≠ []) (hcut : strstr crlf cut = none) :
    (∀ l, withApiKey ((cutLines cut (cText l)).foldl (readLine table) base) = withApiKey base) ↔
      Harmless table base cut := by
  constructor
  · intro hall
    have hlonger {y : Bytes} (hy : (0 : UInt8) ∉ y) (hfree : strstr crlf (cut ++ y) = none) :
        NoEffect table base (cut ++ y) := by
      have hline := hall (y ++ crlf)
      rw [cText_append_of_notMem hy, show cText crlf = crlf from rfl,
        cutLines_longer hne hfree] at hline
      exact hline
    refine harmless_of_noEffect hnul (fun y hy => ?_) (fun hlast => ?_) fun c hc hfree => ?_
    · exact hlonger (nul_notMem_of_plain hy) (strstr_append_plain hcut hy)
    · by_cases hdrop : cut.dropLast = []
      · rw [hdrop]
        rfl
      · have hline := hall [10]
        rw [show cText [10] = [10] from rfl, cutLines_lf hcut hlast hdrop] at hline
        exact hline
    · exact hlonger (fun hin => hc (mem_singleton.mp hin).symm) hfree
  intro h l
  rcases cutLines_cases hcut (nul_notMem_cText l) with hnone | ⟨y, hy, hfree, hline⟩ |
    ⟨hlast, hline⟩
  · rw [hnone]
    rfl
  · rw [hline]
    exact h.longer hnul hy hfree
  · rw [hline]
    exact h.ended hlast

/-! ### A request line that is cut off -/

theorem scanWord_of_space {s : Bytes} (h : ∀ b ∈ s, isSpace b = true) : scanWord n s = none := by
  unfold scanWord
  simp [dropWhile_eq_nil_iff.mpr h]

theorem scanWord_of_word (hn : 0 < n) {s : Bytes} (hnul : (0 : UInt8) ∉ s) {b : UInt8}
    (hb : b ∈ s) (hword : isSpace b = false) :
    ∃ w rest, scanWord n s = some (w, rest) ∧ w.bytes ≠ [] := by
  have hne : s.dropWhile isSpace ≠ [] := by
    intro hnil
    rw [dropWhile_eq_nil_iff.mp hnil b hb] at hword
    cases hword
  have hhead := head_dropWhile_not isSpace hne
  obtain ⟨c, t, hct⟩ := exists_cons_of_ne_nil hne
  simp only [hct, head_cons] at hhead
  have hnul' : (0 : UInt8) ∉ (s.dropWhile isSpace).takeWhile (fun c => !isSpace c) := fun hin =>
    hnul ((dropWhile_suffix _).subset (( takeWhile_prefix _).subset hin))
  have hfirst : ((s.dropWhile isSpace).takeWhile (fun c => !isSpace c)).take n ≠ [] := by
    rw [hct, takeWhile_cons_of_pos (by simp [hhead])]
    obtain ⟨n, rfl⟩ := Nat.exists_eq_succ_of_ne_zero (Nat.ne_of_gt hn)
    simp
  unfold scanWord
  simp only [if_neg hfirst]
  refine ⟨_, _, rfl, ?_⟩
  change cText _ ≠ []
  rw [cText_eq_self fun hin => hnul' (mem_of_mem_take hin)]
  exact hfirst

theorem method_readLine (line : Bytes) : (readLine table req line).method = req.method := by
  unfold readLine headerLine
  repeat' split
  all_goals rfl

theorem method_withApiKey : (withApiKey req).method = req.method := by
  unfold withApiKey
  split <;> rfl

theorem method_foldl (lines : List Bytes) (req : HttpRequest) :
    (lines.foldl (readLine table) req).method = req.method := by
  induction lines generalizing req with
  | nil => rfl
  | cons line lines ih => rw [foldl_cons, ih, method_readLine]

/-- The method is that of the request line, whatever comes of the request. -/
theorem method_parseResult (left : Leftover) :
    (parseResult left raw).2.method =
      (methodWord (cText (raw ++ left.raw))).elim (.lit "") fun m => m.2.1 := by
  obtain hline | ⟨⟨ll, method, fullPath⟩, hline⟩ :=
    eq_none_or_eq_some (requestLine (cText (raw ++ left.raw)))
  · rw [parseResult_refused hline]
  · rw [parseResult_read hline]
    rw [method_withApiKey, method_foldl]
    obtain ⟨m, hm, hword⟩ := bind_eq_some_iff.mp hline
    obtain ⟨w, -, hw⟩ := map_eq_some_iff.mp hword
    obtain ⟨-, hmethod, -⟩ := Prod.mk.inj hw |>.imp_right Prod.mk.inj
    rw [hm]
    exact hmethod.symm

theorem methodWord_of_none (h : strstr crlf text = none) : methodWord text = none := by
  rw [methodWord, h]
  rfl

theorem methodWord_of_longLine (hline : strstr crlf raw = none) (h : LongLine raw)
    (behind : Bytes) : methodWord (raw ++ behind) = none := by
  obtain hfind | ⟨n, hfind⟩ := eq_none_or_eq_some (strstr crlf (raw ++ behind))
  · exact methodWord_of_none hfind
  · unfold methodWord
    rw [hfind]
    by_cases hlong : 2048 ≤ n
    · rw [filter_some, if_neg (by simpa using hlong)]
      rfl
    · have hend := le_of_strstr_append hline hfind
      rcases h with h | ⟨hlen, hlast⟩ | ⟨hlen, hspace⟩
      · omega
      · rcases hend with hend | ⟨-, hcr⟩
        · omega
        · exact absurd hcr hlast
      · have hblank : scanWord 15 ((raw ++ behind).take n) = none := by
          refine scanWord_of_space fun b hb => hspace b ?_
          rw [take_append_of_le_length (by omega)] at hb
          exact (take_sublist_take_left (by omega : n ≤ 2047)).subset hb
        rw [filter_some, if_pos (by simpa using hlong), bind_some, hblank]
        rfl

theorem methodWord_of_word (hfind : strstr crlf text = some n)
    (hn : n < 2048) (hnul : (0 : UInt8) ∉ text) {b : UInt8} (hb : b ∈ text.take n)
    (hword : isSpace b = false) : (methodWord text).elim (.lit "") (fun m => m.2.1) ≠ .lit "" := by
  obtain ⟨w, rest, hscan, hne⟩ :=
    scanWord_of_word (by decide : 0 < 15) (fun hin => hnul (mem_of_mem_take hin)) hb hword
  rw [methodWord, hfind, filter_some, if_pos (by simpa using hn), bind_some, hscan]
  exact fun heq => hne (congrArg CStr.bytes heq)

theorem exists_method (hnul : (0 : UInt8) ∉ raw) (hline : strstr crlf raw = none)
    (h : ¬ LongLine raw) :
    ∃ l, (methodWord (cText (raw ++ l))).elim (.lit "") (fun m => m.2.1) ≠ .lit "" := by
  obtain ⟨hlen, hcr, hspace⟩ := not_or.mp h |>.imp_right not_or.mp
  have htext {l : Bytes} (hl : (0 : UInt8) ∉ l) : cText (raw ++ l) = raw ++ l := by
    apply cText_eq_self
    rw [mem_append, not_or]
    exact ⟨hnul, hl⟩
  have hmem {l : Bytes} (hl : (0 : UInt8) ∉ l) : (0 : UInt8) ∉ raw ++ l := by
    rw [mem_append, not_or]
    exact ⟨hnul, hl⟩
  have hword (hlen : 2047 ≤ raw.length) : ∃ b ∈ raw.take 2047, isSpace b = false := by
    by_contra hnone
    refine hspace ⟨hlen, fun b hb => ?_⟩
    rw [← Bool.not_eq_false]
    exact fun hb' => hnone ⟨b, hb, hb'⟩
  by_cases hshort : raw.length ≤ 2046
  · -- `x` and the end of the line
    refine ⟨[120] ++ crlf, ?_⟩
    have hfind := strstr_append_crlf (strstr_append_plain hline (y := [120]) (by decide))
    rw [append_assoc] at hfind
    rw [htext (by decide)]
    refine methodWord_of_word hfind ?_ (hmem (by decide)) (b := 120) ?_ (by decide)
    · rw [length_append, length_singleton]
      omega
    · rw [← append_assoc, take_left]
      exact mem_append_right _ (mem_singleton_self _)
  · obtain ⟨b, hb, hbword⟩ := hword (by omega)
    by_cases hfull : raw.length = 2047
    · refine ⟨crlf, ?_⟩
      rw [htext (by decide)]
      refine methodWord_of_word (strstr_append_crlf hline) (by omega) (hmem (by decide)) ?_ hbword
      rw [take_left]
      exact mem_of_mem_take hb
    · have hlast : raw.getLast? = some 13 := by
        by_contra hne
        exact hcr ⟨by omega, hne⟩
      refine ⟨[10], ?_⟩
      rw [htext (by decide)]
      refine methodWord_of_word (strstr_append_lf hline hlast) (by omega) (hmem (by decide)) ?_
        hbword
      rw [take_append_of_le_length (by omega), show raw.length - 1 = 2047 by omega]
      exact hb

end Results

theorem parseResult_of_closed {table : UInt8 → UInt8} {raw : Bytes} (h : Closed table raw)
    (l b : Bytes) : parseResult ⟨l, b, table⟩ raw = parseResult ⟨[], [], table⟩ raw := by
  by_cases hnul : (0 : UInt8) ∈ raw
  · exact parseResult_of_nul hnul l b
  obtain ⟨hlong, hharmless⟩ := h hnul
  -- a request that is refused whatever follows
  have hrefused (hword : ∀ behind, methodWord (raw ++ behind) = methodWord raw)
      (hline : requestLine raw = none) :
      parseResult ⟨l, b, table⟩ raw = parseResult ⟨[], [], table⟩ raw := by
    have hresult (l b : Bytes) := @parseResult_refused raw ⟨l, b, table⟩ (by
      rw [cText_append_of_notMem hnul, requestLine, hword]
      exact hline)
    simp only [hresult, cText_append_of_notMem hnul, hword]
  obtain hend | ⟨n, hend⟩ := eq_none_or_eq_some (strstr crlf raw)
  · have hnone := methodWord_of_none hend
    refine hrefused (fun behind => ?_) ?_
    · rw [methodWord_of_longLine hend (hlong hend), hnone]
    · rw [requestLine, hnone]
      rfl
  · obtain hline | ⟨⟨ll, method, fullPath⟩, hline⟩ := eq_none_or_eq_some (requestLine raw)
    · exact hrefused (methodWord_append hend) hline
    · rw [parseResult_cut hnul hline, parseResult_cut hnul hline]
      obtain hcut | ⟨cut, hcut⟩ := eq_none_or_eq_some
        (completeLines (raw.length + 1) (raw.drop (ll + 2))).2
      · rw [hcut]
        rfl
      · obtain ⟨hne, hfree, hsub⟩ := completeLines_cut hcut
        have hall := (harmless_iff (fun hin => hnul (mem_of_mem_drop (hsub 0 hin))) hne
          hfree).mpr (hharmless ll method fullPath cut hline hcut)
        simp [hcut, hall]

/-- The result does not depend on what lies behind the request and behind the credential exactly
when the request is closed. -/
theorem parse_isolated_iff (table : UInt8 → UInt8) (raw : Bytes) :
    (∀ l₁ b₁ l₂ b₂ : Bytes, parseResult ⟨l₁, b₁, table⟩ raw = parseResult ⟨l₂, b₂, table⟩ raw) ↔
      Closed table raw := by
  constructor
  · intro hall hnul
    constructor
    · intro hline
      by_contra hlong
      obtain ⟨l, hl⟩ := exists_method hnul hline hlong
      apply hl
      have hsame := congrArg (fun r => r.2.method) (hall l [] [] [])
      simp only [method_parseResult] at hsame
      rw [hsame, cText_append_of_notMem hnul, show cText [] = [] from rfl, append_nil,
        methodWord_of_none hline]
      rfl
    intro ll method fullPath cut hline hcut
    obtain ⟨hne, hfree, hsub⟩ := completeLines_cut hcut
    refine (harmless_iff (fun hin => hnul ?_) hne hfree).mp fun l => ?_
    · exact mem_of_mem_drop (hsub 0 hin)
    have hsame := hall l [] [] []
    rw [parseResult_cut hnul hline, parseResult_cut hnul hline, hcut] at hsame
    have hreq := (Prod.mk.inj hsame).2
    simp only [elim_some] at hreq
    rw [hreq, show cText [] = [] from rfl, cutLines_nil hfree]
    rfl
  · intro hclosed l₁ b₁ l₂ b₂
    rw [parseResult_of_closed hclosed l₁ b₁, parseResult_of_closed hclosed l₂ b₂]

def cutRequest : Bytes := (CStr.lit "GET /api/a HTTP/1.1\r\nAuthorization: Bearer ").bytes

/-- What an earlier request with the same beginning leaves behind. -/
def earlierRequest : Bytes := (CStr.lit "secret\r\n\r\n").bytes

theorem parse_isolated_false :
    (parseResult ⟨[0], [], fun _ => 0⟩ cutRequest).2.authToken = .lit "" ∧
      (parseResult ⟨earlierRequest, [], fun _ => 0⟩ cutRequest).2.authToken = .lit "secret" ∧
      parseResult ⟨[0], [], fun _ => 0⟩ cutRequest ≠
        parseResult ⟨earlierRequest, [], fun _ => 0⟩ cutRequest := by
  have hempty : (parseResult ⟨[0], [], fun _ => 0⟩ cutRequest).2.authToken = .lit "" := by
    decide +kernel
  have hsecret : (parseResult ⟨earlierRequest, [], fun _ => 0⟩ cutRequest).2.authToken =
      .lit "secret" := by
    decide +kernel
  refine ⟨hempty, hsecret, fun heq => ?_⟩
  rw [heq, hsecret] at hempty
  exact absurd hempty (by decide)

end Portal.Web
