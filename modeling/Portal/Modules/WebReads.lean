import Portal.Modules.HttpLeftover
import Portal.Modules.Web

/-!
Requests that arrive in several reads (`on_http_client` in `modules/mod_web/mod_web.c`). The first
read of a connection is served as if it were the request, and the connection closed.
-/

namespace Portal.Web

open List Option
open CStr (lit)

variable {env : WebEnv} {msg : PortalMsg}

/-! ### Requests as they are sent -/

structure HttpText where
  line : Bytes
  headers : List Bytes
  body : Bytes
deriving DecidableEq

def headerText (headers : List Bytes) (body : Bytes) : Bytes :=
  headers.flatMap (· ++ crlf) ++ (crlf ++ body)

def HttpText.bytes (t : HttpText) : Bytes := t.line ++ (crlf ++ headerText t.headers t.body)

/-- No line has a NUL, CR or LF in it, no header line is empty, and the request fits the
buffer. -/
structure HttpText.WellFormed (t : HttpText) : Prop where
  line : Plain t.line
  headers : ∀ h ∈ t.headers, h ≠ [] ∧ Plain h
  length_le : t.bytes.length ≤ 65535

theorem length_append_crlf (h : Bytes) : (h ++ crlf).length = h.length + 2 := length_append

theorem headerText_cons (h : Bytes) (hs : List Bytes) (body : Bytes) :
    headerText (h :: hs) body = (h ++ crlf) ++ headerText hs body := by
  simp [headerText]

theorem HttpText.bytes_eq (t : HttpText) :
    t.bytes = (t.line ++ crlf) ++ headerText t.headers t.body :=
  (append_assoc ..).symm

/-- The header lines that are complete in the part of the headers that was read, and what is
left of it. -/
def linesRead : List Bytes → Bytes → List Bytes × Option Bytes
  | [], rest => ([], if rest = [] ∨ 2 ≤ rest.length then none else some rest)
  | h :: hs, rest =>
    if h.length + 2 ≤ rest.length then
      let r := linesRead hs (rest.drop (h.length + 2))
      (h :: r.1, r.2)
    else ([], if rest = [] then none else some rest)

/-! ### Where the body starts -/

section Search

variable {p s x : Bytes} {c d : UInt8}

theorem strstr_cons_ne (hne : c ≠ d) :
    strstr (c :: p) (d :: s) = (strstr (c :: p) s).map (· + 1) := by
  rw [strstr, if_neg]
  exact fun h => hne (cons_prefix_cons.mp h).1

theorem strstr_append_notMem (hx : c ∉ x) :
    strstr (c :: p) (x ++ s) = (strstr (c :: p) s).map (· + x.length) := by
  induction x with
  | nil => simp
  | cons d x ih =>
    obtain ⟨hd, hx⟩ := not_or.mp (fun h => hx (mem_cons.mpr h))
    rw [cons_append, strstr_cons_ne hd, ih hx, Option.map_map]
    rfl

theorem strstr_emptyLine {headers : List Bytes} (hx : Plain x)
    (hheaders : ∀ h ∈ headers, h ≠ [] ∧ Plain h) (body : Bytes) :
    strstr (crlf ++ crlf) (x ++ (crlf ++ headerText headers body)) =
      some (x.length + (headers.flatMap (· ++ crlf)).length) := by
  have hcr {y : Bytes} (hy : Plain y) : (13 : UInt8) ∉ y := fun hin => (hy 13 hin).2.2 rfl
  induction headers generalizing x with
  | nil =>
    change strstr (13 :: _) _ = _
    rw [strstr_append_notMem (hcr hx)]
    simp [strstr, headerText, crlf]
  | cons h hs ih =>
    obtain ⟨⟨hne, hh⟩, hhs⟩ := forall_mem_cons.mp hheaders
    have hhere : ¬ crlf ++ crlf <+: 13 :: 10 :: (h ++ (crlf ++ headerText hs body)) := by
      obtain ⟨d, h', rfl⟩ := exists_cons_of_ne_nil hne
      intro hstarts
      have hthird := (cons_prefix_cons.mp (cons_prefix_cons.mp hstarts).2).2
      exact hcr hh ((cons_prefix_cons.mp hthird).1 ▸ mem_cons_self)
    have htext : crlf ++ headerText (h :: hs) body =
        13 :: 10 :: (h ++ (crlf ++ headerText hs body)) := by
      simp [headerText, crlf]
    have hnext : strstr (crlf ++ crlf) (10 :: (h ++ (crlf ++ headerText hs body))) =
        some (h.length + (hs.flatMap (· ++ crlf)).length + 1) := by
      change strstr (13 :: _) _ = _
      rw [strstr_cons_ne (by decide)]
      change (strstr (crlf ++ crlf) _).map _ = _
      rw [ih hh hhs]
      rfl
    change strstr (13 :: _) _ = _
    rw [strstr_append_notMem (hcr hx), htext]
    change (strstr (crlf ++ crlf) _).map _ = _
    rw [strstr, if_neg hhere, hnext]
    simp only [map_some, flatMap_cons, length_append, crlf, length_cons, length_nil, some.injEq]
    omega

end Search

section Lines

variable {headers : List Bytes} {body first : Bytes}

theorem strstr_line {h : Bytes} (hh : Plain h) : strstr crlf (h ++ crlf) = some h.length :=
  strstr_append_crlf (strstr_append_plain (a := []) rfl hh)

theorem nul_notMem_of_part {h s : Bytes} (hh : Plain h) (hs : s <+: h ++ crlf) :
    (0 : UInt8) ∉ s := by
  intro hin
  rcases mem_append.mp (hs.subset hin) with hin | hin
  · exact (hh 0 hin).1 rfl
  · exact absurd hin (by decide)

theorem strstr_of_part {h s : Bytes} (hh : Plain h) (hs : s <+: h ++ crlf)
    (hlen : s.length < h.length + 2) : strstr crlf s = none := by
  obtain ⟨b, hb⟩ := hs
  refine eq_none_iff_forall_ne_some.mpr fun n hn => ?_
  have hfind := strstr_append (b := b) hn
  rw [hb, strstr_line hh, some.injEq] at hfind
  have hend := length_of_strstr hn
  rw [show crlf.length = 2 from rfl] at hend
  omega

section Steps

variable (behind : Bytes) {fuel p : Nat} {h z : Bytes}

/-- What stands in front of a line that was read, and what the loop sees there. -/
theorem cText_line (hh : Plain h) (hz : (h ++ crlf) ++ z = first.drop p) :
    p < first.length ∧ cText ((first ++ behind).drop p) = (h ++ crlf) ++ cText (z ++ behind) := by
  have hp : p < first.length := by
    have hlen := congrArg List.length hz
    simp only [length_append, length_drop, show crlf.length = 2 from rfl] at hlen
    omega
  refine ⟨hp, ?_⟩
  rw [drop_append_of_le_length (le_of_lt hp), ← hz, append_assoc,
    cText_append_of_notMem (nul_notMem_of_part hh prefix_rfl)]

theorem headerLines_emptyLine (hz : crlf ++ z = first.drop p) :
    headerLines (first ++ behind) first.length (fuel + 1) p = [] := by
  obtain ⟨hp, htext⟩ := cText_line (h := []) behind (fun _ hb => absurd hb not_mem_nil) hz
  rw [headerLines, if_pos hp]
  simp [htext, strstr, crlf]

theorem headerLines_line (hne : h ≠ []) (hh : Plain h) (hz : (h ++ crlf) ++ z = first.drop p) :
    headerLines (first ++ behind) first.length (fuel + 1) p =
      h :: headerLines (first ++ behind) first.length fuel (p + h.length + 2) := by
  obtain ⟨hp, htext⟩ := cText_line behind hh hz
  have hfind : strstr crlf ((h ++ crlf) ++ cText (z ++ behind)) = some h.length :=
    strstr_append (strstr_line hh)
  have htake : ((h ++ crlf) ++ cText (z ++ behind)).take h.length = h := by
    rw [append_assoc, take_left]
  obtain ⟨n, hn⟩ : ∃ n, h.length = n + 1 :=
    Nat.exists_eq_succ_of_ne_zero fun h0 => hne (length_eq_zero_iff.mp h0)
  rw [hn] at hfind htake ⊢
  rw [headerLines, if_pos hp]
  simp only [htext, hfind, htake]

theorem headerLines_part (hh : Plain h) (hpart : first.drop p <+: h ++ crlf)
    (hshort : (first.drop p).length < h.length + 2) (hne : first.drop p ≠ []) :
    headerLines (first ++ behind) first.length (fuel + 1) p =
      cutLines (first.drop p) (cText behind) :=
  headerLines_cut behind (Nat.lt_of_not_le fun hle => hne (drop_eq_nil_iff.mpr hle))
    (nul_notMem_of_part hh hpart) (strstr_of_part hh hpart hshort)

end Steps

/-- The lines that are read: those that are complete, and what the memory behind makes of
the one that is cut off. -/
theorem headerLines_text (hheaders : ∀ h ∈ headers, h ≠ [] ∧ Plain h) (behind : Bytes)
    {fuel p : Nat} (hrest : first.drop p <+: headerText headers body)
    (hfuel : (first.drop p).length < fuel) :
    headerLines (first ++ behind) first.length fuel p =
      (linesRead headers (first.drop p)).1 ++ (linesRead headers (first.drop p)).2.elim []
        fun cut => cutLines cut (cText behind) := by
  induction headers generalizing p fuel with
  | nil =>
    obtain ⟨fuel, rfl⟩ := Nat.exists_eq_succ_of_ne_zero (Nat.ne_zero_of_lt hfuel)
    by_cases hnil : first.drop p = []
    · rw [headerLines_end (drop_eq_nil_iff.mp hnil), hnil]
      rfl
    · by_cases htwo : 2 ≤ (first.drop p).length
      · obtain ⟨z, hz⟩ : crlf <+: first.drop p := prefix_of_prefix_length_le ⟨body, rfl⟩ hrest htwo
        rw [linesRead, if_pos (.inr htwo), headerLines_emptyLine behind hz]
        rfl
      · have hempty : Plain [] := fun _ hb => absurd hb not_mem_nil
        have hpart : first.drop p <+: [] ++ crlf :=
          prefix_of_prefix_length_le hrest ⟨body, rfl⟩ (Nat.le_of_not_le htwo)
        rw [headerLines_part behind hempty hpart (Nat.lt_of_not_le htwo) hnil, linesRead,
          if_neg (not_or.mpr ⟨hnil, htwo⟩)]
        rfl
  | cons h hs ih =>
    obtain ⟨fuel, rfl⟩ := Nat.exists_eq_succ_of_ne_zero (Nat.ne_zero_of_lt hfuel)
    obtain ⟨⟨hne, hh⟩, hhs⟩ := forall_mem_cons.mp hheaders
    have hline := length_append_crlf h
    rw [headerText_cons] at hrest
    by_cases hfull : h.length + 2 ≤ (first.drop p).length
    · obtain ⟨z, hz⟩ : h ++ crlf <+: first.drop p :=
        prefix_of_prefix_length_le ⟨_, rfl⟩ hrest (hline ▸ hfull)
      have hnext : first.drop (p + h.length + 2) = z := by
        rw [add_assoc, ← drop_drop, ← hz]
        exact drop_left' hline
      have hlen : z.length + (h.length + 2) = (first.drop p).length := by
        rw [← hz, length_append, hline, add_comm]
      rw [← hz] at hrest
      have hrec := ih hhs (hnext ▸ (prefix_append_right_inj _).mp hrest)
        (show (first.drop (p + h.length + 2)).length < fuel by rw [hnext]; omega)
      rw [headerLines_line behind hne hh hz, hrec, linesRead, if_pos hfull, drop_drop,
        add_assoc]
      rfl
    · by_cases hnil : first.drop p = []
      · rw [headerLines_end (drop_eq_nil_iff.mp hnil), linesRead, if_neg hfull, if_pos hnil]
        rfl
      · have hpart : first.drop p <+: h ++ crlf :=
          prefix_of_prefix_length_le hrest ⟨_, rfl⟩ (by omega)
        rw [headerLines_part behind hh hpart (Nat.lt_of_not_le hfull) hnil, linesRead,
          if_neg hfull, if_neg hnil]
        rfl

theorem linesRead_whole (headers : List Bytes) (body : Bytes) :
    linesRead headers (headerText headers body) = (headers, none) := by
  induction headers with
  | nil => rw [linesRead, if_pos (.inr (by simp [headerText, crlf]))]
  | cons h hs ih =>
    rw [linesRead, headerText_cons, drop_left' (length_append_crlf h), ih, if_pos]
    rw [length_append, length_append_crlf]
    exact Nat.le_add_right _ _

end Lines

/-! ### What is parsed of a read -/

def HttpText.linesOf (t : HttpText) (first behind : Bytes) : List Bytes :=
  let r := linesRead t.headers (first.drop (t.line.length + 2))
  r.1 ++ r.2.elim [] fun cut => cutLines cut (cText behind)

section Parse

variable {t : HttpText} {first : Bytes}

theorem linesOf_whole (behind : Bytes) : t.linesOf t.bytes behind = t.headers := by
  unfold HttpText.linesOf
  rw [t.bytes_eq, drop_left' (length_append_crlf t.line), linesRead_whole]
  exact append_nil _

section

variable (ht : t.WellFormed) (hfirst : first <+: t.bytes)

include ht hfirst

theorem parse_first (hline : t.line.length + 2 ≤ first.length) (left : Leftover) :
    parseHttpRequest left first = (requestLine (t.line ++ crlf)).map fun r =>
      withApiKey ((t.linesOf first left.raw).foldl (readLine left.table)
        (startRequest first r.2.1 r.2.2)) := by
  have hlen := length_append_crlf t.line
  have hfind := strstr_line ht.line
  rw [t.bytes_eq] at hfirst
  obtain ⟨rest, hrest⟩ : t.line ++ crlf <+: first :=
    prefix_of_prefix_length_le ⟨_, rfl⟩ hfirst (hlen ▸ hline)
  have htext : cText (first ++ left.raw) = (t.line ++ crlf) ++ cText (rest ++ left.raw) := by
    rw [← hrest, append_assoc, cText_append_of_notMem (nul_notMem_of_part ht.line prefix_rfl)]
  have hdrop : first.drop (t.line.length + 2) <+: headerText t.headers t.body := by
    rw [← hrest] at hfirst ⊢
    rw [drop_left' hlen]
    exact (prefix_append_right_inj _).mp hfirst
  rw [parseHttpRequest_eq, htext, requestLine_append hfind, headerLine_eq]
  refine Option.map_congr fun r hr => ?_
  have hr1 : r.1 = t.line.length := by
    have := strstr_of_requestLine (Option.mem_def.mp hr)
    rw [hfind, some.injEq] at this
    exact this.symm
  rw [hr1, headerLines_text ht.headers left.raw hdrop]
  · rfl
  · rw [length_drop]
    omega

/-- Without the end of the request line, and with nothing behind the read, nothing is served. -/
theorem parse_short (hline : ¬ t.line.length + 2 ≤ first.length) (table : UInt8 → UInt8) :
    parseHttpRequest ⟨[], [], table⟩ first = none := by
  have hlen := length_append_crlf t.line
  rw [t.bytes_eq] at hfirst
  have hpart : first <+: t.line ++ crlf := prefix_of_prefix_length_le hfirst ⟨_, rfl⟩ (by omega)
  have hnone := strstr_of_part ht.line hpart (Nat.lt_of_not_le hline)
  have htext : cText (first ++ []) = first := by
    rw [cText_append_of_notMem (nul_notMem_of_part ht.line hpart)]
    exact append_nil first
  rw [parseHttpRequest_eq, htext, requestLine, methodWord_of_none hnone]
  rfl

/-- The body is that of the request exactly if there is none, or nothing is missing. -/
theorem body_first_iff (method fullPath : CStr) :
    (startRequest first method fullPath).body = t.body ↔ t.body = [] ∨ first = t.bytes := by
  have hwhole : strstr (crlf ++ crlf) t.bytes = _ := strstr_emptyLine ht.line ht.headers t.body
  set e := t.line.length + (t.headers.flatMap (· ++ crlf)).length with he
  have hbody : t.bytes.drop (e + 4) = t.body := by
    have hbytes : t.bytes =
        (t.line ++ crlf ++ t.headers.flatMap (· ++ crlf) ++ crlf) ++ t.body := by
      simp [HttpText.bytes, headerText]
    rw [hbytes]
    refine drop_left' ?_
    simp only [length_append, show crlf.length = 2 from rfl]
    omega
  obtain ⟨rest, hrest⟩ := hfirst
  change (strstr (crlf ++ crlf) first).elim [] _ = _ ↔ _
  obtain hfind | ⟨i, hfind⟩ := eq_none_or_eq_some (strstr (crlf ++ crlf) first)
  · rw [hfind, elim_none]
    constructor
    · intro h
      exact .inl h.symm
    rintro (h | h)
    · exact h.symm
    · rw [h, hwhole] at hfind
      cases hfind
  · have hmore := strstr_append (b := rest) hfind
    rw [hrest, hwhole, some.injEq] at hmore
    subst hmore
    have hlen : e + 4 ≤ first.length := length_of_strstr hfind
    rw [← hrest, drop_append_of_le_length hlen] at hbody
    rw [hfind, elim_some, ← hbody, ← hrest]
    simp

end

end Parse

/-! ### Who is calling -/

inductive Caller where
  | anonymous
  | token (token : CStr)
  | basic (user pass : CStr)
deriving DecidableEq

def HttpRequest.caller (req : HttpRequest) : Caller :=
  if req.authToken.bytes ≠ [] then .token req.authToken
  else if req.basicUser.bytes ≠ [] then .basic req.basicUser req.basicPass
  else .anonymous

def bearerOf (lines : List Bytes) : CStr :=
  ((lines.filterMap (headerValue bearerName)).getLast?.map (·.truncate 127)).getD (.lit "")

def basicOf (table : UInt8 → UInt8) (lines : List Bytes) : CStr × CStr :=
  ((lines.filterMap (headerValue basicName)).filterMap
    fun value => credential (sextet table) value.bytes).getLast?.getD (.lit "", .lit "")

/-- By the last Bearer token if it is not empty, else by the key in the query, else by the last
Basic credential. -/
def callerOf (table : UInt8 → UInt8) (query : CStr) (lines : List Bytes) : Caller :=
  let token := if (bearerOf lines).bytes = [] then (queryApiKey query).getD (bearerOf lines)
    else bearerOf lines
  if token.bytes ≠ [] then .token token
  else if (basicOf table lines).1.bytes ≠ [] then
    .basic (basicOf table lines).1 (basicOf table lines).2
  else .anonymous

section Caller

variable (table : UInt8 → UInt8)

/-- One line: at most one of the two credentials changes, and the request stays the same. -/
theorem readLine_spec (req : HttpRequest) (line : Bytes) :
    (readLine table req line).authToken =
        ((headerValue bearerName line).map (·.truncate 127)).getD req.authToken ∧
      ((readLine table req line).basicUser, (readLine table req line).basicPass) =
        ((headerValue basicName line).bind fun value =>
          credential (sextet table) value.bytes).getD (req.basicUser, req.basicPass) ∧
      (readLine table req line).path = req.path ∧ (readLine table req line).query = req.query ∧
      (readLine table req line).body = req.body := by
  obtain hbearer | ⟨value, hbearer⟩ := eq_none_or_eq_some (headerValue bearerName line)
  · obtain hbasic | ⟨value, hbasic⟩ := eq_none_or_eq_some (headerValue basicName line)
    · obtain htype | ⟨value, htype⟩ := eq_none_or_eq_some (headerValue contentTypeName line)
      · rw [readLine_other table req hbearer hbasic htype, hbearer, hbasic]
        exact ⟨rfl, rfl, rfl, rfl, rfl⟩
      · rw [readLine_contentType table req htype, hbearer, hbasic]
        exact ⟨rfl, rfl, rfl, rfl, rfl⟩
    · rw [readLine_basic table req hbasic, hbearer, hbasic, bind_some]
      cases credential (sextet table) value.bytes with
      | none | some c => exact ⟨rfl, rfl, rfl, rfl, rfl⟩
  · have hbasic : headerValue basicName line = none :=
      headerValue_eq_none_of_ne 17 (by decide) (by decide) (by decide)
        (ne_none_iff_exists'.mpr ⟨value, hbearer⟩)
    rw [readLine_bearer table req hbearer, hbearer, hbasic]
    exact ⟨rfl, rfl, rfl, rfl, rfl⟩

theorem bearerOf_concat (lines : List Bytes) (line : Bytes) :
    bearerOf (lines ++ [line]) =
      ((headerValue bearerName line).map (·.truncate 127)).getD (bearerOf lines) := by
  unfold bearerOf
  cases h : headerValue bearerName line with
  | none | some value => simp [h]

theorem basicOf_concat (lines : List Bytes) (line : Bytes) :
    basicOf table (lines ++ [line]) =
      ((headerValue basicName line).bind fun value =>
        credential (sextet table) value.bytes).getD (basicOf table lines) := by
  unfold basicOf
  cases h : headerValue basicName line with
  | none => simp [h]
  | some value => cases hc : credential (sextet table) value.bytes <;> simp [h, hc]

/-- All lines: the last one that names a caller counts. -/
theorem foldl_readLine_spec (raw : Bytes) (method fullPath : CStr) (lines : List Bytes) :
    let start := startRequest raw method fullPath
    let req := lines.foldl (readLine table) start
    req.authToken = bearerOf lines ∧ (req.basicUser, req.basicPass) = basicOf table lines ∧
      req.path = start.path ∧ req.query = start.query ∧ req.body = start.body := by
  intro start req
  induction lines using reverseRecOn with
  | nil => exact ⟨rfl, rfl, rfl, rfl, rfl⟩
  | append_singleton lines line ih =>
    obtain ⟨htoken, hbasic, hpath, hquery, hbody⟩ := ih
    obtain ⟨htoken', hbasic', hpath', hquery', hbody'⟩ :=
      readLine_spec table (lines.foldl (readLine table) start) line
    have hreq : req = readLine table (lines.foldl (readLine table) start) line := foldl_concat ..
    rw [hreq, htoken', hbasic', htoken, hbasic, bearerOf_concat, basicOf_concat]
    exact ⟨rfl, rfl, hpath'.trans hpath, hquery'.trans hquery, hbody'.trans hbody⟩

theorem withApiKey_fields (req : HttpRequest) :
    (withApiKey req).authToken = (if req.authToken.bytes = [] then
        (queryApiKey req.query).getD req.authToken else req.authToken) ∧
      (withApiKey req).path = req.path ∧ (withApiKey req).query = req.query ∧
      (withApiKey req).body = req.body := by
  unfold withApiKey
  split <;> exact ⟨rfl, rfl, rfl, rfl⟩

/-- The request that is read of the lines: who is calling, and what the request line and the
body say. -/
theorem withApiKey_spec (raw : Bytes) (method fullPath : CStr) (lines : List Bytes) :
    let start := startRequest raw method fullPath
    let req := withApiKey (lines.foldl (readLine table) start)
    req.caller = callerOf table start.query lines ∧ req.method = method ∧
      req.path = start.path ∧ req.query = start.query ∧ req.body = start.body := by
  intro start req
  obtain ⟨htoken, hbasic, hpath, hquery, hbody⟩ :=
    foldl_readLine_spec table raw method fullPath lines
  obtain ⟨huser, hpass⟩ := Prod.mk.inj hbasic
  obtain ⟨hkey, hpath', hquery', hbody'⟩ := withApiKey_fields (lines.foldl (readLine table) start)
  obtain ⟨huser', hpass'⟩ := basic_withApiKey (lines.foldl (readLine table) start)
  refine ⟨?_, (method_withApiKey _).trans (method_foldl _ _), hpath'.trans hpath,
    hquery'.trans hquery, hbody'.trans hbody⟩
  rw [HttpRequest.caller, hkey, huser', hpass', htoken, huser, hpass, hquery]
  rfl

end Caller

/-! ### Requests that lead to the same message -/

def served (env : WebEnv) (s : CoreState) (req : HttpRequest) :
    Caller → Option (CoreState × WebOutcome)
  | .anonymous => some (s, .dispatch (requestMsg env req))
  | .token token => some (s, .dispatch (callerMsg env req (tokenCtx token)))
  | .basic user pass =>
    (coreSend env.toSendEnv s (loginMsg env user pass)).bind fun x =>
      match loginToken x.2 with
      | some token => some (x.1, .dispatch (callerMsg env req (basicCtx user token)))
      | none => some (x.1, .unauthorized)

theorem handleHttpRequest_caller {req : HttpRequest} (hmethod : req.method ≠ .lit "OPTIONS")
    (hindex : isIndex (portalPath env.apiPrefix req.path) = false) (s : CoreState) :
    handleHttpRequest env s req = served env s req req.caller := by
  unfold HttpRequest.caller
  by_cases htoken : req.authToken.bytes ≠ []
  · simp [handleHttpRequest, if_neg hmethod, hindex, if_pos htoken, served]
  · by_cases huser : req.basicUser.bytes ≠ []
    · rw [if_neg htoken, if_pos huser]
      exact handleHttpRequest_login hmethod ⟨hindex, not_not.mp htoken⟩ huser
    · simp [handleHttpRequest, if_neg hmethod, hindex, if_neg htoken, if_neg huser, served]

theorem requestMsg_congr (env : WebEnv) {req req' : HttpRequest}
    (hmethod : req.method = req'.method) (hpath : req.path = req'.path)
    (hquery : req.query = req'.query) (hbody : req.body = req'.body) :
    requestMsg env req = requestMsg env req' := by
  unfold requestMsg
  rw [hmethod, hpath, hquery, hbody]

theorem requestMsg_fields (env : WebEnv) (req : HttpRequest) :
    (requestMsg env req).body = req.body ∧ (requestMsg env req).ctx = none := by
  unfold requestMsg
  apply foldlRecOn (motive := fun m : PortalMsg => m.body = _ ∧ m.ctx = none)
  · split
    · exact ⟨rfl, rfl⟩
    · rw [body_portalMsgAddHeader, ctx_portalMsgAddHeader]
      exact ⟨rfl, rfl⟩
  · intro m hm kv _
    rw [body_portalMsgAddHeader, ctx_portalMsgAddHeader]
    exact hm

def Sends (result : Option (CoreState × WebOutcome)) (msg : PortalMsg) : Prop :=
  ∃ s o, result = some (s, o) ∧ o.sent = some msg

/-! ### A login that is granted to one caller only -/

def loginState : CoreState :=
  { plainState ⟨[], [], 0⟩ with
    paths := (portalPathRegister portalPathInit (.lit "/auth/login") (.lit "m")).1
    modules := [⟨.lit "m", true, false⟩] }

def loginReply (c : Caller) (msg : PortalMsg) : Reply :=
  match c with
  | .basic user pass =>
    if msg.headers.map PortalHeader.value = [some user.bytes, some pass.bytes] then
      ⟨.ok, 0, (lit "ok").bytes⟩
    else .fail .forbidden
  | _ => .fail .forbidden

def loginEnv (apiPrefix : CStr) (c : Caller) : WebEnv where
  core := plainEnv
  nextId := 1
  nowUs := 1
  fnHandle _ := loginReply c
  msgId := 1
  apiPrefix := apiPrefix
  srcIp := .lit ""

theorem apiPrefix_loginEnv (apiPrefix : CStr) (c : Caller) :
    (loginEnv apiPrefix c).apiPrefix = apiPrefix := rfl

def Caller.ctx : Caller → Option PortalCtx
  | .anonymous => none
  | .token t => some (tokenCtx t)
  | .basic user _ => some (basicCtx user (.lit "ok"))

section Login

variable (apiPrefix : CStr) (c : Caller)

theorem loginReply_eq (user pass : CStr)
    (hmsg : msg.headers.map PortalHeader.value = [some user.bytes, some pass.bytes]) :
    loginReply c msg =
      if c = .basic user pass then ⟨.ok, 0, (lit "ok").bytes⟩ else .fail .forbidden := by
  cases c with
  | anonymous | token t => exact (if_neg Caller.noConfusion).symm
  | basic user' pass' =>
    refine if_congr ?_ rfl rfl
    rw [hmsg]
    constructor
    · intro h
      simp only [List.cons.injEq, some.injEq, and_true] at h
      rw [CStr.ext_bytes h.1, CStr.ext_bytes h.2]
    · rintro ⟨⟩
      rfl

theorem coreSend_loginState (user pass : CStr) :
    ∃ r, coreSend (loginEnv apiPrefix c).toSendEnv loginState
        (loginMsg (loginEnv apiPrefix c) user pass) = some (loginState, r) ∧
      loginToken r = if c = .basic user pass then some (.lit "ok") else none := by
  have hsend : apiSend loginState.inst (loginEnv apiPrefix c).nextId (loginEnv apiPrefix c).nowUs
      (loginMsg (loginEnv apiPrefix c) user pass) = (.handle (.lit "m"), _) :=
    Prod.ext rfl (apiSend_login (loginEnv apiPrefix c) loginState user pass)
  unfold coreSend
  rw [hsend]
  refine ⟨_, rfl, ?_⟩
  change loginToken (loginReply c _).toCore = _
  rw [loginReply_eq c user pass rfl]
  split <;> rfl

/-- The message of a caller: it is sent unless a login is needed that is another's. -/
theorem sends_served_iff (req : HttpRequest) (c' : Caller) (msg : PortalMsg) :
    Sends (served (loginEnv apiPrefix c) loginState req c') msg ↔
      (∀ user pass, c' = .basic user pass → c = c') ∧
        msg = { requestMsg (loginEnv apiPrefix c) req with ctx := c'.ctx } := by
  cases c' with
  | anonymous =>
    have hctx : { requestMsg (loginEnv apiPrefix c) req with ctx := none } =
        requestMsg (loginEnv apiPrefix c) req := by
      rw [← (requestMsg_fields (loginEnv apiPrefix c) req).2]
    simp [Sends, served, WebOutcome.sent, Caller.ctx, hctx, eq_comm]
  | token t => simp [Sends, served, WebOutcome.sent, Caller.ctx, callerMsg, eq_comm]
  | basic user pass =>
    obtain ⟨r, hsend, htoken⟩ := coreSend_loginState apiPrefix c user pass
    rw [served, hsend, bind_some, htoken]
    by_cases hc : c = .basic user pass
    · simp [Sends, WebOutcome.sent, Caller.ctx, callerMsg, hc, eq_comm]
    · simp [Sends, WebOutcome.sent, hc]

theorem caller_eq_of_ctx {c' : Caller} (hctx : c.ctx = c'.ctx)
    (hgranted : ∀ user pass, c' = .basic user pass → c = c') : c = c' := by
  cases c' with
  | anonymous =>
    cases c with
    | anonymous => rfl
    | token t | basic user pass => cases hctx
  | token t' =>
    cases c with
    | anonymous => cases hctx
    | token t =>
      have hbytes := congrArg (fun ctx : Option PortalCtx => ctx.bind (·.auth.token)) hctx
      exact congrArg _ (CStr.ext_bytes (some.inj hbytes))
    | basic user pass =>
      cases congrArg (fun ctx : Option PortalCtx => ctx.bind (·.auth.user)) hctx
  | basic user' pass' => exact hgranted user' pass' rfl

end Login

section Handled

variable {apiPrefix : CStr} {req req' : HttpRequest}

theorem handleHttpRequest_index (hmethod : req.method ≠ .lit "OPTIONS")
    (hindex : isIndex (portalPath env.apiPrefix req.path) = true) (s : CoreState) :
    handleHttpRequest env s req = some (s, .index (indexMsg env)) := by
  rw [handleHttpRequest, if_neg hmethod, if_pos hindex]

theorem exists_sends (apiPrefix : CStr) (hmethod : req.method ≠ .lit "OPTIONS") :
    ∃ msg, Sends (handleHttpRequest (loginEnv apiPrefix req.caller) loginState req) msg := by
  cases hindex : isIndex (portalPath (loginEnv apiPrefix req.caller).apiPrefix req.path) with
  | true =>
    rw [handleHttpRequest_index hmethod hindex]
    exact ⟨_, _, _, rfl, rfl⟩
  | false =>
    rw [handleHttpRequest_caller hmethod hindex]
    exact ⟨_, (sends_served_iff ..).mpr ⟨fun _ _ _ => rfl, rfl⟩⟩

/-- Two requests with the same request line lead to the same message, in every world, exactly if
they have the same body and caller. -/
theorem handled_eq_iff (hmethod : req.method ≠ .lit "OPTIONS") (hm : req'.method = req.method)
    (hpath : req'.path = req.path) (hquery : req'.query = req.query)
    (hindex : isIndex (portalPath apiPrefix req.path) = false) :
    (∀ env : WebEnv, env.apiPrefix = apiPrefix → ∀ s msg,
      Sends (handleHttpRequest env s req) msg → Sends (handleHttpRequest env s req') msg) ↔
      req'.body = req.body ∧ req'.caller = req.caller := by
  constructor
  · intro h
    obtain ⟨msg, hsends⟩ := exists_sends apiPrefix hmethod
    have hsends' := h _ (apiPrefix_loginEnv apiPrefix req.caller) _ msg hsends
    rw [← apiPrefix_loginEnv apiPrefix req.caller] at hindex
    rw [handleHttpRequest_caller hmethod hindex, sends_served_iff] at hsends
    rw [handleHttpRequest_caller (hm ▸ hmethod) (hpath ▸ hindex), sends_served_iff] at hsends'
    obtain ⟨-, rfl⟩ := hsends
    obtain ⟨hgranted, hmsg⟩ := hsends'
    constructor
    · have hbody := congrArg PortalMsg.body hmsg
      rw [(requestMsg_fields _ req).1, (requestMsg_fields _ req').1] at hbody
      exact hbody.symm
    · exact (caller_eq_of_ctx _ (congrArg PortalMsg.ctx hmsg) hgranted).symm
  rintro ⟨hbody, hcaller⟩ env rfl s msg hsends
  have hmsg := requestMsg_congr env hm hpath hquery hbody
  have hserved (c : Caller) : served env s req' c = served env s req c := by
    cases c <;> simp only [served, callerMsg, hmsg]
  rw [handleHttpRequest_caller hmethod hindex] at hsends
  rw [handleHttpRequest_caller (hm ▸ hmethod) (hpath ▸ hindex), hcaller, hserved]
  exact hsends

end Handled

/-! ### Requests in several reads -/

/-- The messages that are sent while a connection lives on which the reads return these bytes. The
first read is served and the connection closed; an empty read closes it at once. -/
def dispatched (env : WebEnv) (left : Leftover) (s : CoreState) :
    List Bytes → Option (List PortalMsg)
  | [] => some []
  | raw :: _ =>
    if raw = [] then some []
    else (onHttpClient env left s raw).map fun x => x.2.sent.toList

/-- What is in memory behind the reads aside, the request leads to the message to which it
leads in one read, and to no other. -/
def Reassembled (apiPrefix : CStr) (table : UInt8 → UInt8) (t : HttpText) (reads : List Bytes) :
    Prop :=
  ∀ env : WebEnv, env.apiPrefix = apiPrefix → ∀ s l b l' b' msg,
    dispatched env ⟨l, b, table⟩ s [t.bytes] = some [msg] →
      dispatched env ⟨l', b', table⟩ s reads = some [msg]

def pathPart (fullPath : CStr) : CStr :=
  fullPath.truncate (fullPath.bytes.takeWhile (· ≠ 63)).length

def queryPart (fullPath : CStr) : CStr :=
  fullPath.drop ((fullPath.bytes.takeWhile (· ≠ 63)).length + 1)

/-- The first read has the request line and, unless the index is asked for, the body, and its lines
name the caller whatever lies behind them. -/
structure FirstReadSuffices (apiPrefix : CStr) (table : UInt8 → UInt8) (t : HttpText)
    (fullPath : CStr) (first : Bytes) : Prop where
  line : t.line.length + 2 ≤ first.length
  body : isIndex (portalPath apiPrefix (pathPart fullPath)) = false →
    t.body = [] ∨ first = t.bytes
  caller : isIndex (portalPath apiPrefix (pathPart fullPath)) = false → ∀ behind,
    callerOf table (queryPart fullPath) (t.linesOf first behind) =
      callerOf table (queryPart fullPath) t.headers

section Reads

variable {apiPrefix : CStr} {table : UInt8 → UInt8} {t : HttpText} {first : Bytes}

theorem dispatched_eq_iff {left : Leftover} {s : CoreState} {raw : Bytes} {later : List Bytes} :
    dispatched env left s (raw :: later) = some [msg] ↔
      raw ≠ [] ∧ Sends (onHttpClient env left s raw) msg := by
  by_cases hraw : raw = []
  · simp [dispatched, hraw]
  · rw [dispatched, if_neg hraw, map_eq_some_iff]
    constructor
    · rintro ⟨⟨s', o⟩, hclient, hsent⟩
      exact ⟨hraw, s', o, hclient, Option.toList_eq_singleton_iff.mp hsent⟩
    · rintro ⟨-, s', o, hclient, hsent⟩
      exact ⟨(s', o), hclient, Option.toList_eq_singleton_iff.mpr hsent⟩

theorem bytes_ne_nil (t : HttpText) : t.bytes ≠ [] := by
  simp [HttpText.bytes, crlf]

theorem le_length_bytes (t : HttpText) : t.line.length + 2 ≤ t.bytes.length := by
  rw [t.bytes_eq, length_append, length_append_crlf]
  exact Nat.le_add_right _ _

def HttpText.request (t : HttpText) (table : UInt8 → UInt8) (method fullPath : CStr)
    (first behind : Bytes) : HttpRequest :=
  withApiKey ((t.linesOf first behind).foldl (readLine table)
    (startRequest first method fullPath))

theorem request_spec (t : HttpText) (table : UInt8 → UInt8) (method fullPath : CStr)
    (first behind : Bytes) :
    let req := t.request table method fullPath first behind
    req.caller = callerOf table (queryPart fullPath) (t.linesOf first behind) ∧
      req.method = method ∧ req.path = pathPart fullPath ∧ req.query = queryPart fullPath ∧
      req.body = (startRequest first method fullPath).body :=
  withApiKey_spec table first method fullPath (t.linesOf first behind)

theorem onHttpClient_first (ht : t.WellFormed) (hfirst : first <+: t.bytes)
    (hline : t.line.length + 2 ≤ first.length) {r : Nat × CStr × CStr}
    (hr : requestLine (t.line ++ crlf) = some r) (env : WebEnv) (s : CoreState) (l b : Bytes) :
    onHttpClient env ⟨l, b, table⟩ s first =
      handleHttpRequest env s (t.request table r.2.1 r.2.2 first l) := by
  rw [onHttpClient, parse_first ht hfirst hline, hr]
  rfl

theorem onHttpClient_short (ht : t.WellFormed) (hfirst : first <+: t.bytes)
    (hline : ¬ t.line.length + 2 ≤ first.length) (env : WebEnv) (s : CoreState) :
    onHttpClient env ⟨[], [], table⟩ s first = some (s, .badRequest) := by
  rw [onHttpClient, parse_short ht hfirst hline]

/-- Where a message is sent for the whole request, there is a request line, and the method is
not `OPTIONS`. -/
theorem requestLine_of_sends (ht : t.WellFormed) {s : CoreState} {l b : Bytes}
    (h : Sends (onHttpClient env ⟨l, b, table⟩ s t.bytes) msg) :
    ∃ r, requestLine (t.line ++ crlf) = some r ∧ r.2.1 ≠ .lit "OPTIONS" := by
  obtain hr | ⟨r, hr⟩ := eq_none_or_eq_some (requestLine (t.line ++ crlf))
  · rw [onHttpClient, parse_first ht prefix_rfl (le_length_bytes t), hr] at h
    obtain ⟨s', o, ⟨⟩, hsent⟩ := h
    cases hsent
  · refine ⟨r, hr, fun hoptions => ?_⟩
    rw [onHttpClient_first ht prefix_rfl (le_length_bytes t) hr] at h
    have hmethod := (request_spec t table r.2.1 r.2.2 t.bytes l).2.1
    rw [handleHttpRequest, if_pos (hmethod.trans hoptions)] at h
    obtain ⟨s', o, ⟨⟩, hsent⟩ := h
    cases hsent

theorem sends_first_iff (ht : t.WellFormed) (hfirst : first <+: t.bytes) {method fullPath : CStr}
    (hmethod : method ≠ .lit "OPTIONS")
    (hindex : isIndex (portalPath apiPrefix (pathPart fullPath)) = false) (l l' : Bytes) :
    (∀ env : WebEnv, env.apiPrefix = apiPrefix → ∀ s msg,
      Sends (handleHttpRequest env s (t.request table method fullPath t.bytes l)) msg →
        Sends (handleHttpRequest env s (t.request table method fullPath first l')) msg) ↔
      (t.body = [] ∨ first = t.bytes) ∧
        callerOf table (queryPart fullPath) (t.linesOf first l') =
          callerOf table (queryPart fullPath) t.headers := by
  obtain ⟨hcaller, hm, hpath, hquery, hbody⟩ := request_spec t table method fullPath t.bytes l
  obtain ⟨hcaller', hm', hpath', hquery', hbody'⟩ := request_spec t table method fullPath first l'
  rw [(body_first_iff ht prefix_rfl method fullPath).mpr (.inr rfl)] at hbody
  rw [linesOf_whole] at hcaller
  rw [← hm] at hmethod
  rw [← hpath] at hindex
  rw [handled_eq_iff hmethod (hm'.trans hm.symm) (hpath'.trans hpath.symm)
    (hquery'.trans hquery.symm) hindex, hbody, hbody', hcaller, hcaller', body_first_iff ht hfirst]

theorem handleHttpRequest_request_index {method fullPath : CStr} (hmethod : method ≠ .lit "OPTIONS")
    (hindex : isIndex (portalPath env.apiPrefix (pathPart fullPath)) = true) (s : CoreState)
    (first l : Bytes) :
    handleHttpRequest env s (t.request table method fullPath first l) =
      some (s, .index (indexMsg env)) := by
  obtain ⟨-, hm, hpath, -⟩ := request_spec t table method fullPath first l
  rw [← hm] at hmethod
  rw [← hpath] at hindex
  exact handleHttpRequest_index hmethod hindex s

section Whole

variable (ht : t.WellFormed) (hfirst : first <+: t.bytes) {later : List Bytes}
include ht hfirst

theorem reassembled_of_first
    (h : ∀ r, requestLine (t.line ++ crlf) = some r → r.2.1 ≠ .lit "OPTIONS" →
      FirstReadSuffices apiPrefix table t r.2.2 first) :
    Reassembled apiPrefix table t (first :: later) := by
  intro env henv s l b l' b' msg hs
  obtain ⟨-, hs⟩ := dispatched_eq_iff.mp hs
  obtain ⟨r, hr, hmethod⟩ := requestLine_of_sends ht hs
  obtain ⟨hline, hbody, hcaller⟩ := h r hr hmethod
  rw [onHttpClient_first ht prefix_rfl (le_length_bytes t) hr] at hs
  refine dispatched_eq_iff.mpr ⟨ne_nil_of_length_pos (by omega), ?_⟩
  rw [onHttpClient_first ht hfirst hline hr]
  cases hindex : isIndex (portalPath apiPrefix (pathPart r.2.2)) with
  | true =>
    rw [← henv] at hindex
    rw [handleHttpRequest_request_index hmethod hindex] at hs ⊢
    exact hs
  | false =>
    exact (sends_first_iff ht hfirst hmethod hindex l l').mpr
      ⟨hbody hindex, hcaller hindex l'⟩ env henv s msg hs

theorem first_of_reassembled (h : Reassembled apiPrefix table t (first :: later))
    {r : Nat × CStr × CStr} (hr : requestLine (t.line ++ crlf) = some r)
    (hmethod : r.2.1 ≠ .lit "OPTIONS") : FirstReadSuffices apiPrefix table t r.2.2 first := by
  have hsends {env : WebEnv} (henv : env.apiPrefix = apiPrefix) {s : CoreState} {l b : Bytes}
      {msg : PortalMsg}
      (hs : Sends (handleHttpRequest env s (t.request table r.2.1 r.2.2 t.bytes [])) msg) :
      Sends (onHttpClient env ⟨l, b, table⟩ s first) msg := by
    rw [← onHttpClient_first ht prefix_rfl (le_length_bytes t) hr env s [] []] at hs
    have hone : dispatched env ⟨[], [], table⟩ s [t.bytes] = some [msg] :=
      dispatched_eq_iff.mpr ⟨bytes_ne_nil t, hs⟩
    exact (dispatched_eq_iff.mp (h env henv s [] [] l b msg hone)).2
  have hline : t.line.length + 2 ≤ first.length := by
    by_contra hshort
    have hm := (request_spec t table r.2.1 r.2.2 t.bytes []).2.1
    obtain ⟨msg, hs⟩ := exists_sends apiPrefix (fun hoptions => hmethod (hm.symm.trans hoptions))
    obtain ⟨s', o, hclient, hsent⟩ := hsends (apiPrefix_loginEnv ..) hs
    rw [onHttpClient_short ht hfirst hshort] at hclient
    cases hclient
    cases hsent
  have hsame (hindex : isIndex (portalPath apiPrefix (pathPart r.2.2)) = false) (l : Bytes) :
      (t.body = [] ∨ first = t.bytes) ∧
        callerOf table (queryPart r.2.2) (t.linesOf first l) =
          callerOf table (queryPart r.2.2) t.headers := by
    refine (sends_first_iff ht hfirst hmethod hindex [] l).mp fun env henv s msg hs => ?_
    rw [← onHttpClient_first ht hfirst hline hr env s l []]
    exact hsends henv hs
  exact ⟨hline, fun hindex => (hsame hindex []).1, fun hindex l => (hsame hindex l).2⟩

end Whole

/-- However a request is cut into reads, it leads to the message to which it leads in one read, in
every world, exactly if the first read suffices. -/
theorem reassembled_iff (apiPrefix : CStr) (table : UInt8 → UInt8) (t : HttpText)
    (ht : t.WellFormed) (reads : List Bytes) (hreads : reads.flatten = t.bytes) :
    Reassembled apiPrefix table t reads ↔
      ∀ r, requestLine (t.line ++ crlf) = some r → r.2.1 ≠ .lit "OPTIONS" →
        FirstReadSuffices apiPrefix table t r.2.2 (reads.headD []) := by
  cases reads with
  | nil => exact absurd hreads.symm (bytes_ne_nil t)
  | cons first later =>
    have hfirst : first <+: t.bytes := ⟨later.flatten, hreads⟩
    constructor
    · intro h r hr hmethod
      exact first_of_reassembled ht hfirst h hr hmethod
    · intro h
      exact reassembled_of_first ht hfirst h

end Reads

def plainText : HttpText where
  line := (lit "GET /api/a/x HTTP/1.1").bytes
  headers := [(lit "Host: h").bytes, (lit "Accept: */*").bytes]
  body := []

def plainReads : List Bytes :=
  [(lit "GET /api/a/x HTTP/1.1\r\nHost: h\r\n").bytes,
    (lit "Accept: */*\r\n\r\n").bytes]

theorem reassembled_plainText :
    plainText.WellFormed ∧ plainReads.flatten = plainText.bytes ∧
      Reassembled (.lit "/api") (fun _ => 0) plainText plainReads := by
  have ht : plainText.WellFormed := ⟨by decide +kernel, by decide +kernel, by decide +kernel⟩
  have hreads : plainReads.flatten = plainText.bytes := by decide +kernel
  refine ⟨ht, hreads, (reassembled_iff _ _ plainText ht _ hreads).mpr fun r hr _ => ?_⟩
  have hline : requestLine (plainText.line ++ crlf) = some (21, .lit "GET", .lit "/api/a/x") := by
    decide +kernel
  cases hline.symm.trans hr
  refine ⟨by decide +kernel, fun _ => .inl rfl, fun _ behind => ?_⟩
  have hlines : plainText.linesOf (plainReads.headD []) behind = [(lit "Host: h").bytes] := rfl
  rw [hlines]
  decide +kernel

def postText : HttpText where
  line := (lit "POST /api/a/x HTTP/1.1").bytes
  headers := [(lit "Host: h").bytes, (lit "Content-Length: 2").bytes]
  body := (lit "hi").bytes

def postReads : List Bytes :=
  [(lit "POST /api/a/x HTTP/1.1\r\nHost: h\r\nContent-Length: 2\r\n\r\n").bytes,
    (lit "hi").bytes]

def postRequest (body : Bytes) : HttpRequest where
  method := .lit "POST"
  path := .lit "/api/a/x"
  query := .lit ""
  authToken := .lit ""
  basicUser := .lit ""
  basicPass := .lit ""
  contentType := .lit ""
  body

/-- The body is lost: the message that is sent has none. -/
theorem reassembled_false :
    postText.WellFormed ∧ postReads.flatten = postText.bytes ∧
      ¬ Reassembled (.lit "/api") (fun _ => 0) postText postReads := by
  refine ⟨⟨by decide +kernel, by decide +kernel, by decide +kernel⟩, by decide +kernel, ?_⟩
  intro h
  have hone : dispatched apiEnv noLeftover staffState [postText.bytes] =
      some [requestMsg apiEnv (postRequest (lit "hi").bytes)] := by
    decide +kernel
  have htwo : dispatched apiEnv noLeftover staffState postReads =
      some [requestMsg apiEnv (postRequest [])] := by
    decide +kernel
  have hsame := htwo.symm.trans (h apiEnv rfl staffState [] [] [] [] _ hone)
  revert hsame
  decide +kernel

end Portal.Web
