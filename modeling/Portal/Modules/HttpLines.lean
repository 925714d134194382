import Portal.Modules.HttpBasic

/-!
The lines of a request (`parse_http_request` in `modules/mod_web/mod_web.c`).

* `parseHttpRequest_eq` — a request is its request line, its header lines and the key in the query.
* `headerLines_eq` — the header lines are the complete lines of the bytes read and at most one
  more, made of what is left of them and the text behind.
-/

namespace Portal.Web

open List Option

/-! ### Ends of lines -/

/-- CR LF stands at position `n`. -/
def LineEnd (s : Bytes) (n : Nat) : Prop := s[n]? = some 13 ∧ s[n + 1]? = some 10

section Search

variable {s a b : Bytes} {n : Nat}

theorem crlf_prefix_iff : crlf <+: s ↔ LineEnd s 0 := by
  rcases s with _ | ⟨c, _ | ⟨c', s⟩⟩
  · simp [crlf, LineEnd]
  · simp [crlf, LineEnd]
  · simp [crlf, LineEnd, eq_comm]

theorem lineEnd_cons {c : UInt8} : LineEnd (c :: s) (n + 1) ↔ LineEnd s n := Iff.rfl

theorem strstr_crlf_eq_some_iff :
    strstr crlf s = some n ↔ LineEnd s n ∧ ∀ m < n, ¬ LineEnd s m := by
  induction s generalizing n with
  | nil => simp [strstr, crlf, LineEnd]
  | cons c s ih =>
    rw [strstr]
    by_cases hhere : LineEnd (c :: s) 0
    · rw [if_pos (crlf_prefix_iff.mpr hhere)]
      constructor
      · rintro ⟨⟩
        exact ⟨hhere, fun m hm => absurd hm (Nat.not_lt_zero m)⟩
      rintro ⟨-, hfirst⟩
      cases n with
      | zero => rfl
      | succ n => exact absurd hhere (hfirst 0 (Nat.succ_pos n))
    · rw [if_neg (fun h => hhere (crlf_prefix_iff.mp h))]
      cases n with
      | zero => simp [hhere]
      | succ n =>
        rw [map_eq_some_iff]
        simp only [Nat.add_right_cancel_iff, exists_eq_right, ih, lineEnd_cons]
        refine and_congr_right fun _ => ⟨fun hfirst m hm => ?_, fun hfirst m hm => ?_⟩
        · cases m with
          | zero => exact hhere
          | succ m => exact hfirst m (Nat.lt_of_succ_lt_succ hm)
        · exact hfirst (m + 1) (Nat.succ_lt_succ hm)

theorem strstr_crlf_eq_none_iff : strstr crlf s = none ↔ ∀ n, ¬ LineEnd s n := by
  constructor
  · intro hnone n hend
    induction n using Nat.strong_induction_on with
    | _ n ih =>
      have hsome := strstr_crlf_eq_some_iff.mpr ⟨hend, fun m hm hend' => ih m hm hend'⟩
      rw [hnone] at hsome
      cases hsome
  · intro hall
    refine eq_none_iff_forall_ne_some.mpr fun n hn => ?_
    exact hall n (strstr_crlf_eq_some_iff.mp hn).1

theorem lt_of_lineEnd (h : LineEnd s n) : n + 1 < s.length :=
  (List.getElem?_eq_some_iff.mp h.2).1

theorem lineEnd_append_left (h : n + 1 < a.length) : LineEnd (a ++ b) n ↔ LineEnd a n := by
  unfold LineEnd
  rw [getElem?_append_left (by omega), getElem?_append_left h]

theorem length_of_strstr {pat : Bytes} (h : strstr pat s = some n) : n + pat.length ≤ s.length := by
  induction s generalizing n with
  | nil =>
    rw [strstr] at h
    split at h
    · rename_i hnil
      cases h
      simp [hnil]
    · cases h
  | cons c s ih =>
    rw [strstr] at h
    split at h
    · rename_i hstarts
      cases h
      simpa using hstarts.length_le
    obtain ⟨m, hm, rfl⟩ := map_eq_some_iff.mp h
    have := ih hm
    rw [length_cons]
    omega

theorem strstr_append {pat : Bytes} (h : strstr pat a = some n) : strstr pat (a ++ b) = some n := by
  induction a generalizing n with
  | nil =>
    rw [strstr] at h
    split at h
    · rename_i hnil
      cases h
      cases b <;> simp [strstr, hnil]
    · cases h
  | cons c a ih =>
    rw [strstr] at h
    rw [cons_append, strstr]
    split at h
    · rename_i hstarts
      rw [if_pos (hstarts.trans ⟨b, by simp⟩)]
      exact h
    rename_i hstarts
    obtain ⟨m, hm, rfl⟩ := map_eq_some_iff.mp h
    have hlen := length_of_strstr hm
    rw [if_neg, ih hm]
    · rfl
    -- a match here would lie within the first part
    intro hmore
    refine hstarts (prefix_of_prefix_length_le hmore ⟨b, by simp⟩ ?_)
    rw [length_cons]
    omega

theorem strstr_take_of_find (h : strstr crlf s = some n) : strstr crlf (s.take n) = none := by
  refine strstr_crlf_eq_none_iff.mpr fun m hend => ?_
  have hlt := lt_of_lineEnd hend
  rw [length_take] at hlt
  unfold LineEnd at hend
  rw [getElem?_take_of_lt (by omega), getElem?_take_of_lt (by omega)] at hend
  exact (strstr_crlf_eq_some_iff.mp h).2 m (by omega) hend

section

variable (ha : strstr crlf a = none)

include ha

/-- What is not in the first part begins at its last byte at the earliest, and there only if
that is a CR. -/
theorem le_of_strstr_append (h : strstr crlf (a ++ b) = some n) :
    a.length ≤ n ∨ n + 1 = a.length ∧ a.getLast? = some 13 := by
  obtain ⟨hend, -⟩ := strstr_crlf_eq_some_iff.mp h
  by_cases hle : a.length ≤ n
  · exact .inl hle
  · by_cases hlt : n + 1 < a.length
    · exact absurd ((lineEnd_append_left hlt).mp hend) (strstr_crlf_eq_none_iff.mp ha n)
    · have hn : n + 1 = a.length := by omega
      refine .inr ⟨hn, ?_⟩
      rw [getLast?_eq_getElem?, ← hn, Nat.add_sub_cancel,
        ← getElem?_append_left (by omega : n < a.length)]
      exact hend.1

theorem strstr_append_crlf : strstr crlf (a ++ crlf) = some a.length := by
  refine strstr_crlf_eq_some_iff.mpr ⟨⟨?_, ?_⟩, fun m hm hend => ?_⟩
  · rw [getElem?_append_right (le_refl _), Nat.sub_self]
    rfl
  · rw [getElem?_append_right (Nat.le_add_right _ 1), Nat.add_sub_cancel_left]
    rfl
  by_cases hlt : m + 1 < a.length
  · exact strstr_crlf_eq_none_iff.mp ha m ((lineEnd_append_left hlt).mp hend)
  · -- the byte behind the last one of the line is CR, not LF
    have hlf := hend.2
    rw [show m + 1 = a.length by omega, getElem?_append_right (le_refl _),
      Nat.sub_self] at hlf
    cases hlf

theorem strstr_append_lf (hlast : a.getLast? = some 13) :
    strstr crlf (a ++ [10]) = some (a.length - 1) := by
  have hpos : 0 < a.length := by
    cases a with
    | nil => cases hlast
    | cons c a => exact Nat.succ_pos _
  rw [getLast?_eq_getElem?] at hlast
  refine strstr_crlf_eq_some_iff.mpr ⟨⟨?_, ?_⟩, fun m hm hend => ?_⟩
  · rw [getElem?_append_left (by omega), hlast]
  · rw [Nat.sub_add_cancel hpos, getElem?_append_right (le_refl _), Nat.sub_self]
    rfl
  · exact strstr_crlf_eq_none_iff.mp ha m ((lineEnd_append_left (by omega)).mp hend)

theorem strstr_append_plain {y : Bytes} (hy : Plain y) : strstr crlf (a ++ y) = none := by
  refine strstr_crlf_eq_none_iff.mpr fun n hend => ?_
  by_cases hlt : n + 1 < a.length
  · exact strstr_crlf_eq_none_iff.mp ha n ((lineEnd_append_left hlt).mp hend)
  · have hlf := hend.2
    rw [getElem?_append_right (by omega)] at hlf
    exact (hy 10 (mem_of_getElem? hlf)).2.1 rfl

end

end Search

/-! ### The pieces of a request -/

/-- The length of the request line, the method, and what follows it in the line. -/
def methodWord (text : Bytes) : Option (Nat × CStr × Bytes) :=
  ((strstr crlf text).filter fun ll => ll < 2048).bind fun ll =>
    (scanWord 15 (text.take ll)).map fun w => (ll, w)

def requestLine (text : Bytes) : Option (Nat × CStr × CStr) :=
  (methodWord text).bind fun m => (scanWord 1023 m.2.2).map fun w => (m.1, m.2.1, w.1)

def startRequest (raw : Bytes) (method fullPath : CStr) : HttpRequest where
  method := method
  path := fullPath.truncate (fullPath.bytes.takeWhile (· ≠ 63)).length
  query := fullPath.drop ((fullPath.bytes.takeWhile (· ≠ 63)).length + 1)
  authToken := .lit ""
  basicUser := .lit ""
  basicPass := .lit ""
  contentType := .lit ""
  body := (strstr (crlf ++ crlf) raw).elim [] fun i => raw.drop (i + 4)

/-- The last step: without a token, the key in the query. -/
def withApiKey (req : HttpRequest) : HttpRequest :=
  if req.authToken.bytes = [] then
    { req with authToken := (queryApiKey req.query).getD req.authToken }
  else req

theorem take_cText {buf : Bytes} {n : Nat} (hn : n ≤ (cText buf).length) :
    (cText buf).take n = buf.take n := by
  obtain ⟨rest, hrest⟩ := takeWhile_prefix (fun b => b != 0) (l := buf)
  change cText buf ++ rest = buf at hrest
  conv_rhs => rw [← hrest, take_append_of_le_length hn]

theorem parseHttpRequest_eq (left : Leftover) (raw : Bytes) :
    parseHttpRequest left raw = (requestLine (cText (raw ++ left.raw))).map fun r =>
      withApiKey ((headerLines (raw ++ left.raw) raw.length (raw.length + 1) (r.1 + 2)).foldl
        (headerLine left) (startRequest raw r.2.1 r.2.2)) := by
  unfold parseHttpRequest requestLine methodWord
  simp only [Option.bind_eq_bind]
  obtain hll | ⟨ll, hll⟩ := eq_none_or_eq_some (strstr crlf (cText (raw ++ left.raw)))
  · simp [hll]
  · have htake : (cText (raw ++ left.raw)).take ll = (raw ++ left.raw).take ll :=
      take_cText (le_of_lt (Nat.lt_of_succ_lt (lt_of_lineEnd
        (strstr_crlf_eq_some_iff.mp hll).1)))
    rw [hll]
    by_cases hlong : 2048 ≤ ll
    · simp [hlong, not_lt.mpr hlong, filter_some]
    · simp only [bind_some, if_neg hlong, filter_some, not_le.mp hlong,
        decide_true, if_true, htake]
      obtain hm | ⟨⟨m, rest⟩, hm⟩ := eq_none_or_eq_some (scanWord 15 ((raw ++ left.raw).take ll))
      · simp [hm]
      · obtain hp | ⟨⟨p, rest'⟩, hp⟩ := eq_none_or_eq_some (scanWord 1023 rest)
        · simp [hm, hp]
        · simp only [hm, hp, bind_some, map_some, withApiKey]
          exact (apply_ite some _ _ _).symm

/-! ### Complete lines and the line that is cut off -/

/-- `headerLine` with nothing left behind; the table goes with the program. -/
def readLine (table : UInt8 → UInt8) : HttpRequest → Bytes → HttpRequest :=
  headerLine ⟨[], [], table⟩

theorem headerLine_eq (left : Leftover) : headerLine left = readLine left.table := by
  funext req line
  unfold readLine headerLine
  simp only [decodeBasic_eq]

/-- The lines that are complete, up to an empty one, and what is left of the bytes read. -/
def completeLines : Nat → Bytes → List Bytes × Option Bytes
  | 0, _ => ([], none)
  | fuel + 1, rest =>
    if rest = [] then ([], none)
    else
      match strstr crlf rest with
      | some 0 => ([], none)
      | some (n + 1) =>
        let after := completeLines fuel (rest.drop (n + 3))
        (rest.take (n + 1) :: after.1, after.2)
      | none => ([], some rest)

/-- The line that is made of a cut one and the text behind it, if it ends there. -/
def cutLines (cut behind : Bytes) : List Bytes :=
  match strstr crlf (cut ++ behind) with
  | some (n + 1) => [(cut ++ behind).take (n + 1)]
  | _ => []

theorem headerLines_end {buf : Bytes} {rawLen fuel p : Nat} (hp : rawLen ≤ p) :
    headerLines buf rawLen fuel p = [] := by
  cases fuel with
  | zero => rfl
  | succ fuel => rw [headerLines, if_neg (not_lt.mpr hp)]

theorem headerLines_cut {raw : Bytes} (behind : Bytes) {fuel p : Nat} (hp : p < raw.length)
    (hnul : (0 : UInt8) ∉ raw.drop p) (hfree : strstr crlf (raw.drop p) = none) :
    headerLines (raw ++ behind) raw.length (fuel + 1) p = cutLines (raw.drop p) (cText behind) := by
  have htext : cText ((raw ++ behind).drop p) = raw.drop p ++ cText behind := by
    rw [drop_append_of_le_length (le_of_lt hp), cText_append_of_notMem hnul]
  rw [headerLines, if_pos hp]
  simp only [htext, cutLines]
  obtain hmore | ⟨n, hmore⟩ := eq_none_or_eq_some (strstr crlf (raw.drop p ++ cText behind))
  · simp only [hmore]
  · have hend := le_of_strstr_append hfree hmore
    rw [length_drop] at hend
    cases n with
    | zero => simp only [hmore]
    | succ n => simp only [hmore, headerLines_end (by omega : raw.length ≤ p + (n + 1) + 2)]

theorem headerLines_eq {raw : Bytes} (hnul : (0 : UInt8) ∉ raw) (behind : Bytes) {fuel p : Nat}
    (hp : p ≤ raw.length) :
    headerLines (raw ++ behind) raw.length fuel p = (completeLines fuel (raw.drop p)).1 ++
      (completeLines fuel (raw.drop p)).2.elim [] fun cut => cutLines cut (cText behind) := by
  induction fuel generalizing p with
  | zero => rfl
  | succ fuel ih =>
    by_cases hlt : p < raw.length
    · have hnul' : (0 : UInt8) ∉ raw.drop p := fun h => hnul (mem_of_mem_drop h)
      have htext : cText ((raw ++ behind).drop p) = raw.drop p ++ cText behind := by
        rw [drop_append_of_le_length hp, cText_append_of_notMem hnul']
      have hne : raw.drop p ≠ [] := by
        rw [ne_eq, drop_eq_nil_iff]
        omega
      obtain hfind | ⟨n, hfind⟩ := eq_none_or_eq_some (strstr crlf (raw.drop p))
      · rw [headerLines_cut behind hlt hnul' hfind, completeLines, if_neg hne, hfind]
        rfl
      · have hlen := lt_of_lineEnd (strstr_crlf_eq_some_iff.mp hfind).1
        rw [length_drop] at hlen
        rw [headerLines, completeLines, if_pos hlt, if_neg hne]
        simp only [htext]
        cases n with
        | zero => simp only [strstr_append hfind, hfind, nil_append, elim_none]
        | succ n =>
          have htake : (raw.drop p ++ cText behind).take (n + 1) = (raw.drop p).take (n + 1) := by
            rw [take_append_of_le_length]
            rw [length_drop]
            omega
          simp only [strstr_append hfind, hfind, htake, cons_append, drop_drop,
            ih (by omega : p + (n + 1) + 2 ≤ raw.length)]
          rfl
    · have hnil : raw.drop p = [] := drop_eq_nil_iff.mpr (not_lt.mp hlt)
      rw [headerLines, completeLines, if_neg hlt, if_pos hnil]
      rfl

section Cut

variable {cut : Bytes}

/-- What a cut line can become: nothing, a longer line, or itself without a CR at its end. -/
theorem cutLines_cases (hcut : strstr crlf cut = none) {behind : Bytes}
    (hnul : (0 : UInt8) ∉ behind) :
    cutLines cut behind = [] ∨
      (∃ y, (0 : UInt8) ∉ y ∧ strstr crlf (cut ++ y) = none ∧ cutLines cut behind = [cut ++ y]) ∨
      cut.getLast? = some 13 ∧ cutLines cut behind = [cut.dropLast] := by
  unfold cutLines
  obtain hfind | ⟨n, hfind⟩ := eq_none_or_eq_some (strstr crlf (cut ++ behind))
  · exact .inl (by simp only [hfind])
  · cases n with
    | zero => exact .inl (by simp only [hfind])
    | succ n =>
      simp only [hfind]
      rcases le_of_strstr_append hcut hfind with hle | ⟨hlen, hlast⟩
      · have hline : (cut ++ behind).take (n + 1) = cut ++ behind.take (n + 1 - cut.length) := by
          rw [take_append, take_of_length_le hle]
        refine .inr (.inl ⟨behind.take (n + 1 - cut.length),
          fun h => hnul (mem_of_mem_take h), ?_, by rw [hline]⟩)
        rw [← hline]
        exact strstr_take_of_find hfind
      · refine .inr (.inr ⟨hlast, ?_⟩)
        rw [take_append_of_le_length (by omega), dropLast_eq_take, ← hlen, Nat.add_sub_cancel]

theorem cutLines_of_find {behind : Bytes} {n : Nat} (hfind : strstr crlf (cut ++ behind) = some n)
    (hpos : 0 < n) : cutLines cut behind = [(cut ++ behind).take n] := by
  cases n with
  | zero => exact absurd hpos (lt_irrefl 0)
  | succ n => simp only [cutLines, hfind]

theorem cutLines_longer (hne : cut ≠ []) {y : Bytes} (hfree : strstr crlf (cut ++ y) = none) :
    cutLines cut (y ++ crlf) = [cut ++ y] := by
  have hfind := strstr_append_crlf hfree
  rw [append_assoc] at hfind
  have hpos : 0 < (cut ++ y).length := length_pos_iff.mpr (append_ne_nil_of_left_ne_nil hne y)
  rw [cutLines_of_find hfind hpos, ← append_assoc, take_left]

theorem cutLines_lf (hcut : strstr crlf cut = none) (hlast : cut.getLast? = some 13)
    (hne : cut.dropLast ≠ []) : cutLines cut [10] = [cut.dropLast] := by
  have hpos := length_pos_iff.mpr hne
  rw [length_dropLast] at hpos
  rw [cutLines_of_find (strstr_append_lf hcut hlast) hpos,
    take_append_of_le_length (Nat.sub_le _ _), dropLast_eq_take]

theorem cutLines_nil (hcut : strstr crlf cut = none) : cutLines cut [] = [] := by
  rw [cutLines, append_nil, hcut]

end Cut

/-! ### Header names -/

def bearerName : CStr := .lit "Authorization: Bearer "

def basicName : CStr := .lit "Authorization: Basic "

def contentTypeName : CStr := .lit "Content-Type: "

/-- The line can still become one with this header. -/
def Agrees (name : CStr) (cut : Bytes) : Prop :=
  (cut.take name.bytes.length).map toLower = (name.bytes.take cut.length).map toLower

section Names

variable {name : CStr} {cut : Bytes}

theorem agrees_of_headerValue {y : Bytes} (h : headerValue name (cut ++ y) ≠ none) :
    Agrees name cut := by
  unfold headerValue at h
  split at h
  · rename_i hmatch
    have htake := congrArg (List.take cut.length) hmatch
    rw [← map_take, ← map_take, take_take, min_comm, ← take_take, take_left] at htake
    exact htake
  · exact absurd rfl h

theorem headerValue_of_agrees (h : Agrees name cut) (y : Bytes) :
    headerValue name (cut ++ (name.bytes.drop cut.length ++ y)) =
      some (.ofBytes (cut.drop name.bytes.length ++ y)) := by
  unfold Agrees at h
  unfold headerValue
  by_cases hlen : cut.length ≤ name.bytes.length
  · have hsplit : cut ++ (name.bytes.drop cut.length ++ y) =
        (cut ++ name.bytes.drop cut.length) ++ y := (append_assoc ..).symm
    have hlength : (cut ++ name.bytes.drop cut.length).length = name.bytes.length := by
      rw [length_append, length_drop]
      omega
    rw [take_of_length_le hlen] at h
    rw [hsplit, take_left' hlength, drop_left' hlength, map_append, h,
      ← map_append, take_append_drop, if_pos rfl, drop_eq_nil_of_le hlen,
      nil_append]
  · have hlen' : name.bytes.length ≤ cut.length := by omega
    rw [take_of_length_le hlen'] at h
    rw [drop_eq_nil_of_le hlen', nil_append, take_append_of_le_length hlen',
      if_pos h, drop_append_of_le_length hlen']

theorem map_take_of_headerValue {line : Bytes} {k : Nat} (hk : k ≤ name.bytes.length)
    (h : headerValue name line ≠ none) :
    (line.take k).map toLower = (name.bytes.take k).map toLower := by
  unfold headerValue at h
  split at h
  · rename_i hmatch
    have htake := congrArg (List.take k) hmatch
    rw [← map_take, ← map_take, take_take, min_eq_left hk] at htake
    exact htake
  · exact absurd rfl h

theorem headerValue_eq_none_of_ne {name' : CStr} {line : Bytes} (k : Nat)
    (hne : (name.bytes.take k).map toLower ≠ (name'.bytes.take k).map toLower)
    (hk : k ≤ name.bytes.length) (hk' : k ≤ name'.bytes.length)
    (h : headerValue name line ≠ none) : headerValue name' line = none := by
  by_contra h'
  exact hne ((map_take_of_headerValue hk h).symm.trans (map_take_of_headerValue hk' h'))

end Names

section Lines

variable (table : UInt8 → UInt8) (req : HttpRequest) {line : Bytes} {value : CStr}

theorem readLine_bearer (h : headerValue bearerName line = some value) :
    readLine table req line = { req with authToken := value.truncate 127 } := by
  unfold bearerName at h
  simp only [readLine, headerLine, h]

theorem readLine_basic (h : headerValue basicName line = some value) :
    readLine table req line = (credential (sextet table) value.bytes).elim req fun c =>
      { req with basicUser := c.1, basicPass := c.2 } := by
  have hbearer : headerValue bearerName line = none :=
    headerValue_eq_none_of_ne 17 (by decide) (by decide) (by decide)
      (ne_none_iff_exists'.mpr ⟨value, h⟩)
  unfold basicName at h
  unfold bearerName at hbearer
  simp only [readLine, headerLine, h, hbearer, decodeBasic_eq]
  cases credential (sextet table) value.bytes with
  | none | some c => rfl

theorem readLine_contentType (h : headerValue contentTypeName line = some value) :
    readLine table req line = { req with contentType := value.truncate 63 } := by
  have hsome := ne_none_iff_exists'.mpr ⟨value, h⟩
  have hbearer : headerValue bearerName line = none :=
    headerValue_eq_none_of_ne 1 (by decide) (by decide) (by decide) hsome
  have hbasic : headerValue basicName line = none :=
    headerValue_eq_none_of_ne 1 (by decide) (by decide) (by decide) hsome
  unfold contentTypeName at h
  unfold bearerName at hbearer
  unfold basicName at hbasic
  simp only [readLine, headerLine, h, hbearer, hbasic]

theorem readLine_other (hbearer : headerValue bearerName line = none)
    (hbasic : headerValue basicName line = none)
    (htype : headerValue contentTypeName line = none) : readLine table req line = req := by
  unfold bearerName at hbearer
  unfold basicName at hbasic
  unfold contentTypeName at htype
  simp only [readLine, headerLine, hbearer, hbasic, htype]

end Lines

end Portal.Web
