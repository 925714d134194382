import Portal.Core.Router
import Portal.Core.Wire

/-!
The decoders of `src/core/core_wire.c` on every buffer: they never read past its end, return only
on a frame, and what they have stored when they give up are copies of length-prefixed parts of the
buffer.

* `decodeMsg_ok_iff`, `decodeResp_ok_iff` — a decoder accepts exactly the buffers that start with a
  frame, and returns what the frame stands for.
-/

namespace Portal

open List Cursor Option

/-! ### Parts of the buffer -/

def StrIn (buf s : Bytes) : Prop := FitsStr s ∧ strField s <:+: buf

def BodyIn (buf body : Bytes) : Prop := body.length < 2 ^ 32 ∧ bodyField body <:+: buf

def PtrIn (buf : Bytes) (p : CharPtr) : Prop := ∀ s, p = some s → StrIn buf s

/-- A label is stored as a C string of at most 63 bytes. -/
def LabelIn (buf : Bytes) (l : CStr) : Prop :=
  ∃ s, StrIn buf s ∧ l = (CStr.ofBytes s).truncate (portalMaxLabelLen - 1)

def HeadersIn (buf : Bytes) (hs : List PortalHeader) : Prop :=
  ∀ h ∈ hs, PtrIn buf h.key ∧ PtrIn buf h.value

structure CtxIn (buf : Bytes) (c : PortalCtx) : Prop where
  user : PtrIn buf c.auth.user
  token : PtrIn buf c.auth.token
  labels : ∀ l ∈ c.auth.labels.labels, LabelIn buf l

section Parts

variable {buf part rest s : Bytes}

theorem StrIn.mono (h : StrIn part s) (hpart : part <:+: buf) : StrIn buf s :=
  ⟨h.1, h.2.trans hpart⟩

theorem ptrIn_none : PtrIn buf none := fun _ h => absurd h.symm (some_ne_none _)

theorem ptrIn_strPtr (h : StrIn buf s) : PtrIn buf (strPtr s) := by
  intro t ht
  rw [strPtr] at ht
  split at ht
  · cases ht
  · exact some.inj ht ▸ h

theorem HeadersIn.mono {hs : List PortalHeader} (h : HeadersIn part hs) (hpart : part <:+: buf) :
    HeadersIn buf hs :=
  fun e he => ⟨fun t ht => ((h e he).1 t ht).mono hpart, fun t ht => ((h e he).2 t ht).mono hpart⟩

theorem CtxIn.mono {c : PortalCtx} (h : CtxIn part c) (hpart : part <:+: buf) : CtxIn buf c where
  user t ht := (h.user t ht).mono hpart
  token t ht := (h.token t ht).mono hpart
  labels l hl :=
    have ⟨t, ht, heq⟩ := h.labels l hl
    ⟨t, ht.mono hpart, heq⟩

theorem strIn_front (h : FitsStr s) (hrest : part = strField s ++ rest) : StrIn part s :=
  ⟨h, hrest ▸ (prefix_append _ _).isInfix⟩

theorem infix_back {front : Bytes} (hrest : part = front ++ rest) : rest <:+: part :=
  hrest ▸ (suffix_append _ _).isInfix

theorem infix_flatMap {α : Type} {items : List α} {enc : α → Bytes} {x : α} (hx : x ∈ items)
    (hrest : part = items.flatMap enc ++ rest) : enc x <:+: part := by
  obtain ⟨l, r, rfl⟩ := append_of_mem hx
  rw [hrest, flatMap_append, flatMap_cons]
  exact ⟨l.flatMap enc, r.flatMap enc ++ rest, by simp⟩

theorem headersIn_fields {hs : List (Bytes × Bytes)} (hfits : ∀ h ∈ hs, FitsStr h.1 ∧ FitsStr h.2)
    (hrest : part = hs.flatMap headerField ++ rest) : HeadersIn part (hs.map headerPtr) := by
  intro p hp
  obtain ⟨h, hh, rfl⟩ := mem_map.mp hp
  have hfield : headerField h <:+: part := infix_flatMap hh hrest
  refine ⟨ptrIn_strPtr ⟨(hfits h hh).1, ?_⟩, ptrIn_strPtr ⟨(hfits h hh).2, ?_⟩⟩
  · exact (prefix_append _ _).isInfix.trans hfield
  · exact (suffix_append _ _).isInfix.trans hfield

theorem headersIn_replicate (n : Nat) : HeadersIn buf (List.replicate n .zero) := by
  intro h hh
  obtain rfl := eq_of_mem_replicate hh
  exact ⟨ptrIn_none, ptrIn_none⟩

theorem HeadersIn.append {hs ks : List PortalHeader} (h : HeadersIn buf hs)
    (k : HeadersIn buf ks) : HeadersIn buf (hs ++ ks) := by
  intro e he
  rcases mem_append.mp he with he | he
  · exact h e he
  · exact k e he

theorem labelIn_addLabel {ls : PortalLabels} {l : CStr} (hls : ∀ l ∈ ls.labels, LabelIn buf l)
    (hs : StrIn buf s) (hl : l ∈ (addLabel ls s).labels) : LabelIn buf l := by
  unfold addLabel portalLabelsAdd at hl
  split at hl
  · exact hls l hl
  split at hl
  · exact hls l hl
  split at hl
  · exact hls l hl
  · rcases mem_append.mp hl with hl | hl
    · exact hls l hl
    · exact ⟨s, hs, mem_singleton.mp hl⟩

theorem labelIn_foldl {strs : List Bytes} (hstrs : ∀ t ∈ strs, StrIn buf t) :
    ∀ {ls : PortalLabels}, (∀ l ∈ ls.labels, LabelIn buf l) →
      ∀ l ∈ (strs.foldl addLabel ls).labels, LabelIn buf l := by
  induction strs with
  | nil => exact fun hls => hls
  | cons t strs ih =>
    intro ls hls
    refine ih (fun u hu => hstrs u (mem_cons_of_mem t hu)) ?_
    exact fun l hl => labelIn_addLabel hls (hstrs t (mem_cons_self)) hl

theorem ctxIn_frame {f : CtxFrame} (hf : f.Fits) (hrest : part = f.bytes ++ rest) :
    CtxIn part f.ctx := by
  have hbytes : f.bytes <:+: part := hrest ▸ (prefix_append _ _).isInfix
  have hlabels : f.labels.flatMap strField <:+: f.bytes := by
    have hfront : f.bytes = (strField f.user ++ strField f.token ++ writeU64 f.trace.traceId ++
        writeU64 f.trace.parentId ++ writeU64 f.trace.timestampUs ++ writeU16 f.trace.hops ++
        writeU16 f.labelCount) ++ f.labels.flatMap strField := by
      simp [CtxFrame.bytes]
    exact infix_back hfront
  refine ⟨?_, ?_, ?_⟩
  · exact ptrIn_strPtr ⟨hf.user, (prefix_append _ _).isInfix.trans hbytes⟩
  · refine ptrIn_strPtr ⟨hf.token, List.IsInfix.trans ?_ hbytes⟩
    exact (prefix_append _ _).isInfix.trans (suffix_append _ _).isInfix
  refine labelIn_foldl ?_ fun _ hl => absurd hl not_mem_nil
  intro t ht
  have hfield : strField t <:+: f.labels.flatMap strField := infix_flatMap ht (append_nil _).symm
  exact ⟨hf.labels t ht, (hfield.trans hlabels).trans hbytes⟩

end Parts

section Readers

variable {σ : Type} {s : State σ} {E : σ → Prop}

theorem meets_word_map {α : Type} {k : Nat} {f : Nat → α} {enc : α → Bytes}
    {Q : α → State σ → Prop} (henc : ∀ n < 256 ^ k, enc (f n) = beEncode k n)
    (hlen : k ≤ s.rest.length)
    (hQ : ∀ v rest, s.rest = enc v ++ rest → Q v ⟨rest, s.out⟩) :
    Meets (do let n ← word k; pure (f n) : Reader σ α) s Q E := by
  refine .bind (.word hlen ?_)
  intro n rest hn hrest
  refine .pure (hQ _ rest ?_)
  rw [henc n hn]
  exact hrest

theorem meets_readU8 {Q : UInt8 → State σ → Prop} (hlen : 1 ≤ s.rest.length)
    (hQ : ∀ v rest, s.rest = writeU8 v ++ rest → Q v ⟨rest, s.out⟩) : Meets readU8 s Q E :=
  meets_word_map (fun n hn => by rw [writeU8, UInt8.toNat_ofNat_of_lt' hn]) hlen hQ

theorem meets_readU16 {Q : UInt16 → State σ → Prop} (hlen : 2 ≤ s.rest.length)
    (hQ : ∀ v rest, s.rest = writeU16 v ++ rest → Q v ⟨rest, s.out⟩) : Meets readU16 s Q E :=
  meets_word_map (fun n hn => by rw [writeU16, UInt16.toNat_ofNat_of_lt' hn]) hlen hQ

theorem meets_readU32 {Q : UInt32 → State σ → Prop} (hlen : 4 ≤ s.rest.length)
    (hQ : ∀ v rest, s.rest = writeU32 v ++ rest → Q v ⟨rest, s.out⟩) : Meets readU32 s Q E :=
  meets_word_map (fun n hn => by rw [writeU32, UInt32.toNat_ofNat_of_lt' hn]) hlen hQ

theorem meets_readU64 {Q : UInt64 → State σ → Prop} (hlen : 8 ≤ s.rest.length)
    (hQ : ∀ v rest, s.rest = writeU64 v ++ rest → Q v ⟨rest, s.out⟩) : Meets readU64 s Q E :=
  meets_word_map (fun n hn => by rw [writeU64, UInt64.toNat_ofNat_of_lt' hn]) hlen hQ

/-- The two checks in front of `read_str` are exactly what it needs. -/
theorem meets_checkedStr {Q : CharPtr → State σ → Prop} (hE : E s.out)
    (hQ : ∀ b rest, FitsStr b → s.rest = strField b ++ rest → Q (strPtr b) ⟨rest, s.out⟩) :
    Meets checkedStr s Q E := by
  refine .bind (.check hE fun h2 => ?_)
  refine .bind (.peek h2 ?_)
  refine .bind (.check hE fun hall => ?_)
  refine .bind (meets_readU16 h2 ?_)
  intro v rest hrest
  have hpeek : beDecode (s.rest.take 2) = v.toNat := by
    rw [hrest, take_append_of_le_length (by simp), take_of_length_le (by simp), writeU16,
      beDecode_beEncode_of_lt v.toNat_lt]
  rw [hpeek, hrest, length_append, length_writeU16] at hall
  by_cases hv : v = 0
  · subst hv
    rw [if_pos rfl]
    exact .pure (hQ [] rest (Nat.two_pow_pos 16) hrest)
  · rw [if_neg hv]
    refine .bind (.take (Nat.le_of_add_le_add_left hall) ?_)
    intro b rest' hlen hb
    have hne : b ≠ [] := by
      rintro rfl
      exact hv (UInt16.toNat_inj.mp hlen.symm)
    have hfield : strField b = writeU16 v ++ b := by rw [strField, hlen, UInt16.ofNat_toNat]
    have hfits : FitsStr b := hlen.trans_lt v.toNat_lt
    have hread := hQ b rest' hfits (by rw [hfield, hrest, append_assoc, ← hb])
    rw [strPtr, if_neg hne] at hread
    exact .pure hread

theorem modify_unfilled (hs : List PortalHeader) (n : Nat) (f : PortalHeader → PortalHeader) :
    (hs ++ List.replicate (n + 1) PortalHeader.zero).modify hs.length f
      = hs ++ f .zero :: List.replicate n PortalHeader.zero := by
  rw [replicate_succ, modify_append_cons]

/-- After `i` rounds of the header loop: the headers read stand in front of what is left, and the
rest of the table is zero. -/
def HeadersRead (upd : (PortalHeaders → PortalHeaders) → σ → σ) (count : UInt16) (s : State σ)
    (i : Nat) (s' : State σ) : Prop :=
  ∃ hs : List (Bytes × Bytes), hs.length = i ∧ (∀ h ∈ hs, FitsStr h.1 ∧ FitsStr h.2) ∧
    s.rest = hs.flatMap headerField ++ s'.rest ∧
    s'.out = upd (fun _ => ⟨count,
      hs.map headerPtr ++ List.replicate (count.toNat - i) .zero⟩) s.out

section Headers

variable {upd : (PortalHeaders → PortalHeaders) → σ → σ} {count : UInt16}
  (hupd : ∀ f g o, upd f (upd g o) = upd (fun b => f (g b)) o)
include hupd

theorem HeadersRead.next {i : Nat} {s' : State σ} (h : HeadersRead upd count s i s')
    (hi : i < count.toNat)
    (hE : ∀ ps, ps.length = count.toNat → HeadersIn s.rest ps →
      E (upd (fun _ => ⟨count, ps⟩) s.out)) :
    Meets (do
        let key ← checkedStr
        modify (upd fun b => { b with headers := b.headers.modify i fun h => { h with key } })
        let value ← checkedStr
        modify (upd fun b => { b with headers := b.headers.modify i fun h => { h with value } }))
      s' (fun _ => HeadersRead upd count s (i + 1)) E := by
  obtain ⟨hs, rfl, hfits, hrest, hout⟩ := h
  obtain ⟨n, hn⟩ : ∃ n, count.toNat - hs.length = n + 1 := ⟨count.toNat - hs.length - 1, by omega⟩
  have hmaplen : (hs.map headerPtr).length = hs.length := length_map _
  have hhs := headersIn_fields hfits hrest
  refine .bind (meets_checkedStr ?_ ?_)
  · rw [hout]
    exact hE _ (by simp; omega) (hhs.append (headersIn_replicate _))
  intro key rest₁ hkey hrest₁
  refine .bind (.modify ?_)
  rw [hout, hupd, hn, ← hmaplen]
  simp only [modify_unfilled]
  have hkeyIn : PtrIn s.rest (strPtr key) :=
    ptrIn_strPtr ((strIn_front hkey hrest₁).mono (infix_back hrest))
  refine .bind (meets_checkedStr ?_ ?_)
  · refine hE _ (by simp; omega) (hhs.append ?_)
    intro e he
    rcases mem_cons.mp he with rfl | he
    · exact ⟨hkeyIn, ptrIn_none⟩
    · exact headersIn_replicate n e he
  intro value rest₂ hvalue (hrest₂ : rest₁ = _)
  refine .modify ⟨hs ++ [(key, value)], by simp, ?_, ?_, ?_⟩
  · intro h hh
    rcases mem_append.mp hh with hh | hh
    · exact hfits h hh
    · obtain rfl := mem_singleton.mp hh
      exact ⟨hkey, hvalue⟩
  · rw [hrest, hrest₁, hrest₂, flatMap_append, flatMap_singleton, headerField]
    simp only [append_assoc]
  have hleft : count.toNat - (hs.length + 1) = n := by omega
  rw [hupd, hmaplen, hleft, ← hmaplen]
  simp only [modify_append_cons, map_append, map_singleton, append_assoc,
    singleton_append, headerPtr]

theorem meets_readHeaders {Q : Unit → State σ → Prop}
    (hfresh : upd (fun b => { b with headers := [] }) s.out = s.out)
    (hmany : portalMaxHeaders < count.toNat → E (upd (fun _ => ⟨count, []⟩) s.out))
    (hE : ∀ ps, ps.length = count.toNat → HeadersIn s.rest ps →
      E (upd (fun _ => ⟨count, ps⟩) s.out))
    (hQ : ∀ hs rest, FitsHeaders hs → hs.length = count.toNat →
      s.rest = hs.flatMap headerField ++ rest →
      Q () ⟨rest, upd (fun _ => ⟨count, hs.map headerPtr⟩) s.out⟩) :
    Meets (readHeaders upd count) s Q E := by
  have hcount : upd (fun b => { b with headerCount := count }) s.out
      = upd (fun _ => ⟨count, []⟩) s.out := by
    nth_rewrite 1 [← hfresh]
    rw [hupd]
  refine .bind (.modify ?_)
  rw [hcount]
  by_cases hmax : portalMaxHeaders < count.toNat
  · rw [if_pos hmax]
    exact .reject (hmany hmax)
  rw [if_neg hmax]
  by_cases h0 : count.toNat = 0
  · rw [if_pos h0]
    exact .pure (hQ [] s.rest ⟨Nat.zero_le _, by simp⟩ h0.symm rfl)
  rw [if_neg h0]
  refine .bind (.modify ?_)
  rw [hupd]
  refine .mono (.forRange (HeadersRead upd count s) ⟨[], rfl, by simp, rfl, rfl⟩ ?_) ?_
  · intro i hi s' h
    exact h.next hupd hi hE
  rintro _ s' ⟨hs, hlen, hfits, hrest, hout⟩
  have hmax' : hs.length ≤ portalMaxHeaders := by omega
  have hnone : hs.map headerPtr ++ List.replicate (count.toNat - count.toNat) .zero
      = hs.map headerPtr := by rw [Nat.sub_self, replicate_zero, append_nil]
  rw [hnone] at hout
  have hread := hQ hs s'.rest ⟨hmax', hfits⟩ hlen hrest
  rw [← hout] at hread
  exact hread

end Headers

theorem meets_readBody {setBody : Bytes → σ → σ} {Q : Unit → State σ → Prop} (hE : E s.out)
    (hfresh : setBody [] s.out = s.out)
    (hQ : ∀ body rest, body.length < 2 ^ 32 → s.rest = bodyField body ++ rest →
      Q () ⟨rest, setBody body s.out⟩) :
    Meets (readBody setBody) s Q E := by
  refine .bind (.check hE fun h4 => ?_)
  refine .bind (meets_readU32 h4 ?_)
  intro v rest hrest
  by_cases h0 : v.toNat = 0
  · rw [if_pos h0]
    obtain rfl : v = 0 := UInt32.toNat_inj.mp h0
    have hread := hQ [] rest (Nat.two_pow_pos 32) hrest
    rw [hfresh] at hread
    exact .pure hread
  · rw [if_neg h0]
    refine .bind (.check hE fun hall => ?_)
    refine .bind (.take hall ?_)
    intro body rest' hlen hbody
    have hfield : bodyField body = writeU32 v ++ body := by
      rw [bodyField, hlen, UInt32.ofNat_toNat]
    have hread := hQ body rest' (hlen.trans_lt v.toNat_lt)
      (by rw [hfield, hrest, append_assoc, ← hbody])
    exact .modify hread

end Readers

section Contexts

variable {s : State PortalMsg} {E : PortalMsg → Prop} {Q : Unit → State PortalMsg → Prop}

theorem meets_readLabels {n : Nat} {c : PortalCtx} (hctx : s.out.ctx = some c)
    (hE : ∀ strs : List Bytes, (∀ t ∈ strs, StrIn s.rest t) →
      E { s.out with ctx := some { c with auth.labels := strs.foldl addLabel c.auth.labels } })
    (hQ : ∀ (strs : List Bytes) rest, strs.length = n → (∀ t ∈ strs, FitsStr t) →
      s.rest = strs.flatMap strField ++ rest →
      Q () ⟨rest,
        { s.out with ctx := some { c with auth.labels := strs.foldl addLabel c.auth.labels } }⟩) :
    Meets (readLabels n) s Q E := by
  let I : Nat → State PortalMsg → Prop := fun i s' =>
    ∃ strs : List Bytes, strs.length = i ∧ (∀ t ∈ strs, FitsStr t) ∧
      s.rest = strs.flatMap strField ++ s'.rest ∧
      s'.out = { s.out with
        ctx := some { c with auth.labels := strs.foldl addLabel c.auth.labels } }
  have hstart : s.out = { s.out with ctx := some c } := by rw [← hctx]
  refine .mono (.forRange I ⟨[], rfl, by simp, rfl, hstart⟩ ?_) ?_
  · rintro i - s' ⟨strs, hlen, hfits, hrest, hout⟩
    refine .bind (meets_checkedStr ?_ ?_)
    · rw [hout]
      exact hE strs fun t ht => ⟨hfits t ht, infix_flatMap ht hrest⟩
    intro t rest ht hrest'
    have hnext : I (i + 1) ⟨rest, s'.out.updCtx fun c =>
        { c with auth.labels := addLabel c.auth.labels t }⟩ := by
      refine ⟨strs ++ [t], by simp [hlen], ?_, ?_, ?_⟩
      · intro u hu
        rcases mem_append.mp hu with hu | hu
        · exact hfits u hu
        · exact mem_singleton.mp hu ▸ ht
      · rw [hrest, hrest', flatMap_append, flatMap_singleton, append_assoc]
      · rw [hout, foldl_append, foldl_cons, foldl_nil]
        rfl
    by_cases hempty : t = []
    · have hsame : (s'.out.updCtx fun c => { c with auth.labels := addLabel c.auth.labels t })
          = s'.out := by
        rw [hout]
        simp [PortalMsg.updCtx, addLabel, hempty]
      rw [hsame] at hnext
      simp only [strPtr, hempty, if_true]
      exact .pure hnext
    · simp only [addLabel, hempty, if_false] at hnext
      simp only [strPtr, hempty, if_false]
      exact .modify hnext
  · rintro _ s' ⟨strs, hlen, hfits, hrest, hout⟩
    have hread := hQ strs s'.rest hlen hfits hrest
    rw [← hout] at hread
    exact hread

theorem ctxIn_zero {buf : Bytes} {user token : CharPtr} {trace : PortalTrace}
    (huser : PtrIn buf user) (htoken : PtrIn buf token) :
    CtxIn buf { PortalCtx.zero with auth := ⟨user, token, .empty⟩, trace } :=
  ⟨huser, htoken, fun _ hl => absurd hl not_mem_nil⟩

theorem length_of_append {part front rest : Bytes} {n m : Nat} (hpart : part = front ++ rest)
    (hfront : front.length = n) (hlen : n + m ≤ part.length) : m ≤ rest.length := by
  rw [hpart, length_append] at hlen
  omega

theorem meets_readCtx (hE : ∀ c, CtxIn s.rest c → E { s.out with ctx := some c })
    (hQ : ∀ f rest, CtxFrame.Fits f → s.rest = f.bytes ++ rest →
      Q () ⟨rest, { s.out with ctx := some f.ctx }⟩) :
    Meets readCtx s Q E := by
  refine .bind (.modify ?_)
  refine .bind (meets_checkedStr (hE _ (ctxIn_zero ptrIn_none ptrIn_none)) ?_)
  intro user r₁ huser (hr₁ : s.rest = _)
  have huserIn : PtrIn s.rest (strPtr user) := ptrIn_strPtr (strIn_front huser hr₁)
  refine .bind (.modify ?_)
  refine .bind (meets_checkedStr (hE _ (ctxIn_zero huserIn ptrIn_none)) ?_)
  intro token r₂ htoken (hr₂ : r₁ = _)
  have htokenIn : PtrIn s.rest (strPtr token) :=
    ptrIn_strPtr ((strIn_front htoken hr₂).mono (infix_back hr₁))
  refine .bind (.modify ?_)
  refine .bind (.check (hE _ (ctxIn_zero huserIn htokenIn)) fun h26 => ?_)
  refine .bind (meets_readU64 (le_trans (by decide) h26) ?_)
  intro traceId r₃ (hr₃ : r₂ = _)
  have h18 : 8 + 8 + 2 ≤ r₃.length := length_of_append hr₃ (length_writeU64 _) h26
  refine .bind (meets_readU64 (le_trans (by decide) h18) ?_)
  intro parentId r₄ (hr₄ : r₃ = _)
  have h10 : 8 + 2 ≤ r₄.length := length_of_append hr₄ (length_writeU64 _) h18
  refine .bind (meets_readU64 (le_trans (by decide) h10) ?_)
  intro timestampUs r₅ (hr₅ : r₄ = _)
  have h2 : 2 ≤ r₅.length := length_of_append hr₅ (length_writeU64 _) h10
  refine .bind (meets_readU16 h2 ?_)
  intro hops r₆ (hr₆ : r₅ = _)
  refine .bind (.modify ?_)
  refine .bind (.check (hE _ (ctxIn_zero huserIn htokenIn)) fun h2 => ?_)
  refine .bind (meets_readU16 h2 ?_)
  intro labelCount r₇ (hr₇ : r₆ = _)
  -- what the frame has in front of the labels
  have hfront : s.rest = (strField user ++ strField token ++ writeU64 traceId ++
      writeU64 parentId ++ writeU64 timestampUs ++ writeU16 hops ++ writeU16 labelCount) ++ r₇ := by
    simp [hr₁, hr₂, hr₃, hr₄, hr₅, hr₆, hr₇]
  have hback : r₇ <:+: s.rest := infix_back hfront
  refine meets_readLabels rfl ?_ ?_
  · intro strs hstrs
    refine hE _ ⟨huserIn, htokenIn, ?_⟩
    exact labelIn_foldl (fun t ht => (hstrs t ht).mono hback) fun _ hl => absurd hl not_mem_nil
  intro strs rest hlen hfits (hrest : r₇ = _)
  refine hQ ⟨user, token, ⟨traceId, parentId, timestampUs, hops⟩, labelCount, strs⟩ rest
    ⟨huser, htoken, hlen.symm, hfits⟩ ?_
  rw [hfront, hrest]
  simp [CtxFrame.bytes]

theorem meets_readHasCtx (hnone : s.out.ctx = none) (hE : E s.out)
    (hEctx : ∀ c, CtxIn s.rest c → E { s.out with ctx := some c })
    (hQ : ∀ hasCtx ctx rest, FitsCtx hasCtx ctx → s.rest = hasCtxField hasCtx ctx ++ rest →
      Q () ⟨rest, { s.out with ctx := ctx.map CtxFrame.ctx }⟩) :
    Meets readHasCtx s Q E := by
  refine .bind (.check hE fun h1 => ?_)
  refine .bind (meets_readU8 h1 ?_)
  intro hasCtx r₁ hr₁
  by_cases h0 : hasCtx = 0
  · rw [if_pos h0]
    have hread := hQ hasCtx none r₁ ⟨by simp [h0], by simp⟩ (by simpa [hasCtxField] using hr₁)
    have hsame : { s.out with ctx := none } = s.out := by rw [← hnone]
    rw [map_none, hsame] at hread
    exact .pure hread
  · rw [if_neg h0]
    refine meets_readCtx (fun c hc => hEctx c (hc.mono (infix_back hr₁))) ?_
    intro f rest hf (hrest : r₁ = _)
    refine hQ hasCtx (some f) rest ⟨by simp [h0], fun g hg => some.inj hg ▸ hf⟩ ?_
    rw [hr₁, hrest, hasCtxField, append_assoc]
    rfl

end Contexts

/-! ### The decoders on any buffer -/

def MsgTooMany (buf : Bytes) : Prop :=
  ∃ (size : UInt32) (id : UInt64) (method : UInt8) (path : Bytes) (count : UInt16) (rest : Bytes),
    FitsStr path ∧ portalMaxHeaders < count.toNat ∧
    buf = writeU32 size ++ (writeU64 id ++ (writeU8 method ++ (strField path ++
      (writeU16 count ++ rest))))

def RespTooMany (buf : Bytes) : Prop :=
  ∃ (size : UInt32) (status : UInt16) (count : UInt16) (rest : Bytes),
    portalMaxHeaders < count.toNat ∧
    buf = writeU32 size ++ (writeU16 status ++ (writeU16 count ++ rest))

/-- Every string and the body of the message are parts of the buffer. -/
structure MsgIn (buf : Bytes) (msg : PortalMsg) : Prop where
  path : PtrIn buf msg.path
  headers : HeadersIn buf msg.headers
  body : msg.body = [] ∨ BodyIn buf msg.body
  ctx : ∀ c, msg.ctx = some c → CtxIn buf c

structure RespIn (buf : Bytes) (resp : PortalResp) : Prop where
  headers : HeadersIn buf resp.headers
  body : resp.body = [] ∨ BodyIn buf resp.body

/-- As many headers as `header_count` says are allocated, or `P` holds and there are fewer. -/
def Allocated (P : Prop) (b : PortalHeaders) : Prop :=
  b.headers.length = b.headerCount.toNat ∨ (P ∧ b.headers.length < b.headerCount.toNat)

/-- On any buffer, the decoder reads a frame or gives up with parts of the buffer. -/
theorem meets_decodeMsg (buf : Bytes) :
    Meets decodeMsg ⟨buf, .zero⟩
      (fun _ s => ∃ f : MsgFrame, f.Fits ∧ buf = f.bytes ++ s.rest ∧ s.out = f.msg ∧
        MsgIn buf f.msg)
      (fun msg => MsgIn buf msg ∧ Allocated (MsgTooMany buf) msg.toPortalHeaders) := by
  have hnoHeaders : HeadersIn buf [] := fun _ hh => absurd hh not_mem_nil
  have hnoCtx : ∀ c, none = some c → CtxIn buf c := fun _ hc => absurd hc.symm (some_ne_none _)
  have hzero : ∀ id method path, PtrIn buf path →
      MsgIn buf { PortalMsg.zero with id, method, path } ∧ Allocated (MsgTooMany buf) .zero :=
    fun _ _ _ hpath => ⟨⟨hpath, hnoHeaders, .inl rfl, hnoCtx⟩, .inl rfl⟩
  refine .bind (.check (hzero _ _ _ ptrIn_none) fun h4 => ?_)
  refine .bind (meets_readU32 h4 ?_)
  intro size r₁ (hr₁ : buf = _)
  refine .bind (.check (hzero _ _ _ ptrIn_none) fun h8 => ?_)
  refine .bind (meets_readU64 h8 ?_)
  intro id r₂ (hr₂ : r₁ = _)
  refine .bind (.modify ?_)
  refine .bind (.check (hzero _ _ _ ptrIn_none) fun h1 => ?_)
  refine .bind (meets_readU8 h1 ?_)
  intro method r₃ (hr₃ : r₂ = _)
  refine .bind (.modify ?_)
  refine .bind (meets_checkedStr (hzero _ _ _ ptrIn_none) ?_)
  intro path r₄ hpath (hr₄ : r₃ = _)
  have hback₃ : r₃ <:+: buf := ((infix_back hr₃).trans (infix_back hr₂)).trans (infix_back hr₁)
  have hpathIn : PtrIn buf (strPtr path) := ptrIn_strPtr ((strIn_front hpath hr₄).mono hback₃)
  refine .bind (.modify ?_)
  refine .bind (.check (hzero _ _ _ hpathIn) fun h2 => ?_)
  refine .bind (meets_readU16 h2 ?_)
  intro count r₅ (hr₅ : r₄ = _)
  have hback₅ : r₅ <:+: buf := ((infix_back hr₅).trans (infix_back hr₄)).trans hback₃
  have hfront : buf = writeU32 size ++ (writeU64 id ++ (writeU8 method ++ (strField path ++
      (writeU16 count ++ r₅)))) := by rw [hr₁, hr₂, hr₃, hr₄, hr₅]
  refine .bind (meets_readHeaders (fun _ _ _ => rfl) rfl ?_ ?_ ?_)
  · intro hmany
    refine ⟨⟨hpathIn, hnoHeaders, .inl rfl, hnoCtx⟩, .inr ⟨?_, Nat.zero_lt_of_lt hmany⟩⟩
    exact ⟨size, id, method, path, count, r₅, hpath, hmany, hfront⟩
  · intro ps hlen hps
    exact ⟨⟨hpathIn, hps.mono hback₅, .inl rfl, hnoCtx⟩, .inl hlen⟩
  intro hs r₆ hfits hlen (hr₆ : r₅ = _)
  have hhsIn : HeadersIn buf (hs.map headerPtr) := (headersIn_fields hfits.strs hr₆).mono hback₅
  have hlen' : (hs.map headerPtr).length = count.toNat := by rw [length_map, hlen]
  have hback₆ : r₆ <:+: buf := (infix_back hr₆).trans hback₅
  refine .bind (meets_readBody ?_ rfl ?_)
  · exact ⟨⟨hpathIn, hhsIn, .inl rfl, hnoCtx⟩, .inl hlen'⟩
  intro body r₇ hbody (hr₇ : r₆ = _)
  have hbodyIn : BodyIn buf body :=
    ⟨hbody, (hr₇ ▸ (prefix_append _ _).isInfix : bodyField body <:+: r₆).trans hback₆⟩
  refine meets_readHasCtx rfl ?_ ?_ ?_
  · exact ⟨⟨hpathIn, hhsIn, .inr hbodyIn, hnoCtx⟩, .inl hlen'⟩
  · intro c hc
    refine ⟨⟨hpathIn, hhsIn, .inr hbodyIn, ?_⟩, .inl hlen'⟩
    exact fun d hd => some.inj hd ▸ hc.mono ((infix_back hr₇).trans hback₆)
  intro hasCtx ctx rest hctx (hrest : r₇ = _)
  have hcount : count = UInt16.ofNat hs.length := by rw [hlen, UInt16.ofNat_toNat]
  refine ⟨⟨size, id, method, path, hs, body, hasCtx, ctx⟩, ⟨hpath, hfits, hbody, hctx⟩, ?_, ?_,
    ⟨hpathIn, hhsIn, .inr hbodyIn, ?_⟩⟩
  · rw [hfront, hr₆, hr₇, hrest, hcount]
    simp [MsgFrame.bytes]
  · rw [hcount]
    rfl
  intro c hc
  obtain ⟨f, rfl, rfl⟩ := map_eq_some_iff.mp hc
  have hfield : r₇ = writeU8 hasCtx ++ (f.bytes ++ rest) := by
    rw [hrest, hasCtxField, append_assoc]
    rfl
  exact (ctxIn_frame (hctx.ctx f rfl) rfl).mono
    ((infix_back hfield).trans ((infix_back hr₇).trans hback₆))

theorem meets_decodeResp (buf : Bytes) :
    Meets decodeResp ⟨buf, .zero⟩
      (fun _ s => ∃ f : RespFrame, f.Fits ∧ buf = f.bytes ++ s.rest ∧ s.out = f.resp ∧
        RespIn buf f.resp)
      (fun resp => RespIn buf resp ∧ Allocated (RespTooMany buf) resp.toPortalHeaders) := by
  have hnoHeaders : HeadersIn buf [] := fun _ hh => absurd hh not_mem_nil
  have hzero : ∀ status, RespIn buf { PortalResp.zero with status } ∧
      Allocated (RespTooMany buf) .zero :=
    fun _ => ⟨⟨hnoHeaders, .inl rfl⟩, .inl rfl⟩
  refine .bind (.check (hzero _) fun h4 => ?_)
  refine .bind (meets_readU32 h4 ?_)
  intro size r₁ (hr₁ : buf = _)
  refine .bind (.check (hzero _) fun h4 => ?_)
  refine .bind (meets_readU16 (le_trans (by decide) h4) ?_)
  intro status r₂ (hr₂ : r₁ = _)
  have h2 : 2 ≤ r₂.length := length_of_append hr₂ (length_writeU16 _) h4
  refine .bind (.modify ?_)
  refine .bind (meets_readU16 h2 ?_)
  intro count r₃ (hr₃ : r₂ = _)
  have hback₃ : r₃ <:+: buf := ((infix_back hr₃).trans (infix_back hr₂)).trans (infix_back hr₁)
  have hfront : buf = writeU32 size ++ (writeU16 status ++ (writeU16 count ++ r₃)) := by
    rw [hr₁, hr₂, hr₃]
  refine .bind (meets_readHeaders (fun _ _ _ => rfl) rfl ?_ ?_ ?_)
  · intro hmany
    refine ⟨⟨hnoHeaders, .inl rfl⟩, .inr ⟨?_, Nat.zero_lt_of_lt hmany⟩⟩
    exact ⟨size, status, count, r₃, hmany, hfront⟩
  · intro ps hlen hps
    exact ⟨⟨hps.mono hback₃, .inl rfl⟩, .inl hlen⟩
  intro hs r₄ hfits hlen (hr₄ : r₃ = _)
  have hhsIn : HeadersIn buf (hs.map headerPtr) := (headersIn_fields hfits.strs hr₄).mono hback₃
  refine meets_readBody ?_ rfl ?_
  · exact ⟨⟨hhsIn, .inl rfl⟩, .inl ((length_map _).trans hlen)⟩
  intro body rest hbody (hrest : r₄ = _)
  have hcount : count = UInt16.ofNat hs.length := by rw [hlen, UInt16.ofNat_toNat]
  refine ⟨⟨size, status, hs, body⟩, ⟨hfits, hbody⟩, ?_, ?_, ⟨hhsIn, .inr ⟨hbody, ?_⟩⟩⟩
  · rw [hfront, hr₄, hrest, hcount]
    simp [RespFrame.bytes]
  · rw [hcount]
    rfl
  · exact (hrest ▸ (prefix_append _ _).isInfix : bodyField body <:+: r₄).trans
      ((infix_back hr₄).trans hback₃)

/-! ### What is accepted, and what is left behind -/

section Results

variable {buf : Bytes}

theorem decodeMsg_frame {f : MsgFrame} (hf : f.Fits) (hbuf : f.bytes <+: buf) :
    portalWireDecodeMsg buf .zero = (.ok (), f.msg) := by
  obtain ⟨rest, rfl⟩ := hbuf
  rw [portalWireDecodeMsg, reads_decodeMsg hf rest]

theorem decodeResp_frame {f : RespFrame} (hf : f.Fits) (hbuf : f.bytes <+: buf) :
    portalWireDecodeResp buf .zero = (.ok (), f.resp) := by
  obtain ⟨rest, rfl⟩ := hbuf
  rw [portalWireDecodeResp, reads_decodeResp hf rest]

theorem decodeMsg_cases (buf : Bytes) :
    (∃ f : MsgFrame, f.Fits ∧ f.bytes <+: buf ∧
      portalWireDecodeMsg buf .zero = (.ok (), f.msg) ∧ MsgIn buf f.msg) ∨
    (∃ msg, portalWireDecodeMsg buf .zero = (.error .reject, msg) ∧ MsgIn buf msg ∧
      Allocated (MsgTooMany buf) msg.toPortalHeaders) := by
  rcases (meets_decodeMsg buf).cases with ⟨_, s, heq, f, hf, hbuf, hout, hIn⟩ | ⟨s, heq, hE⟩
  · exact .inl ⟨f, hf, ⟨s.rest, hbuf.symm⟩, by rw [portalWireDecodeMsg, heq, ← hout], hIn⟩
  · exact .inr ⟨s.out, by rw [portalWireDecodeMsg, heq], hE⟩

theorem decodeResp_cases (buf : Bytes) :
    (∃ f : RespFrame, f.Fits ∧ f.bytes <+: buf ∧
      portalWireDecodeResp buf .zero = (.ok (), f.resp) ∧ RespIn buf f.resp) ∨
    (∃ resp, portalWireDecodeResp buf .zero = (.error .reject, resp) ∧ RespIn buf resp ∧
      Allocated (RespTooMany buf) resp.toPortalHeaders) := by
  rcases (meets_decodeResp buf).cases with ⟨_, s, heq, f, hf, hbuf, hout, hIn⟩ | ⟨s, heq, hE⟩
  · exact .inl ⟨f, hf, ⟨s.rest, hbuf.symm⟩, by rw [portalWireDecodeResp, heq, ← hout], hIn⟩
  · exact .inr ⟨s.out, by rw [portalWireDecodeResp, heq], hE⟩

/-- The decoder accepts exactly the buffers that start with a frame. -/
theorem decodeMsg_ok_iff {msg : PortalMsg} :
    portalWireDecodeMsg buf .zero = (.ok (), msg) ↔
      ∃ f : MsgFrame, f.Fits ∧ f.bytes <+: buf ∧ msg = f.msg := by
  constructor
  · intro h
    rcases decodeMsg_cases buf with ⟨f, hf, hbuf, heq, -⟩ | ⟨m, heq, -⟩
    · exact ⟨f, hf, hbuf, (Prod.mk.inj (h.symm.trans heq)).2⟩
    · cases h.symm.trans heq
  · rintro ⟨f, hf, hbuf, rfl⟩
    exact decodeMsg_frame hf hbuf

theorem decodeResp_ok_iff {resp : PortalResp} :
    portalWireDecodeResp buf .zero = (.ok (), resp) ↔
      ∃ f : RespFrame, f.Fits ∧ f.bytes <+: buf ∧ resp = f.resp := by
  constructor
  · intro h
    rcases decodeResp_cases buf with ⟨f, hf, hbuf, heq, -⟩ | ⟨m, heq, -⟩
    · exact ⟨f, hf, hbuf, (Prod.mk.inj (h.symm.trans heq)).2⟩
    · cases h.symm.trans heq
  · rintro ⟨f, hf, hbuf, rfl⟩
    exact decodeResp_frame hf hbuf

/-- The decoders never read past the end, and every string and body they store, on success or
failure, is the copy of a part of the buffer behind its own length; a label is cut to 63 bytes, and
at its first NUL. -/
theorem decoders_copy_buffer (buf : Bytes) :
    ((portalWireDecodeMsg buf .zero).1 ≠ .error .overread ∧
      MsgIn buf (portalWireDecodeMsg buf .zero).2) ∧
    ((portalWireDecodeResp buf .zero).1 ≠ .error .overread ∧
      RespIn buf (portalWireDecodeResp buf .zero).2) := by
  constructor
  · rcases decodeMsg_cases buf with ⟨f, -, -, heq, hIn⟩ | ⟨msg, heq, hIn, -⟩ <;> rw [heq] <;>
      exact ⟨by simp, hIn⟩
  · rcases decodeResp_cases buf with ⟨f, -, -, heq, hIn⟩ | ⟨resp, heq, hIn, -⟩ <;> rw [heq] <;>
      exact ⟨by simp, hIn⟩

def longLabelFrame : MsgFrame where
  size := 0
  id := 0
  method := 0
  path := [47]
  headers := []
  body := []
  hasCtx := 1
  ctx := some ⟨[], [], ⟨0, 0, 0, 0⟩, 1, [List.replicate 64 97]⟩

theorem fits_longLabelFrame : longLabelFrame.Fits := by
  refine ⟨by decide, ⟨by decide, by simp [longLabelFrame]⟩, by decide,
    ⟨by simp [longLabelFrame], ?_⟩⟩
  intro f hf
  obtain rfl := some.inj hf
  exact ⟨by decide, by decide, by decide, forall_mem_singleton.mpr (by decide)⟩

/-- The label comes back one byte short, so it is no part of the buffer behind its length. -/
theorem longLabelFrame_cut :
    portalWireDecodeMsg longLabelFrame.bytes .zero = (.ok (), longLabelFrame.msg) ∧
    ∃ c l, longLabelFrame.msg.ctx = some c ∧ c.auth.labels.labels = [l] ∧
      ¬ StrIn longLabelFrame.bytes l.bytes := by
  refine ⟨decodeMsg_frame fits_longLabelFrame (prefix_refl _), _,
    (CStr.ofBytes (List.replicate 64 97)).truncate 63, rfl, by decide +kernel, ?_⟩
  rintro ⟨-, hinfix⟩
  exact absurd hinfix (by decide +kernel)

end Results

/-! ### Using and freeing the result -/

/-- The header loop of the two free functions: the strings it frees, or `none` when it
reads a header that is not allocated. -/
def freeHeaders (b : PortalHeaders) : Option (List CharPtr) :=
  if b.headers.length < b.headerCount.toNat then none
  else some ((b.headers.take b.headerCount.toNat).flatMap fun h => [h.key, h.value])

def portalMsgFree (msg : PortalMsg) : Option (List CharPtr) := do
  let hs ← freeHeaders msg.toPortalHeaders
  let ctx := match msg.ctx with
    | none => []
    | some c => [c.auth.user, c.auth.token, c.sourceNode, c.sourceModule]
  some (msg.path :: (hs ++ ctx))

def portalRespFree (resp : PortalResp) : Option (List CharPtr) :=
  freeHeaders resp.toPortalHeaders

structure UsableHeaders (b : PortalHeaders) : Prop where
  max : b.headerCount.toNat ≤ portalMaxHeaders
  allocated : b.headers.length = b.headerCount.toNat
  strs : ∀ h ∈ b.headers, h.key ≠ none ∧ h.value ≠ none

/-- The outcome of a decoder can be used: what it accepted can be sent on, and what it
left behind can be freed. -/
structure SafeMsg (rc : Except Halt Unit) (msg : PortalMsg) : Prop where
  path : rc = .ok () → msg.path ≠ none
  headers : rc = .ok () → UsableHeaders msg.toPortalHeaders
  counted : msg.headerCount.toNat ≤ msg.headers.length
  send : rc = .ok () → ∀ inst nextId now, (apiSend inst nextId now msg).1 ≠ .crash
  free : (portalMsgFree msg).isSome

structure SafeResp (rc : Except Halt Unit) (resp : PortalResp) : Prop where
  headers : rc = .ok () → UsableHeaders resp.toPortalHeaders
  counted : resp.headerCount.toNat ≤ resp.headers.length
  free : (portalRespFree resp).isSome

def NoEmpty (hs : List (Bytes × Bytes)) : Prop := ∀ h ∈ hs, h.1 ≠ [] ∧ h.2 ≠ []

/-- Not more than 32 headers are announced, and if the buffer starts with a frame, its path, header
keys and values are not empty. -/
structure CleanMsg (buf : Bytes) : Prop where
  count : ¬ MsgTooMany buf
  strs : ∀ f : MsgFrame, f.Fits → f.bytes <+: buf → f.path ≠ [] ∧ NoEmpty f.headers

structure CleanResp (buf : Bytes) : Prop where
  count : ¬ RespTooMany buf
  strs : ∀ f : RespFrame, f.Fits → f.bytes <+: buf → NoEmpty f.headers

section Safety

variable {buf : Bytes}

theorem freeHeaders_isSome {b : PortalHeaders} :
    (freeHeaders b).isSome ↔ b.headerCount.toNat ≤ b.headers.length := by
  rw [freeHeaders]
  split <;> rename_i h <;> simp <;> omega

theorem portalMsgFree_isSome {msg : PortalMsg} :
    (portalMsgFree msg).isSome ↔ msg.headerCount.toNat ≤ msg.headers.length := by
  rw [← freeHeaders_isSome, portalMsgFree]
  cases freeHeaders msg.toPortalHeaders <;> rfl

theorem apiSend_crash_iff {inst : PortalInstance} {nextId now : UInt64} {msg : PortalMsg} :
    (apiSend inst nextId now msg).1 = .crash ↔ msg.path = none := by
  have hinvoke : ∀ modName, invoke inst modName ≠ .crash := by
    intro modName
    unfold invoke
    repeat' split
    all_goals simp
  have hdispatch : ∀ path ctx, dispatch inst path ctx ≠ .crash := by
    intro path ctx
    unfold dispatch
    split
    · simp
    · split
      · simp
      · exact hinvoke _
  cases hp : msg.path with
  | none => simp [apiSend, populateTrace, hp]
  | some p => simp [apiSend, populateTrace, hp, hdispatch]

theorem strPtr_ne_none {s : Bytes} : strPtr s ≠ none ↔ s ≠ [] := by
  rw [strPtr]
  split <;> simp_all

theorem FitsHeaders.usable_iff {hs : List (Bytes × Bytes)} (h : FitsHeaders hs) :
    UsableHeaders ⟨UInt16.ofNat hs.length, hs.map headerPtr⟩ ↔ NoEmpty hs := by
  constructor
  · intro hu e he
    obtain ⟨hk, hv⟩ := hu.strs _ (mem_map_of_mem he)
    exact ⟨strPtr_ne_none.mp hk, strPtr_ne_none.mp hv⟩
  intro hne
  refine ⟨h.count.trans_le h.max, (length_map _).trans h.count.symm, ?_⟩
  intro p hp
  obtain ⟨e, he, rfl⟩ := mem_map.mp hp
  exact ⟨strPtr_ne_none.mpr (hne e he).1, strPtr_ne_none.mpr (hne e he).2⟩

theorem readHeaders_tooMany {σ : Type} {upd : (PortalHeaders → PortalHeaders) → σ → σ}
    {count : UInt16} (h : portalMaxHeaders < count.toNat) (f : Unit → Reader σ Unit)
    (s : State σ) :
    (readHeaders upd count >>= f) s
      = (.error .reject, ⟨s.rest, upd (fun b => { b with headerCount := count }) s.out⟩) := by
  have hrun : readHeaders upd count s
      = (.error .reject, ⟨s.rest, upd (fun b => { b with headerCount := count }) s.out⟩) := by
    rw [readHeaders, modify_bind_apply, if_pos h]
    rfl
  simp only [Bind.bind, hrun]

/-- A buffer that announces too many headers is rejected with `header_count` set and no
header allocated. -/
theorem decodeMsg_tooMany (h : MsgTooMany buf) :
    ∃ msg, portalWireDecodeMsg buf .zero = (.error .reject, msg) ∧
      msg.headers.length < msg.headerCount.toNat := by
  obtain ⟨size, id, method, path, count, rest, hpath, hmany, rfl⟩ := h
  refine ⟨{ PortalMsg.zero with id, method, path := strPtr path, headerCount := count }, ?_,
    Nat.zero_lt_of_lt hmany⟩
  rw [portalWireDecodeMsg, decodeMsg, check_bind_apply (by simp), (reads_readU32 size).bind_apply,
    check_bind_apply (by simp), (reads_readU64 id).bind_apply, modify_bind_apply,
    check_bind_apply (by simp), (reads_readU8 method).bind_apply, modify_bind_apply,
    (reads_checkedStr hpath).bind_apply, modify_bind_apply, check_bind_apply (by simp),
    (reads_readU16 count).bind_apply, readHeaders_tooMany hmany]
  rfl

theorem decodeResp_tooMany (h : RespTooMany buf) :
    ∃ resp, portalWireDecodeResp buf .zero = (.error .reject, resp) ∧
      resp.headers.length < resp.headerCount.toNat := by
  obtain ⟨size, status, count, rest, hmany, rfl⟩ := h
  refine ⟨{ PortalResp.zero with status, headerCount := count }, ?_, Nat.zero_lt_of_lt hmany⟩
  rw [portalWireDecodeResp, decodeResp, check_bind_apply (by simp),
    (reads_readU32 size).bind_apply, check_bind_apply (by simp; omega),
    (reads_readU16 status).bind_apply, modify_bind_apply, (reads_readU16 count).bind_apply,
    readHeaders_tooMany hmany]
  rfl

theorem Allocated.counted {P : Prop} {b : PortalHeaders} (h : Allocated P b) (hP : ¬ P) :
    b.headerCount.toNat ≤ b.headers.length := by
  rcases h with h | ⟨hp, -⟩
  · exact h.ge
  · exact absurd hp hP

theorem safeMsg_iff :
    SafeMsg (portalWireDecodeMsg buf .zero).1 (portalWireDecodeMsg buf .zero).2 ↔ CleanMsg buf := by
  constructor
  · intro hsafe
    refine ⟨?_, ?_⟩
    · intro hmany
      obtain ⟨msg, heq, hlt⟩ := decodeMsg_tooMany hmany
      rw [heq] at hsafe
      exact not_lt.mpr hsafe.counted hlt
    · intro f hf hbuf
      rw [decodeMsg_frame hf hbuf] at hsafe
      exact ⟨strPtr_ne_none.mp (hsafe.path rfl), hf.headers.usable_iff.mp (hsafe.headers rfl)⟩
  intro hclean
  rcases decodeMsg_cases buf with ⟨f, hf, hbuf, heq, -⟩ | ⟨msg, heq, -, halloc⟩
  · obtain ⟨hpath, hne⟩ := hclean.strs f hf hbuf
    have hptr : f.msg.path ≠ none := strPtr_ne_none.mpr hpath
    have husable : UsableHeaders f.msg.toPortalHeaders := hf.headers.usable_iff.mpr hne
    rw [heq]
    exact
      { path := fun _ => hptr
        headers := fun _ => husable
        counted := husable.allocated.ge
        send := fun _ _ _ _ hcrash => hptr (apiSend_crash_iff.mp hcrash)
        free := portalMsgFree_isSome.mpr husable.allocated.ge }
  · have hcounted := halloc.counted hclean.count
    rw [heq]
    exact
      { path := fun h => by cases h
        headers := fun h => by cases h
        counted := hcounted
        send := fun h => by cases h
        free := portalMsgFree_isSome.mpr hcounted }

theorem safeResp_iff :
    SafeResp (portalWireDecodeResp buf .zero).1 (portalWireDecodeResp buf .zero).2 ↔
      CleanResp buf := by
  constructor
  · intro hsafe
    refine ⟨?_, ?_⟩
    · intro hmany
      obtain ⟨resp, heq, hlt⟩ := decodeResp_tooMany hmany
      rw [heq] at hsafe
      exact not_lt.mpr hsafe.counted hlt
    · intro f hf hbuf
      rw [decodeResp_frame hf hbuf] at hsafe
      exact hf.headers.usable_iff.mp (hsafe.headers rfl)
  intro hclean
  rcases decodeResp_cases buf with ⟨f, hf, hbuf, heq, -⟩ | ⟨resp, heq, -, halloc⟩
  · have husable : UsableHeaders f.resp.toPortalHeaders :=
      hf.headers.usable_iff.mpr (hclean.strs f hf hbuf)
    rw [heq]
    exact
      { headers := fun _ => husable
        counted := husable.allocated.ge
        free := freeHeaders_isSome.mpr husable.allocated.ge }
  · have hcounted := halloc.counted hclean.count
    rw [heq]
    exact
      { headers := fun h => by cases h
        counted := hcounted
        free := freeHeaders_isSome.mpr hcounted }

/-- The outcome is safe to use exactly when at most 32 headers are announced and, if the buffer is
a frame, no path, key or value in it is empty: an empty one becomes NULL, and `header_count` is
stored before it is checked. -/
theorem decoders_safe_iff (buf : Bytes) :
    (SafeMsg (portalWireDecodeMsg buf .zero).1 (portalWireDecodeMsg buf .zero).2 ↔
      CleanMsg buf) ∧
    (SafeResp (portalWireDecodeResp buf .zero).1 (portalWireDecodeResp buf .zero).2 ↔
      CleanResp buf) :=
  ⟨safeMsg_iff, safeResp_iff⟩

def emptyPathBuf : Bytes := List.replicate 22 0

def manyHeadersBuf : Bytes := List.replicate 15 0 ++ [0, 33]

/-- The first buffer is accepted and crashes `api_send`; the second is rejected, and
freeing what is left reads a header array that was never allocated. -/
theorem decoders_safe_false :
    (portalWireDecodeMsg emptyPathBuf .zero).1 = .ok () ∧
    (∀ inst nextId now,
      (apiSend inst nextId now (portalWireDecodeMsg emptyPathBuf .zero).2).1 = .crash) ∧
    (portalWireDecodeMsg manyHeadersBuf .zero).1 = .error .reject ∧
    portalMsgFree (portalWireDecodeMsg manyHeadersBuf .zero).2 = none := by
  refine ⟨by decide +kernel, ?_, by decide +kernel, by decide +kernel⟩
  intro inst nextId now
  exact apiSend_crash_iff.mpr (by decide +kernel)

end Safety

end Portal
