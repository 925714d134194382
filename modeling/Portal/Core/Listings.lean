import Portal.Core.Handlers
import Portal.Core.IniFiles
import Portal.Lib.Assignments

/-!
What a caller learns of the path registry: `/core/paths`, `/core/ls` and `/core/resolve` of
`src/core/core_handlers.c`. The first two leave out what the caller does not see
(`portal_labels_allow`), and print the rest in the order of the hash table.

* `enumeration_hides` — when the answer tells nothing of the hidden entries.
-/

namespace Portal

open List Assignments

variable {name kind : CStr} {lines : List Bytes}

/-! ### Lines -/

/-- The test of `strbuf_append`. The result of `vsnprintf` is negative if an `int` does not
hold the length. -/
def strbufFits (room : Nat) (text : Bytes) : Bool :=
  let needed : Int := if text.length < 2147483648 then text.length else -1
  0 < needed && needed.toNat < room

def strbufAppend (cap : Nat) (buf text : Bytes) : Bytes :=
  if strbufFits (cap - buf.length) text then buf ++ text else buf

theorem strbufFits_iff {room : Nat} {text : Bytes} :
    strbufFits room text = true ↔
      0 < text.length ∧ text.length < room ∧ text.length < 2147483648 := by
  by_cases hint : text.length < 2147483648 <;> simp [strbufFits, hint]

/-- `strbuf_t`: the array, cut at `len`. -/
structure StrBuf where
  text : Bytes
  rest : Bytes
  room : 0 < rest.length

namespace StrBuf

def cap (sb : StrBuf) : Nat := sb.text.length + sb.rest.length

/-- What `vsnprintf` leaves behind `len`: as much of the text as there is room for, and a NUL. -/
def print (sb : StrBuf) (text : Bytes) : Bytes :=
  text.take (sb.rest.length - 1) ++ 0 :: sb.rest.drop (text.length + 1)

theorem length_print (sb : StrBuf) (text : Bytes) :
    (sb.print text).length = sb.rest.length := by
  have := sb.room
  simp only [print, length_append, length_take, length_cons, length_drop]
  omega

def append (sb : StrBuf) (text : Bytes) : StrBuf :=
  if h : strbufFits sb.rest.length text then
    { text := sb.text ++ text
      rest := (sb.print text).drop text.length
      room := by
        have := strbufFits_iff.mp h
        rw [length_drop, length_print]
        omega }
  else ⟨sb.text, sb.print text, sb.length_print text ▸ sb.room⟩

def body (sb : StrBuf) : Bytes := sb.text ++ sb.rest.take 1

def new (cap : Nat) : StrBuf := ⟨[], 0 :: replicate (cap - 1) 0, Nat.succ_pos _⟩

end StrBuf

def strbufLines (cap : Nat) (lines : List Bytes) : StrBuf :=
  (lines.map (· ++ [10])).foldl StrBuf.append (.new cap)

def bodyLines (body : Bytes) : Set Bytes := {l | l ∈ body.splitOn 10}

/-! ### `/core/paths` -/

def seenBy (caller : Option PortalCtx) (e : PathEntry) : Bool :=
  (portalLabelsAllow caller (some e.labels)).1

/-- The filter of both callbacks: the entry is looked up again by its path. -/
def listed (tree : PortalPathTree) (caller : Option PortalCtx) (path : CStr) : Bool :=
  (portalPathLookupEntry tree path).all fun e => seenBy caller e

/-- `"  %-40s → %s"` -/
def pathLine (path moduleName : CStr) : Bytes :=
  [32, 32] ++ padTo 40 path.bytes ++ [32, 0xE2, 0x86, 0x92, 32] ++ moduleName.bytes

def pathLines (tree : PortalPathTree) (caller : Option PortalCtx) : List Bytes :=
  (CStr.lit "Registered paths:").bytes ::
    ((portalHtIter tree.table).filter fun e => listed tree caller e.1).map fun e =>
      pathLine e.1 e.2.moduleName

def handlePathsList (tree : PortalPathTree) (caller : Option PortalCtx) : Bytes :=
  (strbufLines 65536 (pathLines tree caller)).body

/-! ### `/core/ls` -/

def lsMaxEntries : Nat := 128

/-- An entry as `/core/ls` shows it: the directory itself, or a child of it. -/
inductive LsItem where
  | self (moduleName : CStr)
  | child (name moduleName : CStr) (isLeaf : Bool)
deriving DecidableEq

structure LsChild where
  name : CStr
  moduleName : CStr
  isLeaf : Bool
deriving DecidableEq

/-- What `ls_cb` makes of a path below the prefix. -/
def lsItem (pre path moduleName : CStr) : LsItem :=
  let rest := path.drop pre.bytes.length
  let rest :=
    if rest.bytes.head? = some slash ∧ pre.bytes ≠ [] ∧ pre.bytes.getLast? ≠ some slash then
      rest.drop 1
    else rest
  if rest.bytes = [] then .self moduleName
  else
    let n := (rest.bytes.takeWhile (· ≠ slash)).length
    .child ((rest.truncate n).truncate 127) moduleName (n = rest.bytes.length)

def lsItems (tree : PortalPathTree) (caller : Option PortalCtx) (pre : CStr) : List LsItem :=
  ((portalHtIter tree.table).filter fun e =>
    decide (pre.bytes <+: e.1.bytes) && listed tree caller e.1).map fun e =>
      lsItem pre e.1 e.2.moduleName

def lsModule (moduleName : CStr) : CStr := moduleName.truncate (portalMaxModuleName - 1)

/-- The rest of `ls_cb`, with room for `max` children. A name that is there becomes a leaf, of the
module that comes last. -/
def lsAdd (max : Nat) (children : List LsChild) : LsItem → List LsChild
  | .self moduleName =>
    if children.length < max then children ++ [⟨.lit ".", lsModule moduleName, true⟩]
    else children
  | .child name moduleName isLeaf =>
    match children.findIdx? fun c => c.name = name with
    | some i =>
      if isLeaf then
        children.modify i fun c => { c with moduleName := lsModule moduleName, isLeaf := true }
      else children
    | none =>
      if children.length < max then
        children ++ [⟨name, if isLeaf then lsModule moduleName else .lit "", isLeaf⟩]
      else children

/-- `"  %-30s [%s]"` -/
def leafLine (name kind : CStr) : Bytes :=
  [32, 32] ++ padTo 30 name.bytes ++ [32, 91] ++ kind.bytes ++ [93]

/-- `"  %-30s/"` -/
def directoryLine (name : CStr) : Bytes := [32, 32] ++ padTo 30 name.bytes ++ [47]

def LsChild.line (c : LsChild) : Bytes :=
  if c.isLeaf then leafLine c.name c.moduleName else directoryLine c.name

def groupNames (db : AuthDb) : List CStr :=
  ((db.accounts.flatMap fun u => u.labels.labels).foldl
    (fun (st : List CStr × List CStr) label =>
      if label ∈ st.1 ∨ 128 ≤ st.1.length then st
      else (st.1 ++ [label.truncate (portalMaxLabelLen - 1)], st.2 ++ [label])) ([], [])).2

def dynamicChildren (db : AuthDb) (pre : CStr) : List Bytes :=
  if pre = .lit "/users" then db.accounts.map fun u => leafLine u.username (.lit "user")
  else if pre = .lit "/groups" then (groupNames db).map fun g => leafLine g (.lit "group")
  else []

def lsLines (s : CoreState) (caller : Option PortalCtx) (pre : CStr) : List Bytes :=
  (((lsItems s.paths caller pre).foldl (lsAdd lsMaxEntries) []).filter fun c =>
    c.name ≠ .lit ".").map LsChild.line ++ dynamicChildren s.auth pre

def lsBody (s : CoreState) (caller : Option PortalCtx) (pre : CStr) : Bytes :=
  let sb := strbufLines 8192 (lsLines s caller pre)
  (if sb.text = [] then sb.append ((CStr.lit "  (empty)").bytes ++ [10]) else sb).body

/-! ### Answers -/

def CoreBody.render (s : CoreState) (caller : Option PortalCtx) : CoreBody → Bytes
  | .text bytes => bytes
  | .listing .paths => handlePathsList s.paths caller
  | .listing (.children pre) => lsBody s caller pre
  | _ => []

def answer (s : CoreState) (msg : PortalMsg) (path : CStr) :
    Option (Option (PortalStatus × Set Bytes)) :=
  (handleNavigation s msg path).map fun r => r.map fun r =>
    (r.2.status, bodyLines (r.2.body.render s msg.ctx))

def lsDirectory (msg : PortalMsg) : Option CStr :=
  (lsPrefix msg.headerList).map fun pre =>
    let pre := pre.truncate (portalMaxPathLen - 1)
    stripSlashes pre.bytes.length pre

def resolvedPath (msg : PortalMsg) : Option CStr := do
  let args ← msg.headerList.foldlM resolveHeader (some (CStr.lit "/").bytes, some [])
  let target ← args.2
  let resolved ← joinPath args.1 (.ofBytes target)
  some (stripSlashes 1 resolved)

theorem handleLs_eq (s : CoreState) (msg : PortalMsg) :
    handleLs s msg = (lsDirectory msg).bind fun pre => s.reply (.list (.children pre)) := by
  rw [handleLs, lsDirectory]
  cases lsPrefix msg.headerList <;> rfl

theorem handleResolve_eq (s : CoreState) (msg : PortalMsg) :
    handleResolve s msg = (resolvedPath msg).bind fun r =>
      if r = .lit "/" ∨ pathExists s.paths r = true then s.reply ⟨.ok, 0, textz r⟩
      else s.reply (.fail .notFound) := by
  rw [handleResolve, resolvedPath]
  simp [Option.bind_assoc]

/-! ### Property and condition -/

/-- The registries have the entries in common that the caller sees. -/
def SameVisible (caller : Option PortalCtx) (tree tree' : PortalPathTree) : Prop :=
  ∀ path e, seenBy caller e = true →
    (portalPathLookupEntry tree path = some e ↔ portalPathLookupEntry tree' path = some e)

/-- The listing fits its buffers: the lines their text, and the children their table. -/
def ListingFits (s : CoreState) (caller : Option PortalCtx) : Listing → Prop
  | .paths => ((pathLines s.paths caller).map (· ++ [10])).flatten.length < 65536
  | .children pre =>
    ((lsItems s.paths caller pre).foldl
      (lsAdd (lsItems s.paths caller pre).length) []).length ≤ lsMaxEntries ∧
    ((lsLines s caller pre).map (· ++ [10])).flatten.length < 8192
  | _ => True

def LeadsTo (path resolved : CStr) : Prop :=
  resolved.bytes <+: path.bytes ∧ (path.bytes.length = resolved.bytes.length ∨
    (path.bytes.drop resolved.bytes.length).head? = some slash)

/-- There are entries at the path, and the caller sees none of them. -/
def OnlyHidden (tree : PortalPathTree) (caller : Option PortalCtx) (resolved : CStr) : Prop :=
  (∃ path e, portalPathLookupEntry tree path = some e ∧ LeadsTo path resolved) ∧
    ∀ path e, portalPathLookupEntry tree path = some e → LeadsTo path resolved →
      seenBy caller e = false

def LsItem.leaf? : LsItem → Option (CStr × CStr)
  | .child name moduleName true => some (name, lsModule moduleName)
  | _ => none

/-- The module that is shown for a name: of the entries with it, the table has the last one. -/
def lastOwner (name : CStr) (items : List LsItem) : Option CStr :=
  assigned name (items.filterMap LsItem.leaf?)

def SameOwners (tree tree' : PortalPathTree) (caller : Option PortalCtx) (pre : CStr) : Prop :=
  ∀ name, name ≠ .lit "." →
    lastOwner name (lsItems tree caller pre) = lastOwner name (lsItems tree' caller pre)

/-- The request does not turn on what the caller does not see. -/
structure Discreet (tree tree' : PortalPathTree) (msg : PortalMsg) (path : CStr) : Prop where
  owner : path = .lit "/core/ls" → ∀ pre, lsDirectory msg = some pre →
    SameOwners tree tree' msg.ctx pre
  hidden : path = .lit "/core/resolve" → ∀ r, resolvedPath msg = some r → r ≠ .lit "/" →
    (OnlyHidden tree msg.ctx r ↔ OnlyHidden tree' msg.ctx r)

structure PlainShown (name kind : CStr) : Prop where
  nameLine : 10 ∉ name.bytes
  kindLine : 10 ∉ kind.bytes
  nameEnd : name.bytes.getLast? ≠ some 32
  kindStart : 91 ∉ kind.bytes

/-- The names and modules of a listing can be told from its lines. -/
structure PlainListing (s : CoreState) (caller : Option PortalCtx) (pre : CStr) : Prop where
  items : ∀ name m isLeaf, .child name m isLeaf ∈ lsItems s.paths caller pre →
    PlainShown name (lsModule m)
  dynamic : ∀ line ∈ dynamicChildren s.auth pre,
    ∃ name kind, PlainShown name kind ∧ leafLine name kind = line

/-! ### Texts and their lines -/

namespace StrBuf

variable (sb : StrBuf) (piece : Bytes)

theorem cap_append : (sb.append piece).cap = sb.cap := by
  rw [append]
  split
  · rename_i h
    have := strbufFits_iff.mp h
    simp only [cap, length_append, length_drop, length_print]
    omega
  · simp only [cap, length_print]

theorem text_append : (sb.append piece).text = strbufAppend sb.cap sb.text piece := by
  rw [append, strbufAppend, cap, Nat.add_sub_cancel_left]
  split <;> rfl

/-- The first byte of a piece that does not fit stands where the NUL should. -/
theorem head?_append : (sb.append piece).rest.head? = some 0 ↔
    strbufFits sb.rest.length piece = true ∨ sb.rest.length = 1 ∨ piece.head?.getD 0 = 0 := by
  have hroom := sb.room
  rw [append]
  split
  · rename_i h
    have hall := strbufFits_iff.mp h
    simp [print, take_of_length_le (show piece.length ≤ sb.rest.length - 1 by omega), h]
  · rename_i h
    obtain hone | ⟨n, hn⟩ : sb.rest.length - 1 = 0 ∨ ∃ n, sb.rest.length - 1 = n + 1 := by
      cases sb.rest.length - 1 <;> simp
    · simp [print, hone]
      omega
    · have hmore : sb.rest.length ≠ 1 := by omega
      cases piece <;> simp [print, hn, h, hmore]

theorem run_append (pieces : List Bytes) :
    (pieces.foldl append sb).cap = sb.cap ∧
      (pieces.foldl append sb).text = pieces.foldl (strbufAppend sb.cap) sb.text := by
  induction pieces generalizing sb with
  | nil => exact ⟨rfl, rfl⟩
  | cons piece pieces ih =>
    rw [foldl_cons, foldl_cons, ← text_append, ← sb.cap_append piece]
    exact ih (sb.append piece)

theorem append_of_fits (hfit : sb.text.length + piece.length < sb.cap)
    (hint : sb.cap ≤ 2147483648) :
    (sb.append piece).text = sb.text ++ piece ∧ (sb.append piece).rest.head? = some 0 := by
  rw [text_append, head?_append, strbufAppend]
  cases piece with
  | nil => simp
  | cons b piece =>
    have hroom := sb.cap.sub_le sb.text.length
    have hfits : strbufFits (sb.cap - sb.text.length) (b :: piece) = true :=
      strbufFits_iff.mpr ⟨Nat.succ_pos _, by omega, by omega⟩
    rw [if_pos hfits]
    rw [cap, Nat.add_sub_cancel_left] at hfits
    exact ⟨rfl, .inl hfits⟩

theorem run_of_fits {pieces : List Bytes} (hnul : sb.rest.head? = some 0)
    (hfit : sb.text.length + pieces.flatten.length < sb.cap) (hint : sb.cap ≤ 2147483648) :
    (pieces.foldl append sb).text = sb.text ++ pieces.flatten ∧
      (pieces.foldl append sb).rest.head? = some 0 := by
  induction pieces generalizing sb with
  | nil => simp [hnul]
  | cons piece pieces ih =>
    rw [flatten_cons, length_append] at hfit
    obtain ⟨htext, hnul⟩ := sb.append_of_fits piece (by omega) hint
    rw [foldl_cons, flatten_cons, ← append_assoc, ← htext]
    refine ih _ hnul ?_ ?_
    · rw [htext, cap_append, length_append]
      omega
    · rwa [cap_append]

end StrBuf

/-- After any calls there is a NUL behind the pieces that fitted, unless the last piece does not
fit. -/
theorem strbuf_terminated_iff (sb : StrBuf) (pieces : List Bytes) :
    let sb' := pieces.foldl StrBuf.append sb
    (sb'.text.length < sb.cap ∧ sb'.rest.head? = some 0 ∧
      sb'.text = pieces.foldl (strbufAppend sb.cap) sb.text) ↔
    (pieces = [] → sb.rest.head? = some 0) ∧ ∀ last ∈ pieces.getLast?,
      let room := sb.cap - (pieces.dropLast.foldl (strbufAppend sb.cap) sb.text).length
      strbufFits room last = true ∨ room = 1 ∨ last.head?.getD 0 = 0 := by
  intro sb'
  obtain ⟨hcap, htext⟩ := sb.run_append pieces
  have hlt : sb'.text.length < sb.cap := by
    rw [← hcap]
    exact Nat.lt_add_of_pos_right sb'.room
  rw [and_iff_right hlt, and_iff_left htext]
  obtain rfl | ⟨before, last, rfl⟩ := eq_nil_or_concat' pieces
  · simp [sb']
  obtain ⟨hcap, htext⟩ := sb.run_append before
  have hroom : (before.foldl StrBuf.append sb).rest.length =
      sb.cap - (before.foldl (strbufAppend sb.cap) sb.text).length := by
    rw [← htext, ← hcap, StrBuf.cap, Nat.add_sub_cancel_left]
  simp [sb', StrBuf.head?_append, hroom]

/-- Four bytes do not fit an array of four, and the first of them is sent without a NUL. -/
theorem strbuf_unterminated :
    ((⟨[], [0, 0, 0, 0], by decide⟩ : StrBuf).append [65, 66, 67, 68]).body = [65] := by
  decide

theorem strbufLines_eq {cap : Nat} (hfit : (lines.map (· ++ [10])).flatten.length < cap)
    (hint : cap ≤ 2147483648) :
    (strbufLines cap lines).text = (lines.map (· ++ [10])).flatten ∧
      (strbufLines cap lines).body = (lines.map (· ++ [10])).flatten ++ [0] := by
  have hcap : (StrBuf.new cap).cap = cap := by
    rw [StrBuf.new, StrBuf.cap, length_nil, Nat.zero_add, length_cons, length_replicate]
    omega
  obtain ⟨htext, hnul⟩ := (StrBuf.new cap).run_of_fits rfl
    (by rwa [hcap, StrBuf.new, length_nil, Nat.zero_add]) (by rwa [hcap])
  obtain ⟨rest, hrest⟩ := head?_eq_some_iff.mp hnul
  refine ⟨htext, ?_⟩
  rw [strbufLines, StrBuf.body, htext, hrest]
  rfl

theorem mem_bodyLines {rest l : Bytes} :
    l ∈ bodyLines ((lines.map (· ++ [10])).flatten ++ rest) ↔
      (∃ line ∈ lines, l ∈ line.splitOn 10) ∨ l ∈ rest.splitOn 10 := by
  induction lines with
  | nil => simp [bodyLines]
  | cons line lines ih =>
    change l ∈ splitOn 10 _ ↔ _ at ih
    change l ∈ splitOn 10 _ ↔ _
    rw [map_cons, flatten_cons, append_assoc, append_assoc,
      singleton_append, splitOn_append_cons_self, mem_append, ih,
      exists_mem_cons_iff, or_assoc]

theorem bodyLines_congr {cap : Nat} {lines' : List Bytes}
    (hfit : (lines.map (· ++ [10])).flatten.length < cap)
    (hfit' : (lines'.map (· ++ [10])).flatten.length < cap) (hint : cap ≤ 2147483648)
    (hsame : ∀ line, line ∈ lines ↔ line ∈ lines') :
    bodyLines (strbufLines cap lines).body = bodyLines (strbufLines cap lines').body := by
  rw [(strbufLines_eq hfit hint).2, (strbufLines_eq hfit' hint).2]
  ext l
  rw [mem_bodyLines, mem_bodyLines]
  simp only [hsame]

section Visible

variable {tree tree' : PortalPathTree} {caller : Option PortalCtx}

theorem TreeOk.mem_iter (h : TreeOk tree) {path : CStr} {e : PathEntry} :
    (path, e) ∈ portalHtIter tree.table ↔ portalPathLookupEntry tree path = some e := by
  obtain ⟨m, inv⟩ := h
  rw [inv.lookupEntry, inv.table.asMap.iter_mem]

def VisibleAt (tree : PortalPathTree) (caller : Option PortalCtx) (path : CStr)
    (e : PathEntry) : Prop :=
  portalPathLookupEntry tree path = some e ∧ seenBy caller e = true

theorem TreeOk.mem_listed (h : TreeOk tree) {path : CStr} {e : PathEntry} :
    (path, e) ∈ portalHtIter tree.table ∧ listed tree caller path = true ↔
      VisibleAt tree caller path e := by
  rw [h.mem_iter]
  refine and_congr_right fun he => ?_
  rw [listed, he, Option.all_some]

theorem mem_pathLines (h : TreeOk tree) {line : Bytes} :
    line ∈ pathLines tree caller ↔ line = (CStr.lit "Registered paths:").bytes ∨
      ∃ path e, VisibleAt tree caller path e ∧ pathLine path e.moduleName = line := by
  rw [pathLines, mem_cons, mem_map]
  refine or_congr_right ?_
  rw [Prod.exists]
  refine exists₂_congr fun path e => and_congr_left fun _ => ?_
  rw [mem_filter, h.mem_listed]

theorem mem_lsItems (h : TreeOk tree) {pre : CStr} {item : LsItem} :
    item ∈ lsItems tree caller pre ↔
      ∃ path e, VisibleAt tree caller path e ∧ pre.bytes <+: path.bytes ∧
        lsItem pre path e.moduleName = item := by
  rw [lsItems, mem_map, Prod.exists]
  refine exists₂_congr fun path e => ?_
  rw [mem_filter, Bool.and_eq_true, decide_eq_true_eq, ← h.mem_listed]
  tauto

theorem sameVisible_of_iter (h : TreeOk tree) (h' : TreeOk tree')
    (hsub : ∀ x ∈ portalHtIter tree.table, seenBy caller x.2 = true → x ∈ portalHtIter tree'.table)
    (hsup : ∀ x ∈ portalHtIter tree'.table, seenBy caller x.2 = true →
      x ∈ portalHtIter tree.table) : SameVisible caller tree tree' := by
  intro path e hseen
  rw [← h.mem_iter, ← h'.mem_iter]
  exact ⟨fun he => hsub _ he hseen, fun he => hsup _ he hseen⟩

theorem SameVisible.iff (h : SameVisible caller tree tree') (path : CStr) (e : PathEntry) :
    VisibleAt tree caller path e ↔ VisibleAt tree' caller path e :=
  and_congr_left fun hseen => h path e hseen

end Visible

/-! ### The table of children -/

section Table

variable {α : Type} {p q : α → Bool} {f : α → α}

theorem filter_modify_found (hf : ∀ a, p (f a) = p a) {l rest : List α} {a : α} {i : Nat}
    (hfind : l.findIdx? p = some i) (hl : l.filter p = a :: rest) :
    (l.modify i f).filter p = f a :: rest := by
  induction l generalizing i with
  | nil => cases hfind
  | cons b l ih =>
    rw [findIdx?_cons] at hfind
    by_cases hb : p b = true
    · rw [if_pos hb] at hfind
      cases hfind
      rw [filter_cons_of_pos hb] at hl
      obtain ⟨rfl, rfl⟩ := List.cons.inj hl
      rw [modify_zero_cons, filter_cons_of_pos (by rw [hf, hb])]
    · rw [if_neg hb] at hfind
      obtain ⟨k, hk, rfl⟩ := Option.map_eq_some_iff.mp hfind
      rw [filter_cons_of_neg hb] at hl
      rw [modify_succ_cons, filter_cons_of_neg hb, ih hk hl]

theorem filter_modify_other (hq : ∀ a, p a = true → q a = false ∧ q (f a) = false) {l : List α}
    {i : Nat} (hfind : l.findIdx? p = some i) : (l.modify i f).filter q = l.filter q := by
  induction l generalizing i with
  | nil => cases hfind
  | cons b l ih =>
    rw [findIdx?_cons] at hfind
    by_cases hb : p b = true
    · rw [if_pos hb] at hfind
      cases hfind
      obtain ⟨hqb, hqf⟩ := hq b hb
      rw [modify_zero_cons, filter_cons_of_neg (by simp [hqf]), filter_cons_of_neg (by simp [hqb])]
    · rw [if_neg hb] at hfind
      obtain ⟨k, hk, rfl⟩ := Option.map_eq_some_iff.mp hfind
      rw [modify_succ_cons, filter_cons, filter_cons, ih hk]

end Table

def LsItem.isDirectory (name : CStr) : LsItem → Bool
  | .child name' _ isLeaf => name' = name && !isLeaf
  | .self _ => false

/-- A name is shown as a leaf if some entry makes it one, as a directory if only longer paths
go through it. -/
def shown (name : CStr) (items : List LsItem) : Option LsChild :=
  match lastOwner name items with
  | some m => some ⟨name, m, true⟩
  | none => if items.any (LsItem.isDirectory name) then some ⟨name, .lit "", false⟩ else none

variable {items : List LsItem}

section Children

variable {max : Nat} {children : List LsChild} {item : LsItem} {name : CStr}

theorem any_isDirectory : items.any (LsItem.isDirectory name) = true ↔
    ∃ m, .child name m false ∈ items := by
  rw [any_eq_true]
  constructor
  · rintro ⟨_ | ⟨name', m, _ | _⟩, hmem, h⟩ <;> simp [LsItem.isDirectory] at h
    exact ⟨m, h ▸ hmem⟩
  · rintro ⟨m, hmem⟩
    exact ⟨_, hmem, by simp [LsItem.isDirectory]⟩

theorem lastOwner_concat : lastOwner name (items ++ [item]) =
    (lastOwner name [item]).or (lastOwner name items) := by
  rw [lastOwner, filterMap_append, assigned_append]
  rfl

theorem shown_leaf (moduleName : CStr) :
    shown name (items ++ [.child name moduleName true]) =
      some ⟨name, lsModule moduleName, true⟩ := by
  rw [shown, lastOwner_concat]
  simp [lastOwner, LsItem.leaf?]

theorem shown_directory (moduleName : CStr) :
    shown name (items ++ [.child name moduleName false]) =
      (shown name items).or (some ⟨name, .lit "", false⟩) := by
  have hnone : lastOwner name [.child name moduleName false] = none := rfl
  have hany := any_isDirectory.mpr
    ⟨moduleName, mem_append_right items (mem_singleton_self (LsItem.child name moduleName false))⟩
  rw [shown, shown, lastOwner_concat, hnone, Option.none_or, if_pos hany]
  split
  · rfl
  · split <;> rfl

theorem shown_other (hnone : lastOwner name [item] = none) (hdir : item.isDirectory name = false) :
    shown name (items ++ [item]) = shown name items := by
  rw [shown, shown, lastOwner_concat, hnone, Option.none_or, any_append, any_cons, hdir]
  simp only [any_nil, Bool.or_false]

/-- With room in the table, an entry changes what is shown under its own name. -/
theorem filter_lsAdd_own (hroom : children.length < max) (moduleName : CStr) (isLeaf : Bool)
    (ih : (children.filter fun c => c.name = name) = (shown name items).toList) :
    ((lsAdd max children (.child name moduleName isLeaf)).filter fun c => c.name = name) =
      (shown name (items ++ [.child name moduleName isLeaf])).toList := by
  rw [lsAdd]
  cases hfind : children.findIdx? fun c => decide (c.name = name) with
  | none =>
    -- the name is new
    have hnone : (children.filter fun c => c.name = name) = [] :=
      filter_eq_nil_iff.mpr fun c hc => by
        rw [findIdx?_eq_none_iff.mp hfind c hc]
        exact Bool.false_ne_true
    rw [hnone] at ih
    have hshown := Option.toList_eq_nil_iff.mp ih.symm
    simp only [hroom, if_true, filter_append, hnone, nil_append]
    cases isLeaf <;> simp [shown_leaf, shown_directory, hshown]
  | some i =>
    obtain ⟨hlt, hc, -⟩ := findIdx?_eq_some_iff_getElem.mp hfind
    have hmem : children[i] ∈ children.filter fun c => c.name = name :=
      mem_filter.mpr ⟨getElem_mem hlt, hc⟩
    rw [ih, Option.mem_toList] at hmem
    cases isLeaf with
    | false => simp [shown_directory, ih, Option.mem_def.mp hmem]
    | true =>
      rw [hmem] at ih
      simp only [if_true, shown_leaf]
      refine (filter_modify_found (fun _ => ?_) hfind ih).trans ?_
      · rfl
      · rw [of_decide_eq_true hc]
        rfl

theorem filter_lsAdd_other (hroom : children.length < max) {name' : CStr} (hne : name' ≠ name)
    (moduleName : CStr) (isLeaf : Bool) :
    ((lsAdd max children (.child name' moduleName isLeaf)).filter fun c => c.name = name) =
      children.filter fun c => c.name = name := by
  rw [lsAdd]
  cases hfind : children.findIdx? fun c => decide (c.name = name') with
  | none =>
    simp only [hroom, if_true, filter_append]
    simp [hne]
  | some i =>
    cases isLeaf with
    | false => rfl
    | true =>
      refine filter_modify_other (fun c hc => ?_) hfind
      have hcname : c.name = name' := of_decide_eq_true hc
      simp [hcname, hne]

theorem filter_lsAdd (hroom : children.length < max) (hname : name ≠ .lit ".")
    (ih : (children.filter fun c => c.name = name) = (shown name items).toList) :
    ((lsAdd max children item).filter fun c => c.name = name) =
      (shown name (items ++ [item])).toList := by
  cases item with
  | self moduleName =>
    rw [lsAdd, if_pos hroom, filter_append, ih, shown_other rfl rfl]
    simp [hname.symm]
  | child name' moduleName isLeaf =>
    by_cases heq : name' = name
    · subst heq
      exact filter_lsAdd_own hroom moduleName isLeaf ih
    · rw [filter_lsAdd_other hroom heq, ih, shown_other]
      · cases isLeaf
        · rfl
        · exact if_neg heq
      · simp [LsItem.isDirectory, heq]

theorem length_lsAdd : children.length ≤ (lsAdd max children item).length ∧
    (lsAdd max children item).length ≤ children.length + 1 := by
  cases item with
  | self moduleName =>
    rw [lsAdd]
    split <;> simp
  | child name moduleName isLeaf =>
    rw [lsAdd]
    split
    · split <;> simp
    · split <;> simp

theorem length_fold_lsAdd (items : List LsItem) :
    (items.foldl (lsAdd max) []).length ≤ items.length := by
  induction items using reverseRecOn with
  | nil => exact le_rfl
  | append_singleton items item ih =>
    rw [foldl_append, foldl_cons, foldl_nil, length_append]
    exact length_lsAdd.2.trans (Nat.add_le_add_right ih 1)

/-- With room for every entry: what is shown under a name is in the table once. -/
theorem filter_fold_lsAdd (hmax : items.length ≤ max) (hname : name ≠ .lit ".") :
    ((items.foldl (lsAdd max) []).filter fun c => c.name = name) = (shown name items).toList := by
  induction items using reverseRecOn with
  | nil => rfl
  | append_singleton items item ih =>
    rw [length_append, length_singleton] at hmax
    rw [foldl_append]
    exact filter_lsAdd ((length_fold_lsAdd items).trans_lt hmax) hname (ih (by omega))

theorem lsAdd_congr {max' : Nat} (hroom : children.length < max')
    (hfits : (lsAdd max' children item).length ≤ max) :
    lsAdd max children item = lsAdd max' children item := by
  cases item with
  | self moduleName =>
    rw [lsAdd, if_pos hroom, length_append, length_singleton] at hfits
    rw [lsAdd, lsAdd, if_pos hroom, if_pos (Nat.lt_of_succ_le hfits)]
  | child name moduleName isLeaf =>
    simp only [lsAdd, if_pos hroom] at hfits ⊢
    split
    · rfl
    · rename_i hfind
      simp only [hfind, length_append, length_singleton] at hfits
      rw [if_pos (Nat.lt_of_succ_le hfits)]

/-- A table that has room for all children holds what a table without end would. -/
theorem fold_lsAdd_eq {bound : Nat} (hbound : items.length ≤ bound)
    (hfits : (items.foldl (lsAdd bound) []).length ≤ max) :
    items.foldl (lsAdd max) [] = items.foldl (lsAdd bound) [] := by
  induction items using reverseRecOn with
  | nil => rfl
  | append_singleton items item ih =>
    rw [length_append, length_singleton] at hbound
    rw [foldl_append, foldl_cons, foldl_nil] at hfits ⊢
    rw [foldl_append, foldl_cons, foldl_nil, ih (by omega) (length_lsAdd.1.trans hfits)]
    exact lsAdd_congr ((length_fold_lsAdd items).trans_lt hbound) hfits

end Children

/-- With room for all children, the table holds what is shown under a name. -/
theorem mem_fold_lsAdd (hfits : (items.foldl (lsAdd items.length) []).length ≤ lsMaxEntries)
    {c : LsChild} (hne : c.name ≠ .lit ".") :
    c ∈ items.foldl (lsAdd lsMaxEntries) [] ↔ shown c.name items = some c := by
  have hfilter := filter_fold_lsAdd (le_refl items.length) hne
  rw [fold_lsAdd_eq le_rfl hfits, ← Option.mem_toList, ← hfilter, mem_filter,
    and_iff_left (decide_eq_true rfl)]

theorem mem_lsChildren (hfits : (items.foldl (lsAdd items.length) []).length ≤ lsMaxEntries)
    {line : Bytes} :
    line ∈ ((items.foldl (lsAdd lsMaxEntries) []).filter fun c => c.name ≠ .lit ".").map
        LsChild.line ↔
      ∃ name, name ≠ .lit "." ∧
        ((∃ m, lastOwner name items = some m ∧ leafLine name m = line) ∨
          lastOwner name items = none ∧ (∃ m, .child name m false ∈ items) ∧
            directoryLine name = line) := by
  rw [mem_map]
  constructor
  · rintro ⟨⟨name, m, isLeaf⟩, hc, rfl⟩
    obtain ⟨hc, hne⟩ := mem_filter.mp hc
    have hne := of_decide_eq_true hne
    have hshows := (mem_fold_lsAdd hfits hne).mp hc
    refine ⟨name, hne, ?_⟩
    rw [shown] at hshows
    split at hshows
    · cases hshows
      exact .inl ⟨m, ‹_›, rfl⟩
    · obtain ⟨hany, hc⟩ := Option.ite_none_right_eq_some.mp hshows
      cases hc
      exact .inr ⟨‹_›, any_isDirectory.mp hany, rfl⟩
  rintro ⟨name, hne, ⟨m, hm, rfl⟩ | ⟨hnone, hdir, rfl⟩⟩
  · refine ⟨⟨name, m, true⟩, mem_filter.mpr ⟨?_, decide_eq_true hne⟩, rfl⟩
    refine (mem_fold_lsAdd hfits hne).mpr ?_
    simp only [shown, hm]
  · refine ⟨⟨name, .lit "", false⟩, mem_filter.mpr ⟨?_, decide_eq_true hne⟩, rfl⟩
    refine (mem_fold_lsAdd hfits hne).mpr ?_
    simp only [shown, hnone, if_pos (any_isDirectory.mpr hdir)]

/-! ### Answers that tell nothing -/

section Answers

variable {tree tree' : PortalPathTree} {caller : Option PortalCtx}

theorem SameVisible.mem_pathLines_iff (h : SameVisible caller tree tree') (hok : TreeOk tree)
    (hok' : TreeOk tree') (line : Bytes) :
    line ∈ pathLines tree caller ↔ line ∈ pathLines tree' caller := by
  simp only [mem_pathLines hok, mem_pathLines hok', h.iff]

theorem SameVisible.mem_lsItems_iff (h : SameVisible caller tree tree') (hok : TreeOk tree)
    (hok' : TreeOk tree') (pre : CStr) (item : LsItem) :
    item ∈ lsItems tree caller pre ↔ item ∈ lsItems tree' caller pre := by
  simp only [mem_lsItems hok, mem_lsItems hok', h.iff]

theorem SameVisible.mem_lsLines_iff {s : CoreState} (h : SameVisible caller s.paths tree)
    (hok : TreeOk s.paths) (hok' : TreeOk tree) {pre : CStr}
    (howners : SameOwners s.paths tree caller pre)
    (hfits : ListingFits s caller (.children pre))
    (hfits' : ListingFits { s with paths := tree } caller (.children pre)) (line : Bytes) :
    line ∈ lsLines s caller pre ↔ line ∈ lsLines { s with paths := tree } caller pre := by
  have hitems := h.mem_lsItems_iff hok hok' pre
  rw [lsLines, lsLines, mem_append, mem_append, mem_lsChildren hfits.1, mem_lsChildren hfits'.1]
  refine or_congr_left (exists_congr fun name => and_congr_right fun hne => ?_)
  simp only [howners name hne, hitems]

def lsOrEmpty (s : CoreState) (caller : Option PortalCtx) (pre : CStr) : List Bytes :=
  if lsLines s caller pre = [] then [(CStr.lit "  (empty)").bytes] else lsLines s caller pre

theorem lsBody_eq {s : CoreState} {pre : CStr} (hfits : ListingFits s caller (.children pre)) :
    lsBody s caller pre = (strbufLines 8192 (lsOrEmpty s caller pre)).body := by
  rw [lsBody, lsOrEmpty]
  cases hlines : lsLines s caller pre with
  | nil =>
    have hone (cap : Nat) (line : Bytes) : (strbufLines cap []).text = [] ∧
        strbufLines cap [line] = (strbufLines cap []).append (line ++ [10]) := ⟨rfl, rfl⟩
    rw [if_pos (hone _ []).1, if_pos rfl, (hone _ _).2]
  | cons line lines =>
    have hne : (strbufLines 8192 (line :: lines)).text ≠ [] := by
      rw [(strbufLines_eq (hlines ▸ hfits.2) (by decide)).1]
      simp
    rw [if_neg hne, if_neg (cons_ne_nil _ _)]

theorem TreeOk.pathExists_iff (h : TreeOk tree) (resolved : CStr) :
    pathExists tree resolved = true ↔
      ∃ path e, portalPathLookupEntry tree path = some e ∧ LeadsTo path resolved := by
  rw [pathExists, Bool.or_eq_true, any_eq_true]
  constructor
  · rintro (hself | ⟨⟨path, e⟩, hmem, hleads⟩)
    · rw [portalPathLookup, Option.isSome_map] at hself
      obtain ⟨e, he⟩ := Option.isSome_iff_exists.mp hself
      exact ⟨resolved, e, he, prefix_rfl, .inl rfl⟩
    · rw [Bool.and_eq_true, Bool.or_eq_true, decide_eq_true_eq, decide_eq_true_eq,
        decide_eq_true_eq] at hleads
      exact ⟨path, e, h.mem_iter.mp hmem, hleads⟩
  rintro ⟨path, e, he, hleads⟩
  refine .inr ⟨(path, e), h.mem_iter.mpr he, ?_⟩
  rw [Bool.and_eq_true, Bool.or_eq_true, decide_eq_true_eq, decide_eq_true_eq, decide_eq_true_eq]
  exact hleads

/-- A path exists through an entry the caller sees, or through hidden ones alone. -/
theorem TreeOk.pathExists_cases (h : TreeOk tree) (caller : Option PortalCtx) (resolved : CStr) :
    pathExists tree resolved = true ↔ OnlyHidden tree caller resolved ∨
      ∃ path e, VisibleAt tree caller path e ∧ LeadsTo path resolved := by
  rw [h.pathExists_iff]
  constructor
  · intro hexists
    by_cases hseen : ∃ path e, VisibleAt tree caller path e ∧ LeadsTo path resolved
    · exact .inr hseen
    · refine .inl ⟨hexists, fun path e he hleads => Bool.eq_false_iff.mpr fun hs => ?_⟩
      exact hseen ⟨path, e, ⟨he, hs⟩, hleads⟩
  · rintro (hhidden | ⟨path, e, ⟨he, -⟩, hleads⟩)
    · exact hhidden.1
    · exact ⟨path, e, he, hleads⟩

/-- Whether a path exists is told exactly if it exists through hidden entries alone in just one
of the registries. -/
theorem SameVisible.pathExists_iff (h : SameVisible caller tree tree') (hok : TreeOk tree)
    (hok' : TreeOk tree') (resolved : CStr) :
    pathExists tree resolved = pathExists tree' resolved ↔
      (OnlyHidden tree caller resolved ↔ OnlyHidden tree' caller resolved) := by
  have hseen : (∃ path e, VisibleAt tree caller path e ∧ LeadsTo path resolved) ↔
      ∃ path e, VisibleAt tree' caller path e ∧ LeadsTo path resolved := by
    simp only [h.iff]
  have hnot {t : PortalPathTree} (hh : OnlyHidden t caller resolved) :
      ¬ ∃ path e, VisibleAt t caller path e ∧ LeadsTo path resolved := by
    rintro ⟨path, e, ⟨he, hs⟩, hleads⟩
    rw [hh.2 path e he hleads] at hs
    cases hs
  rw [Bool.eq_iff_iff, hok.pathExists_cases caller, hok'.pathExists_cases caller, ← hseen]
  constructor
  · intro hsame
    constructor
    · intro hh
      exact (hsame.mp (.inl hh)).resolve_right (hnot hh)
    · intro hh
      exact (hsame.mpr (.inl hh)).resolve_right fun hs => hnot hh (hseen.mp hs)
  · intro hsame
    rw [hsame]

end Answers

section Requests

variable (s : CoreState) (msg : PortalMsg)

theorem answer_paths : answer s msg (.lit "/core/paths") =
    if msg.method = portalMethodGet then
      some (some (.ok, bodyLines (handlePathsList s.paths msg.ctx)))
    else none := by
  rw [answer, handleNavigation, if_neg (by decide), if_neg fun h => absurd h.1 (by decide)]
  by_cases hget : msg.method = portalMethodGet
  · rw [if_pos ⟨rfl, hget⟩, if_pos hget]
    rfl
  · rw [if_neg fun h => hget h.2, if_neg hget, if_neg (by decide), if_neg (by decide)]
    rfl

theorem answer_ls : answer s msg (.lit "/core/ls") =
    some ((lsDirectory msg).map fun pre => (.ok, bodyLines (lsBody s msg.ctx pre))) := by
  rw [answer, handleNavigation, if_neg (by decide), if_neg fun h => absurd h.1 (by decide),
    if_neg fun h => absurd h.1 (by decide), if_pos rfl, handleLs_eq]
  cases lsDirectory msg <;> rfl

theorem answer_resolve : answer s msg (.lit "/core/resolve") =
    some ((resolvedPath msg).map fun r =>
      if r = .lit "/" ∨ pathExists s.paths r = true then (.ok, bodyLines (r.bytes ++ [0]))
      else (.notFound, bodyLines [])) := by
  rw [answer, handleNavigation, if_neg (by decide), if_neg fun h => absurd h.1 (by decide),
    if_neg fun h => absurd h.1 (by decide), if_neg (by decide), if_pos rfl, handleResolve_eq]
  cases resolvedPath msg with
  | none => rfl
  | some r =>
    simp only [Option.bind_some, Option.map_some]
    split <;> rfl

end Requests

/-- The listings that answer the request fit their buffers. -/
def AnswerFits (s : CoreState) (msg : PortalMsg) (path : CStr) : Prop :=
  (path = .lit "/core/paths" → ListingFits s msg.ctx .paths) ∧
    (path = .lit "/core/ls" → ∀ pre, lsDirectory msg = some pre →
      ListingFits s msg.ctx (.children pre))

/-! ### What the lines tell -/

theorem append_blanks_inj {n n' : Bytes} (h : n.getLast? ≠ some 32) (h' : n'.getLast? ≠ some 32)
    {a b : Nat} (heq : n ++ replicate a 32 = n' ++ replicate b 32) : n = n' := by
  -- one of them goes on with blanks, of which there are none
  have hnil {m c : Bytes} {k l : Nat} (hm : (m ++ c).getLast? ≠ some 32)
      (hc : replicate k 32 = c ++ replicate l 32) : c = [] := by
    by_contra hne
    refine hm ?_
    rw [getLast?_append_of_ne_nil _ hne, getLast?_eq_some_getLast hne]
    have hmem : c.getLast hne ∈ replicate k (32 : UInt8) := by
      rw [hc]
      exact mem_append_left _ (getLast_mem hne)
    rw [eq_of_mem_replicate hmem]
  rcases append_eq_append_iff.mp heq with ⟨c, rfl, hc⟩ | ⟨c, rfl, hc⟩
  · rw [hnil h' hc, append_nil]
  · rw [hnil h hc, append_nil]

/-- The last bracket of a line is the one before the module. -/
theorem leafLine_eq {name' kind' : CStr} (h : 91 ∉ kind.bytes) (h' : 91 ∉ kind'.bytes)
    (heq : leafLine name kind = leafLine name' kind') :
    kind = kind' ∧ padTo 30 name.bytes = padTo 30 name'.bytes := by
  have hline (name kind : CStr) : leafLine name kind =
      [32, 32] ++ (padTo 30 name.bytes ++ [32]) ++ 91 :: kind.bytes ++ [93] := by
    simp [leafLine]
  have hcut {name kind : CStr} (h : 91 ∉ kind.bytes) :
      cutAt 91 ([32, 32] ++ (padTo 30 name.bytes ++ [32]) ++ 91 :: kind.bytes).reverse =
        some (kind.bytes.reverse, ([32, 32] ++ (padTo 30 name.bytes ++ [32])).reverse) := by
    rw [reverse_append, reverse_cons, append_assoc, singleton_append]
    exact cutAt_append (by rwa [mem_reverse]) _
  rw [hline, hline] at heq
  have hsame := congrArg (fun t => cutAt 91 t.reverse) (append_cancel_right heq)
  simp only [hcut h, hcut h', Option.some.injEq, Prod.mk.injEq, reverse_inj] at hsame
  exact ⟨CStr.ext_bytes hsame.1, append_cancel_right (append_cancel_left hsame.2)⟩

theorem PlainShown.leafLine_inj {name' kind' : CStr} (h : PlainShown name kind)
    (h' : PlainShown name' kind') (heq : leafLine name kind = leafLine name' kind') :
    name = name' ∧ kind = kind' := by
  obtain ⟨hkind, hname⟩ := leafLine_eq h.kindStart h'.kindStart heq
  exact ⟨CStr.ext_bytes (append_blanks_inj h.nameEnd h'.nameEnd hname), hkind⟩

theorem leafLine_ne {line : Bytes} (h : line.getLast? ≠ some 93) : leafLine name kind ≠ line := by
  rintro rfl
  exact h getLast?_concat

theorem newline_notMem_padTo {n : Nat} {s : Bytes} (h : 10 ∉ s) : 10 ∉ padTo n s := by
  rw [padTo, mem_append, not_or]
  exact ⟨h, fun hmem => absurd (eq_of_mem_replicate hmem) (by decide)⟩

theorem PlainShown.newline_notMem (h : PlainShown name kind) :
    10 ∉ leafLine name kind ∧ 10 ∉ directoryLine name := by
  simp [leafLine, directoryLine, newline_notMem_padTo h.nameLine, h.kindLine]

section Told

variable {s : CoreState} {tree : PortalPathTree} {caller : Option PortalCtx} {pre : CStr}

/-- A module that is shown is that of an entry. -/
theorem mem_of_lastOwner {m : CStr} (h : lastOwner name items = some m) :
    ∃ m', .child name m' true ∈ items ∧ lsModule m' = m := by
  obtain ⟨item, hmem, hleaf⟩ := mem_filterMap.mp (mem_of_assigned h)
  unfold LsItem.leaf? at hleaf
  split at hleaf
  · cases hleaf
    exact ⟨_, hmem, rfl⟩
  · exact nomatch hleaf

theorem lastOwner_isSome {m : CStr} (h : .child name m true ∈ items) :
    ∃ m', lastOwner name items = some m' := by
  rw [← Option.isSome_iff_exists, Option.isSome_iff_ne_none]
  intro hnone
  exact assigned_eq_none.mp hnone _ (mem_filterMap.mpr ⟨_, h, rfl⟩) rfl

theorem PlainListing.newline_notMem (h : PlainListing s caller pre)
    (hfits : ListingFits s caller (.children pre)) :
    ∀ line ∈ lsLines s caller pre, 10 ∉ line := by
  intro line hline
  rw [lsLines, mem_append, mem_lsChildren hfits.1] at hline
  rcases hline with ⟨name, -, ⟨m, hm, rfl⟩ | ⟨-, ⟨m, hm⟩, rfl⟩⟩ | hline
  · obtain ⟨m', hmem, rfl⟩ := mem_of_lastOwner hm
    exact (h.items _ _ _ hmem).newline_notMem.1
  · exact (h.items _ _ _ hm).newline_notMem.2
  · obtain ⟨name, kind, hplain, rfl⟩ := h.dynamic line hline
    exact hplain.newline_notMem.1

/-- The lines of leaves can be read off the body. -/
theorem PlainListing.leafLine_mem (h : PlainListing s caller pre)
    (hfits : ListingFits s caller (.children pre)) :
    leafLine name kind ∈ bodyLines (lsBody s caller pre) ↔
      leafLine name kind ∈ lsLines s caller pre := by
  have hone : ∀ line ∈ lsOrEmpty s caller pre, 10 ∉ line := by
    rw [lsOrEmpty]
    split
    · exact forall_mem_singleton.mpr (by decide)
    · exact h.newline_notMem hfits
  have hfit : ((lsOrEmpty s caller pre).map (· ++ [10])).flatten.length < 8192 := by
    rw [lsOrEmpty]
    split
    · decide
    · exact hfits.2
  have hself : ∀ line : Bytes, 10 ∉ line → line.splitOn 10 = [line] :=
    fun line => splitOn_eq_singleton
  have hzero : leafLine name kind ∉ splitOn 10 [0] := by
    rw [hself [0] (by decide), mem_singleton]
    exact leafLine_ne (by decide)
  rw [lsBody_eq hfits, (strbufLines_eq hfit (by decide)).2, mem_bodyLines, or_iff_left hzero]
  constructor
  · rintro ⟨line, hline, hmem⟩
    rw [hself line (hone line hline), mem_singleton] at hmem
    subst hmem
    rw [lsOrEmpty] at hline
    split at hline
    · exact absurd (mem_singleton.mp hline) (leafLine_ne (by decide))
    · exact hline
  · intro hmem
    have hne : lsLines s caller pre ≠ [] := ne_nil_of_mem hmem
    simp only [lsOrEmpty, if_neg hne] at hone ⊢
    exact ⟨_, hmem, by rw [hself _ (hone _ hmem)]; exact mem_singleton_self _⟩

/-- A line that shows a module comes from the entry of this name, or is that of a user or
group. -/
theorem PlainListing.owner_of_mem (h : PlainListing s caller pre)
    (hfits : ListingFits s caller (.children pre)) (hplain : PlainShown name kind)
    (hmem : leafLine name kind ∈ lsLines s caller pre) :
    lastOwner name (lsItems s.paths caller pre) = some kind ∨
      leafLine name kind ∈ dynamicChildren s.auth pre := by
  rw [lsLines, mem_append, mem_lsChildren hfits.1] at hmem
  refine hmem.imp_left ?_
  rintro ⟨name', -, ⟨m, hm, heq⟩ | ⟨-, -, heq⟩⟩
  · obtain ⟨m', hitem, rfl⟩ := mem_of_lastOwner hm
    obtain ⟨rfl, rfl⟩ := (h.items _ _ _ hitem).leafLine_inj hplain heq
    exact hm
  · exact absurd heq.symm (leafLine_ne (by rw [directoryLine, getLast?_concat]; decide))

theorem kind_of_mem_dynamicChildren {db : AuthDb} (hkind : 91 ∉ kind.bytes)
    (h : leafLine name kind ∈ dynamicChildren db pre) :
    kind = if pre = .lit "/users" then .lit "user" else .lit "group" := by
  rw [dynamicChildren] at h
  by_cases husers : pre = .lit "/users"
  · rw [if_pos husers] at h ⊢
    obtain ⟨u, -, heq⟩ := mem_map.mp h
    exact (leafLine_eq (by decide) hkind heq).1.symm
  · rw [if_neg husers] at h ⊢
    split at h
    · obtain ⟨g, -, heq⟩ := mem_map.mp h
      exact (leafLine_eq (by decide) hkind heq).1.symm
    · exact nomatch h

/-- Where names and modules can be told from the lines, the same lines show the same modules. -/
theorem SameVisible.sameOwners (h : SameVisible caller s.paths tree) (hok : TreeOk s.paths)
    (hok' : TreeOk tree) (hplain : PlainListing s caller pre)
    (hfits : ListingFits s caller (.children pre))
    (hfits' : ListingFits { s with paths := tree } caller (.children pre))
    (hlines : bodyLines (lsBody s caller pre) =
      bodyLines (lsBody { s with paths := tree } caller pre)) :
    SameOwners s.paths tree caller pre := by
  intro name hne
  have hitems := h.mem_lsItems_iff hok hok' pre
  have hplain' : PlainListing { s with paths := tree } caller pre :=
    ⟨fun _ _ _ hitem => hplain.items _ _ _ ((hitems _).mpr hitem), hplain.dynamic⟩
  cases hm : lastOwner name (lsItems s.paths caller pre) with
  | none =>
    cases hm' : lastOwner name (lsItems tree caller pre) with
    | none => rfl
    | some m' =>
      obtain ⟨n, hmem, -⟩ := mem_of_lastOwner hm'
      obtain ⟨m, hm₁⟩ := lastOwner_isSome ((hitems _).mpr hmem)
      exact nomatch hm.symm.trans hm₁
  | some m =>
    obtain ⟨n, hmem, rfl⟩ := mem_of_lastOwner hm
    obtain ⟨m', hm'⟩ := lastOwner_isSome ((hitems _).mp hmem)
    obtain ⟨n', hmem', rfl⟩ := mem_of_lastOwner hm'
    have hn := hplain.items _ _ _ hmem
    have hn' := hplain'.items _ _ _ hmem'
    -- either line is in both listings: as that of the entry, or as that of a user or group
    have hline : leafLine name (lsModule n) ∈ lsLines { s with paths := tree } caller pre := by
      rw [← hplain'.leafLine_mem hfits', ← hlines, hplain.leafLine_mem hfits, lsLines, mem_append,
        mem_lsChildren hfits.1]
      exact .inl ⟨name, hne, .inl ⟨_, hm, rfl⟩⟩
    have hline' : leafLine name (lsModule n') ∈ lsLines s caller pre := by
      rw [← hplain.leafLine_mem hfits, hlines, hplain'.leafLine_mem hfits', lsLines, mem_append,
        mem_lsChildren hfits'.1]
      exact .inl ⟨name, hne, .inl ⟨_, hm', rfl⟩⟩
    rcases hplain'.owner_of_mem hfits' hn hline with howner | hdyn
    · exact howner.symm
    rcases hplain.owner_of_mem hfits hn' hline' with howner | hdyn'
    · rw [← hm, howner, hm']
    · rw [hm', kind_of_mem_dynamicChildren hn.kindStart hdyn,
        kind_of_mem_dynamicChildren hn'.kindStart hdyn']

end Told

/-- Of two registries that agree on what the caller sees, a request that does not turn on the rest
gets the same status and lines. And it is only such a request, unless a listing has names or
modules that cannot be told from its lines. -/
theorem enumeration_hides (s : CoreState) (tree : PortalPathTree) (msg : PortalMsg) (path : CStr)
    (hpath : path ∈ [CStr.lit "/core/paths", .lit "/core/ls", .lit "/core/resolve"])
    (hok : TreeOk s.paths) (hok' : TreeOk tree) (hsame : SameVisible msg.ctx s.paths tree)
    (hfits : AnswerFits s msg path) (hfits' : AnswerFits { s with paths := tree } msg path) :
    (Discreet s.paths tree msg path →
      answer s msg path = answer { s with paths := tree } msg path) ∧
    ((path = .lit "/core/ls" → ∀ pre, lsDirectory msg = some pre → PlainListing s msg.ctx pre) →
      answer s msg path = answer { s with paths := tree } msg path →
      Discreet s.paths tree msg path) := by
  simp only [mem_cons, not_mem_nil, or_false] at hpath
  rcases hpath with rfl | rfl | rfl
  · have hlines := bodyLines_congr (hfits.1 rfl) (hfits'.1 rfl) (by decide)
      (hsame.mem_pathLines_iff hok hok')
    refine ⟨fun _ => ?_, fun _ _ => ?_⟩
    · rw [answer_paths, answer_paths, handlePathsList, handlePathsList, hlines]
    · exact ⟨fun heq => absurd heq (by decide), fun heq => absurd heq (by decide)⟩
  · rw [answer_ls, answer_ls]
    constructor
    · intro hdiscreet
      refine congrArg some (Option.map_congr fun pre hpre => ?_)
      have hfit := hfits.2 rfl pre hpre
      have hfit' := hfits'.2 rfl pre hpre
      have hmem := hsame.mem_lsLines_iff hok hok' (hdiscreet.owner rfl pre hpre) hfit hfit'
      rw [lsBody_eq hfit, lsBody_eq hfit', lsOrEmpty, lsOrEmpty]
      have hempty : lsLines s msg.ctx pre = [] ↔
          lsLines { s with paths := tree } msg.ctx pre = [] := by
        simp only [eq_nil_iff_forall_not_mem, hmem]
      by_cases hnone : lsLines s msg.ctx pre = []
      · rw [if_pos hnone, if_pos (hempty.mp hnone)]
      · rw [if_neg hnone, if_neg (mt hempty.mpr hnone),
          bodyLines_congr hfit.2 hfit'.2 (by decide) hmem]
    · intro hplain hanswer
      refine ⟨fun _ pre hpre => ?_, fun heq => absurd heq (by decide)⟩
      have hlines : bodyLines (lsBody s msg.ctx pre) =
          bodyLines (lsBody { s with paths := tree } msg.ctx pre) := by
        simpa [hpre] using hanswer
      exact hsame.sameOwners hok hok' (hplain rfl pre hpre) (hfits.2 rfl pre hpre)
        (hfits'.2 rfl pre hpre) hlines
  · rw [answer_resolve, answer_resolve]
    constructor
    · intro hdiscreet
      refine congrArg some (Option.map_congr fun r hr => ?_)
      by_cases hroot : r = .lit "/"
      · simp [hroot]
      · have hexists := (hsame.pathExists_iff hok hok' r).mpr (hdiscreet.hidden rfl r hr hroot)
        simp only [hexists]
    · intro _ hanswer
      refine ⟨fun heq => absurd heq (by decide), fun _ r hr hroot => ?_⟩
      refine (hsame.pathExists_iff hok hok' r).mp ?_
      -- the statuses differ if the path exists in one of them alone
      cases hthere : pathExists s.paths r <;> cases hthere' : pathExists tree r <;>
        simp_all

section Registries

def coreWith (paths : PortalPathTree) : CoreState where
  paths
  modules := []
  config := portalHtInit htInitialCapacity
  auth := ⟨[], [], 3600⟩
  events := portalEventsInit
  locks := lockTableInit
  store := ⟨fun _ => none, fun _ => none⟩
  storage := []
  writes := []

def registered (tree : PortalPathTree) (path moduleName : CStr) : PortalPathTree :=
  (portalPathRegister tree path moduleName).1

def registeredOps (tree : PortalPathTree) (path moduleName : CStr) : PortalPathTree :=
  (portalPathAddLabel (registered tree path moduleName) path (.lit "ops")).1

theorem TreeOk.registered {tree : PortalPathTree} (h : TreeOk tree) (path moduleName : CStr) :
    TreeOk (registered tree path moduleName) := h.register path moduleName

theorem TreeOk.registeredOps {tree : PortalPathTree} (h : TreeOk tree) (path moduleName : CStr) :
    TreeOk (registeredOps tree path moduleName) := (h.registered path moduleName).addLabel path _

def plainTree : PortalPathTree :=
  registered (registered portalPathInit (.lit "/srv/list") (.lit "a")) (.lit "/srvlist") (.lit "b")

def opsTree (hidden : CStr) : PortalPathTree :=
  registered (registeredOps (registered portalPathInit (.lit "/srv/list") (.lit "a"))
    hidden (.lit "c")) (.lit "/srvlist") (.lit "b")

def annAsks (path key value : CStr) : PortalMsg :=
  { PortalMsg.zero with
    path := some path.bytes
    method := portalMethodGet
    headerCount := 1
    headers := [⟨some key.bytes, some value.bytes⟩]
    ctx := some { PortalCtx.zero with auth := ⟨some (CStr.lit "ann").bytes, none, .empty⟩ } }

theorem plainTree_ok : TreeOk plainTree :=
  (treeOk_init.registered _ _).registered _ _

theorem opsTree_ok (hidden : CStr) : TreeOk (opsTree hidden) :=
  ((treeOk_init.registered _ _).registeredOps _ _).registered _ _

/-- A hidden service that takes no slot of another: of the two of one name, the same one is
shown. -/
theorem enumeration_hides_srv :
    let msg := annAsks (.lit "/core/ls") (.lit "prefix") (.lit "/srv")
    PlainListing (coreWith (opsTree (.lit "/pay/key"))) msg.ctx (.lit "/srv") ∧
      answer (coreWith (opsTree (.lit "/pay/key"))) msg (.lit "/core/ls") =
        answer (coreWith plainTree) msg (.lit "/core/ls") := by
  intro msg
  have hitems : lsItems (opsTree (.lit "/pay/key")) msg.ctx (.lit "/srv") =
      [.child (.lit "list") (.lit "b") true, .child (.lit "list") (.lit "a") true] := by
    decide +kernel
  have hsame : lsItems plainTree msg.ctx (.lit "/srv") =
      lsItems (opsTree (.lit "/pay/key")) msg.ctx (.lit "/srv") := by
    decide +kernel
  have hvisible : SameVisible msg.ctx (opsTree (.lit "/pay/key")) plainTree :=
    sameVisible_of_iter (opsTree_ok _) plainTree_ok (by decide +kernel) (by decide +kernel)
  have hdir : lsDirectory msg = some (.lit "/srv") := by decide +kernel
  have hfits (tree : PortalPathTree)
      (h : ListingFits (coreWith tree) msg.ctx (.children (.lit "/srv"))) :
      AnswerFits (coreWith tree) msg (.lit "/core/ls") := by
    refine ⟨fun heq => absurd heq (by decide), fun _ pre hpre => ?_⟩
    cases hdir.symm.trans hpre
    exact h
  refine ⟨⟨fun name m isLeaf hmem => ?_, fun line hline => nomatch hline⟩, ?_⟩
  · rw [coreWith, hitems] at hmem
    simp only [mem_cons, LsItem.child.injEq, not_mem_nil, or_false] at hmem
    rcases hmem with ⟨rfl, rfl, -⟩ | ⟨rfl, rfl, -⟩ <;>
      exact ⟨by decide, by decide, by decide, by decide⟩
  · refine (enumeration_hides (coreWith (opsTree (.lit "/pay/key"))) plainTree msg _ (by simp)
      (opsTree_ok _) plainTree_ok hvisible (hfits _ ⟨by decide +kernel, by decide +kernel⟩)
      (hfits _ ⟨by decide +kernel, by decide +kernel⟩)).1 ⟨fun _ pre hpre name _ => ?_, ?_⟩
    · cases hdir.symm.trans hpre
      rw [hsame]
      rfl
    · exact fun heq => absurd heq (by decide)

/-- A hidden path is resolved, and an absent one is not. And with the hidden service in the
table, another one of the two of the same name is shown. -/
theorem enumeration_hides_false :
    let ctx := (annAsks (.lit "") (.lit "") (.lit "")).ctx
    let hidden := CStr.lit "/pay/db"
    SameVisible ctx (opsTree hidden) plainTree ∧
      (answer (coreWith (opsTree hidden))
        (annAsks (.lit "/core/resolve") (.lit "target") (.lit "/pay"))
        (.lit "/core/resolve")).map (Option.map Prod.fst) = some (some .ok) ∧
      (answer (coreWith plainTree) (annAsks (.lit "/core/resolve") (.lit "target") (.lit "/pay"))
        (.lit "/core/resolve")).map (Option.map Prod.fst) = some (some .notFound) ∧
      lsLines (coreWith (opsTree hidden)) ctx (.lit "/srv") =
        [leafLine (.lit "list") (.lit "b")] ∧
      lsLines (coreWith plainTree) ctx (.lit "/srv") = [leafLine (.lit "list") (.lit "a")] := by
  have hpay : resolvedPath (annAsks (.lit "/core/resolve") (.lit "target") (.lit "/pay")) =
      some (.lit "/pay") := by
    decide +kernel
  have hthere : pathExists (opsTree (.lit "/pay/db")) (.lit "/pay") = true := by decide +kernel
  have hnot : pathExists plainTree (.lit "/pay") = false := by decide +kernel
  refine ⟨sameVisible_of_iter (opsTree_ok _) plainTree_ok (by decide +kernel)
    (by decide +kernel), ?_, ?_, by decide +kernel, by decide +kernel⟩
  · simp [answer_resolve, hpay, coreWith, hthere]
  · have hne : CStr.lit "/pay" ≠ .lit "/" := by decide
    simp [answer_resolve, hpay, coreWith, hnot, hne]

end Registries

end Portal
