import Portal.Core.Handlers
import Portal.Core.UserFiles

/-!
Users that are saved and loaded again. A record is printed in lines and read line by line, trimmed,
its labels joined with commas. `PlainUser` says what a user must be like to come through that
unchanged.

* `user_record_persists` — such a user comes back; a user other than root with distinct labels
  comes back only then.
-/

namespace Portal

open Lines Probing Assignments
open List hiding Vector
open CStr (lit join truncate_eq_self)

/-! ### The text of a record -/

structure PlainStored (r : StoredUser) : Prop where
  password : PlainValue r.password
  apiKey : PlainValue r.apiKey
  groups : PlainValue r.groups
  passwordFits : r.password.bytes.length ≤ 500
  apiKeyFits : r.apiKey.bytes.length ≤ 501
  groupsFit : r.groups.bytes.length ≤ 502

def userFields (r : StoredUser) : CStr → Option CStr :=
  let m := Function.update (fun _ => none) (.lit "password") (some r.password)
  let m := if r.apiKey.bytes = [] then m
    else Function.update m (.lit "api_key") (some r.apiKey)
  Function.update m (.lit "groups") (some r.groups)

variable {ls : PortalLabels} (r : StoredUser)

theorem filledTable_userTable : FilledTable (userTable r) (userFields r) := by
  have hpassword := (filledTable_init (V := CStr) 16).set (.lit "password") r.password
  unfold userTable userFields
  split
  · exact hpassword.set _ _
  · exact (hpassword.set _ _).set _ _

theorem userFields_password :
    userFields r (.lit "password") = some r.password := by
  have h1 : lit "password" ≠ .lit "groups" := by decide
  have h2 : lit "password" ≠ .lit "api_key" := by decide
  simp only [userFields]
  split <;> simp [h1, h2]

theorem userFields_apiKey :
    userFields r (.lit "api_key") = if r.apiKey.bytes = [] then none else some r.apiKey := by
  have h1 : lit "api_key" ≠ .lit "groups" := by decide
  have h2 : lit "api_key" ≠ .lit "password" := by decide
  simp only [userFields]
  split <;> simp [h1, h2]

theorem userFields_groups : userFields r (.lit "groups") = some r.groups := by
  simp [userFields]

theorem userFields_cases {r : StoredUser} {k v : CStr} (h : userFields r k = some v) :
    k = .lit "password" ∧ v = r.password ∨ k = .lit "api_key" ∧ v = r.apiKey ∨
      k = .lit "groups" ∧ v = r.groups := by
  by_cases hg : k = .lit "groups"
  · rw [hg, userFields_groups] at h
    exact .inr (.inr ⟨hg, (Option.some.inj h).symm⟩)
  · by_cases ha : k = .lit "api_key"
    · rw [ha, userFields_apiKey, Option.ite_none_left_eq_some] at h
      exact .inr (.inl ⟨ha, (Option.some.inj h.2).symm⟩)
    · by_cases hp : k = .lit "password"
      · rw [hp, userFields_password] at h
        exact .inl ⟨hp, (Option.some.inj h).symm⟩
      · simp only [userFields] at h
        split at h <;> simp [hg, ha, hp] at h

theorem plainEntry_lit {s : String} {v : CStr} {n : Nat} (hv : PlainValue v)
    (hs : newline ∉ (CStr.lit s).bytes ∧ Stripped isSpace (CStr.lit s).bytes ∧
      equalsSign ∉ (CStr.lit s).bytes ∧ skippedLine (CStr.lit s).bytes = false ∧
      (CStr.lit s).bytes.length = n)
    (hfits : n + 3 + v.bytes.length ≤ 511) : PlainEntry (.lit s, v) where
  key := ⟨⟨hs.1, hs.2.1⟩, hs.2.2.1, hs.2.2.2.1⟩
  value := hv
  fits := by rwa [hs.2.2.2.2]

theorem PlainStored.entries {r : StoredUser} (hr : PlainStored r) :
    ∀ e ∈ portalHtIter (userTable r), PlainEntry e := by
  rintro ⟨k, v⟩ he
  rw [portalHtIter_eq, mem_entries, (filledTable_userTable r).inv.maps] at he
  have hpassword := hr.passwordFits
  have hapiKey := hr.apiKeyFits
  have hgroups := hr.groupsFit
  rcases userFields_cases he with ⟨rfl, rfl⟩ | ⟨rfl, rfl⟩ | ⟨rfl, rfl⟩
  · exact plainEntry_lit (n := 8) hr.password (by decide) (by omega)
  · exact plainEntry_lit (n := 7) hr.apiKey (by decide) (by omega)
  · exact plainEntry_lit (n := 6) hr.groups (by decide) (by omega)

theorem PlainStored.readRecord {r : StoredUser} (hr : PlainStored r) :
    readRecord (userText r) =
      ⟨some r.password, if r.apiKey.bytes = [] then none else some r.apiKey,
        storedLabels r.groups⟩ := by
  have hget := (readIni_writeIni (filledTable_userTable r).inv.asMap hr.entries 16).inv.asMap.get
  simp [Portal.readRecord, userText, hget, userFields_password, userFields_apiKey,
    userFields_groups]

/-! ### Labels -/

def comma : UInt8 := 44

structure PlainLabel (l : CStr) : Prop where
  nonempty : l.bytes ≠ []
  noComma : comma ∉ l.bytes
  noBlank : l.bytes.head? ≠ some 32

theorem bytes_join (ls : List CStr) :
    (CStr.join (.lit ",") ls).bytes = [comma].intercalate (ls.map CStr.bytes) := by
  have hsep : (lit ",").bytes = [comma] := by decide
  induction ls with
  | nil => rfl
  | cons l ls ih =>
    cases ls with
    | nil => simp [join, intercalate]
    | cons l' ls =>
      rw [map_cons, map_cons, intercalate_cons_cons, ← map_cons, ← ih, ← hsep, append_assoc]
      rfl

theorem splitOn_join {ls : List CStr} (hls : ∀ l ∈ ls, comma ∉ l.bytes) (hne : ls ≠ []) :
    (CStr.join (.lit ",") ls).bytes.splitOn 44 = ls.map CStr.bytes := by
  rw [bytes_join]
  refine splitOn_intercalate comma (fun b hb => ?_) (mt map_eq_nil_iff.mp hne)
  obtain ⟨l, hl, rfl⟩ := mem_map.mp hb
  exact hls l hl

theorem mem_labelsAdd {label : CStr} (hroom : ls.count < portalMaxLabels)
    (hshort : label.bytes.length < portalMaxLabelLen) (l : CStr) :
    l ∈ (portalLabelsAdd ls label).1.labels ↔ l ∈ ls.labels ∨ l = label := by
  by_cases hmem : label ∈ ls.labels
  · rw [portalLabelsAdd, dif_neg (by omega), if_pos hmem]
    constructor
    · exact .inl
    · rintro (h | rfl)
      · exact h
      · exact hmem
  · rw [portalLabelsAdd_labels hroom hmem hshort, mem_append, mem_singleton]

theorem count_labelsAdd_le (ls : PortalLabels) (label : CStr) :
    (portalLabelsAdd ls label).1.count ≤ ls.count + 1 := by
  unfold portalLabelsAdd
  split
  · exact Nat.le_succ _
  · split
    · exact Nat.le_succ _
    · simp [PortalLabels.count]

theorem mem_foldl_labelsAdd {labels : List CStr}
    (hshort : ∀ l ∈ labels, l.bytes.length < portalMaxLabelLen) (ls : PortalLabels)
    (hroom : ls.count + labels.length ≤ portalMaxLabels) (l : CStr) :
    l ∈ (labels.foldl (fun ls label => (portalLabelsAdd ls label).1) ls).labels ↔
      l ∈ ls.labels ∨ l ∈ labels := by
  induction labels generalizing ls with
  | nil => simp
  | cons label labels ih =>
    rw [length_cons] at hroom
    have hcount := count_labelsAdd_le ls label
    rw [foldl_cons, ih (fun m hm => hshort m (mem_cons_of_mem label hm)) _ (by omega),
      mem_labelsAdd (by omega) (hshort label mem_cons_self), mem_cons, or_assoc]

theorem mem_storedLabels (hls : ∀ l ∈ ls.labels, PlainLabel l)
    (hfits : (CStr.join (.lit ",") ls.labels).bytes.length ≤ 511) (l : CStr) :
    l ∈ (storedLabels (.join (.lit ",") ls.labels)).labels ↔ l ∈ ls.labels := by
  have htokens : ((join (.lit ",") ls.labels).bytes.splitOn 44).filter (· ≠ []) =
      ls.labels.map CStr.bytes := by
    by_cases hnil : ls.labels = []
    · rw [hnil]
      decide
    · rw [splitOn_join (fun l hl => (hls l hl).noComma) hnil, filter_eq_self]
      intro b hb
      obtain ⟨l, hl, rfl⟩ := mem_map.mp hb
      simpa using (hls l hl).nonempty
  have hclean : ∀ l ∈ ls.labels, CStr.ofBytes (l.bytes.dropWhile (· = 32)) = l := by
    intro l hl
    have hhead : ∀ b ∈ l.bytes.head?, decide (b = 32) = false := by
      intro b hb
      exact decide_eq_false fun heq => (hls l hl).noBlank (heq ▸ hb)
    rw [dropWhile_of_head hhead, CStr.ofBytes_bytes]
  have hfold : storedLabels (.join (.lit ",") ls.labels) =
      ls.labels.foldl (fun ls label => (portalLabelsAdd ls label).1) .empty := by
    rw [storedLabels, truncate_eq_self hfits, htokens, foldl_map]
    exact foldl_ext _ _ _ fun acc l hl => by rw [hclean l hl]
  have hempty : l ∉ PortalLabels.empty.labels := not_mem_nil
  rw [hfold, mem_foldl_labelsAdd ls.short .empty (by
    change 0 + ls.labels.length ≤ portalMaxLabels
    rw [zero_add]
    exact ls.count_le)]
  simp [hempty]

/-! ### A record in a fresh registry -/

structure Readable (w : CStr) (r : StoredUser) : Prop where
  name : PlainName w
  nameShort : w.bytes.length < portalMaxLabelLen
  stored : PlainStored r
  passwordShort : r.password.bytes.length ≤ 255
  apiKeyShort : r.apiKey.bytes.length ≤ authKeyLen
  root : w = portalRootUser → portalRootUser ∈ (storedLabels r.groups).labels

structure ReadAs (r : StoredUser) (u : AuthAccount) : Prop where
  password : u.password = r.password
  apiKey : u.apiKey = r.apiKey
  labels : ∀ l, l ∈ u.labels.labels ↔ l ∈ (storedLabels r.groups).labels

theorem labelsAdd_of_mem {label : CStr} (h : label ∈ ls.labels) :
    (portalLabelsAdd ls label).1 = ls := by
  rw [portalLabelsAdd]
  simp only [h, if_true]
  split <;> rfl

section Records

variable {w : CStr} {r : StoredUser} {v : AuthAccount}

theorem Readable.copyApiKey (h : Readable w r) (hv : v.apiKey = .lit "") :
    ((if r.apiKey.bytes = [] then none else some r.apiKey).elim v v.copyApiKey).apiKey =
      r.apiKey := by
  by_cases hkey : r.apiKey.bytes = []
  · rw [if_pos hkey]
    refine hv.trans (CStr.ext_bytes ?_)
    rw [hkey]
    decide
  · rw [if_neg hkey]
    exact truncate_eq_self h.apiKeyShort

theorem Readable.loadRoot (h : Readable w r) (hroot : w = portalRootUser)
    (hkey : v.apiKey = .lit "") : ReadAs r (v.loadRoot (readRecord (userText r))) := by
  have hmem := h.root hroot
  have hcount : (storedLabels r.groups).count ≠ 0 := fun hzero =>
    ne_nil_of_mem hmem (eq_nil_of_length_eq_zero hzero)
  have hload : v.loadRoot (readRecord (userText r)) =
      ((if r.apiKey.bytes = [] then none else some r.apiKey).elim (v.setPassword r.password)
        (v.setPassword r.password).copyApiKey).setLabels (storedLabels r.groups) := by
    rw [h.stored.readRecord, AuthAccount.loadRoot]
    simp only [if_neg hcount, labelsAdd_of_mem hmem]
    rfl
  rw [hload]
  refine ⟨?_, h.copyApiKey (v := v.setPassword r.password) hkey, fun _ => Iff.rfl⟩
  split_ifs <;> exact truncate_eq_self h.passwordShort

theorem Readable.newEntry (h : Readable w r) (hroot : w ≠ portalRootUser) :
    ∃ u, (readRecord (userText r)).apply w none = some u ∧ ReadAs r u := by
  rw [h.stored.readRecord, UserRecord.apply, if_neg hroot]
  refine ⟨_, rfl, ?_, h.copyApiKey (v := newAccount ..) rfl, ?_⟩
  · split_ifs <;> exact truncate_eq_self h.passwordShort
  · split_ifs <;> exact fun _ => Iff.rfl

theorem Readable.apply (h : Readable w r) {raw : Option (Vector UInt8 32)}
    (hraw : w = portalRootUser → raw ≠ none) :
    ∃ u, (readRecord (userText r)).apply w (findAccount (portalAuthInit raw) w) = some u ∧
      ReadAs r u := by
  by_cases hroot : w = portalRootUser
  · rw [findAccount_init, if_pos ⟨hraw hroot, hroot⟩, UserRecord.apply, if_pos hroot]
    exact ⟨_, rfl, h.loadRoot hroot rfl⟩
  · rw [findAccount_init, if_neg fun heq => hroot heq.2]
    exact h.newEntry hroot

end Records

structure PlainUser (u : AuthAccount) : Prop where
  name : PlainName u.username
  stored : PlainStored u.stored
  labels : ∀ l ∈ u.labels.labels, PlainLabel l
  root : u.username = portalRootUser → portalRootUser ∈ u.labels.labels

/-- The two entries are the same but for the order of the labels. -/
structure SameUser (u u' : AuthAccount) : Prop where
  password : u'.password = u.password
  apiKey : u'.apiKey = u.apiKey
  labels : ∀ l, l ∈ u'.labels.labels ↔ l ∈ u.labels.labels

theorem PlainUser.mem_labels {u : AuthAccount} (hu : PlainUser u) (l : CStr) :
    l ∈ (storedLabels u.stored.groups).labels ↔ l ∈ u.labels.labels :=
  mem_storedLabels hu.labels (hu.stored.groupsFit.trans (by decide)) l

theorem PlainUser.readable {u : AuthAccount} (hu : PlainUser u) :
    Readable u.username u.stored where
  name := hu.name
  nameShort := u.username_short
  stored := hu.stored
  passwordShort := Nat.le_of_lt_succ u.password_short
  apiKeyShort := u.apiKey_short
  root := fun hroot => (hu.mem_labels portalRootUser).mpr (hu.root hroot)

theorem PlainUser.sameUser {u u' : AuthAccount} (hu : PlainUser u) (h : ReadAs u.stored u') :
    SameUser u u' :=
  ⟨h.password, h.apiKey, fun l => (h.labels l).trans (hu.mem_labels l)⟩

/-! ### The directory -/

/-- `entries` is what `readdir` delivers of a directory, and there is room for all the users. -/
structure DirListing (dir : UserDir) (entries : List CStr) : Prop where
  complete : ∀ f, f ∈ entries ↔ (dir f).isSome = true
  room : 1 + ((entries.filterMap listedName).filter (· ≠ portalRootUser)).length ≤ authMaxUsers

/-- No longer name in the directory is cut to this one. -/
def NotCut (entries : List CStr) (name : CStr) : Prop :=
  ∀ n ∈ entries.filterMap listedName, ¬ n.bytes.length < portalMaxLabelLen →
    n.truncate (portalMaxLabelLen - 1) ≠ name

theorem DirListing.findAccount {dir : UserDir} {entries : List CStr} (h : DirListing dir entries)
    (raw : Option (Vector UInt8 32)) (dir' : UserDir) :
    findAccount (portalAuthLoadFromStore dir' entries (portalAuthInit raw)) =
      (entries.filterMap listedName).foldl (loadedUsers dir')
        (Portal.findAccount (portalAuthInit raw)) := by
  have hlen := length_init_le raw
  have hroom := h.room
  exact findAccount_loadAll dir' _ (by omega)

theorem DirListing.load {dir : UserDir} {entries : List CStr} (h : DirListing dir entries)
    (raw : Option (Vector UInt8 32)) {w : CStr} (hw : w.bytes.length < portalMaxLabelLen)
    (hcut : NotCut entries w) :
    Portal.findAccount (portalAuthLoadFromStore dir entries (portalAuthInit raw)) w =
      if w ∈ entries.filterMap listedName then
        applyFile dir w (Portal.findAccount (portalAuthInit raw) w)
      else Portal.findAccount (portalAuthInit raw) w := by
  rw [h.findAccount]
  exact foldl_loadedUsers dir hw hcut _

theorem DirListing.mem_update {dir : UserDir} {name : CStr} {file : Bytes}
    {entries entries' : List CStr} (h : DirListing dir entries)
    (h' : DirListing (Function.update dir (userFileName name) (some file)) entries')
    (hlisted : listedName (userFileName name) = some name) {w : CStr} (hw : w ≠ name) :
    w ∈ entries'.filterMap listedName ↔ w ∈ entries.filterMap listedName := by
  have hmem : ∀ f, f ≠ userFileName name → (f ∈ entries' ↔ f ∈ entries) := by
    intro f hf
    rw [h'.complete, h.complete, Function.update_of_ne hf]
  have hne : ∀ f, listedName f = some w → f ≠ userFileName name := by
    rintro f hf rfl
    exact hw (Option.some.inj (hf.symm.trans hlisted))
  simp only [mem_filterMap]
  constructor
  · rintro ⟨f, hf, hname⟩
    exact ⟨f, (hmem f (hne f hname)).mp hf, hname⟩
  · rintro ⟨f, hf, hname⟩
    exact ⟨f, (hmem f (hne f hname)).mpr hf, hname⟩

/-! ### Names that are listed -/

theorem strstr_spec {pat s : Bytes} (hpat : pat ≠ []) {i : Nat} (h : strstr pat s = some i) :
    pat <+: s.drop i ∧ ¬ pat <:+: s.take i := by
  induction s generalizing i with
  | nil =>
    rw [strstr, if_neg hpat] at h
    cases h
  | cons c s ih =>
    rw [strstr] at h
    split at h
    · rename_i hpre
      cases h
      rw [take_zero, infix_nil]
      exact ⟨hpre, hpat⟩
    · rename_i hpre
      obtain ⟨j, hj, rfl⟩ := Option.map_eq_some_iff.mp h
      rw [take_succ_cons, infix_cons_iff, not_or]
      have hnot : ¬ pat <+: c :: s.take j := fun hp =>
        hpre (hp.trans ((prefix_cons_inj c).mpr ( take_prefix j s)))
      exact ⟨(ih hj).1, hnot, (ih hj).2⟩

/-- A name that a directory lists begins with no dot and has no `.conf` in it. -/
theorem shown_of_listedName {f name : CStr} (h : listedName f = some name) :
    (∃ b ∈ name.bytes.head?, b ≠ 46) ∧ ¬ (CStr.lit ".conf").bytes <:+: name.bytes := by
  rw [listedName, Option.ite_none_left_eq_some] at h
  obtain ⟨hdot, h⟩ := h
  obtain ⟨i, hi, rfl⟩ := Option.map_eq_some_iff.mp h
  obtain ⟨hpre, hconf⟩ := strstr_spec (by rw [confBytes]; exact cons_ne_nil _ _) hi
  refine ⟨?_, hconf⟩
  obtain ⟨t, ht⟩ := hpre
  obtain ⟨b, hb⟩ : ∃ b, f.bytes.head? = some b := by
    rw [← Option.isSome_iff_exists, isSome_head?]
    intro hnil
    change (lit ".conf").bytes ++ t = (f.bytes.take 255).drop i at ht
    rw [hnil, confBytes] at ht
    simp at ht
  have hi : i ≠ 0 := by
    rintro rfl
    -- the entry would begin with a dot
    refine hdot ?_
    have hhead := congrArg head? ht
    rw [confBytes] at hhead
    simpa [CStr.truncate, head?_take] using hhead.symm
  refine ⟨b, ?_, fun heq => hdot (heq ▸ hb)⟩
  simp [CStr.truncate, head?_take, hi, hb]

/-- The field of a record comes from its own line, if the other lines are about their own
keys. -/
theorem assigned_userText {r : StoredUser} {k v : CStr} (hk : userFields r k = some v)
    (hothers : ∀ k' v', userFields r k' = some v' → k' ≠ k →
      assigned k (iniEntries (iniLine (k', v'))) = none) :
    assigned k (iniEntries (userText r)) = assigned k (iniEntries (iniLine (k, v))) := by
  have htable := (filledTable_userTable r).inv
  rw [userText, iniEntries_writeIni]
  refine assigned_flatMap_of_unique (x := (k, v)) ?_ ?_
  · rw [portalHtIter_eq, mem_entries, htable.maps]
    exact hk
  · rintro ⟨k', v'⟩ hmem hne
    rw [portalHtIter_eq, mem_entries, htable.maps] at hmem
    refine hothers k' v' hmem ?_
    rintro rfl
    rw [hk] at hmem
    cases hmem
    exact hne rfl

theorem plainKey_field {r : StoredUser} {k v : CStr} (h : userFields r k = some v) :
    PlainKey k := by
  rcases userFields_cases h with ⟨rfl, -⟩ | ⟨rfl, -⟩ | ⟨rfl, -⟩ <;>
    exact ⟨⟨by decide, by decide⟩, by decide, by decide⟩

section Labels

def labelText (ls : List CStr) : Bytes := ls.flatMap fun l => l.bytes ++ [comma]

theorem labelText_eq {ls : List CStr} (hne : ls ≠ []) :
    labelText ls = (CStr.join (.lit ",") ls).bytes ++ [comma] := by
  have htext : labelText ls = (ls.map CStr.bytes).flatMap (· ++ [comma]) := by
    rw [labelText, flatMap_map]
  rw [htext, flatMap_concat comma (mt map_eq_nil_iff.mp hne), ← bytes_join]

/-- A part is skipped, or its first 63 bytes without blanks in front become a label. -/
theorem labelsAdd_part (ls : PortalLabels) (tok : Bytes) :
    let added := (portalLabelsAdd ls (.ofBytes (tok.dropWhile (· = 32)))).1.labels
    added = ls.labels ∨ added = ls.labels ++
      [(CStr.ofBytes (tok.dropWhile (· = 32))).truncate (portalMaxLabelLen - 1)] := by
  unfold portalLabelsAdd
  split
  · exact .inl rfl
  split
  · exact .inl rfl
  · exact .inr rfl

theorem part_sublist (tok : Bytes) :
    ((CStr.ofBytes (tok.dropWhile (· = 32))).truncate (portalMaxLabelLen - 1)).bytes <+ tok :=
  ((take_sublist _ _).trans (takeWhile_sublist _)).trans (dropWhile_sublist _)

theorem length_labelText_add (ls : PortalLabels) (tok : Bytes) :
    (labelText (portalLabelsAdd ls (.ofBytes (tok.dropWhile (· = 32)))).1.labels).length ≤
      (labelText ls.labels).length + (tok ++ [comma]).length := by
  rcases labelsAdd_part ls tok with hsame | hadded
  · rw [hsame]
    exact Nat.le_add_right ..
  · have hlen := (part_sublist tok).length_le
    rw [hadded, labelText, flatMap_append, length_append, flatMap_singleton, length_append,
      length_append]
    exact Nat.add_le_add_left (Nat.add_le_add_right hlen 1) _

/-- The labels that are read take no more room than the text they are read from. -/
theorem length_labelText_stored (groups : CStr) :
    (labelText (storedLabels groups).labels).length ≤ groups.bytes.length + 1 := by
  have hfold (toks : List Bytes) : ∀ ls : PortalLabels,
      (labelText (toks.foldl (fun ls tok =>
        (portalLabelsAdd ls (.ofBytes (tok.dropWhile (· = 32)))).1) ls).labels).length ≤
      (labelText ls.labels).length + (toks.flatMap (· ++ [comma])).length := by
    induction toks with
    | nil => exact fun ls => le_rfl
    | cons tok toks ih =>
      intro ls
      rw [foldl_cons, flatMap_cons, length_append]
      have hadd := length_labelText_add ls tok
      exact (ih _).trans (by omega)
  have hparts : ((groups.truncate 511).bytes.splitOn 44).flatMap (· ++ [comma]) =
      (groups.truncate 511).bytes ++ [comma] := by
    rw [flatMap_concat comma (splitOn_ne_nil _ _)]
    exact congrArg (· ++ [comma]) (intercalate_splitOn 44)
  have hsome := (filter_sublist (p := fun t : Bytes => decide (t ≠ []))
    (l := (groups.truncate 511).bytes.splitOn 44)).flatMap (· ++ [comma])
  have hle := hsome.length_le
  rw [hparts, length_append] at hle
  have hcut : (groups.truncate 511).bytes.length ≤ groups.bytes.length := length_take_le' _ _
  have hlabels := hfold (((groups.truncate 511).bytes.splitOn 44).filter (· ≠ [])) .empty
  rw [storedLabels]
  refine hlabels.trans ?_
  change 0 + _ ≤ _
  simp only [length_singleton] at hle
  omega

/-- Distinct labels that are all read fit the text. -/
theorem length_join_le {ls : List CStr} (hnodup : ls.Nodup) {groups : CStr}
    (hsub : ls ⊆ (storedLabels groups).labels) :
    (CStr.join (.lit ",") ls).bytes.length ≤ groups.bytes.length := by
  by_cases hnil : ls = []
  · rw [hnil]
    exact Nat.zero_le _
  obtain ⟨ls', hperm, hsublist⟩ := subperm_of_subset hnodup hsub
  have hlen : (labelText ls').length = (labelText ls).length :=
    (hperm.flatMap_right _).length_eq
  have hle := (hsublist.flatMap fun l : CStr => l.bytes ++ [comma]).length_le
  have hread := length_labelText_stored groups
  have hjoin := congrArg length (labelText_eq hnil)
  rw [length_append, length_singleton] at hjoin
  rw [labelText] at hlen hread
  omega

/-- A label that is read is a part of the text, without the blanks in front. -/
theorem part_of_mem_storedLabels {groups l : CStr} (h : l ∈ (storedLabels groups).labels) :
    ∃ tok ∈ (groups.truncate 511).bytes.splitOn 44, tok ≠ [] ∧
      l = (CStr.ofBytes (tok.dropWhile (· = 32))).truncate (portalMaxLabelLen - 1) := by
  have hfold (toks : List Bytes) : ∀ ls : PortalLabels,
      l ∈ (toks.foldl (fun ls tok =>
        (portalLabelsAdd ls (.ofBytes (tok.dropWhile (· = 32)))).1) ls).labels →
      l ∈ ls.labels ∨ ∃ tok ∈ toks,
        l = (CStr.ofBytes (tok.dropWhile (· = 32))).truncate (portalMaxLabelLen - 1) := by
    induction toks with
    | nil => exact fun ls => .inl
    | cons tok toks ih =>
      intro ls hl
      rcases ih _ hl with hadd | ⟨t, ht, heq⟩
      · rcases labelsAdd_part ls tok with hsame | hadded
        · exact .inl (hsame ▸ hadd)
        · rcases mem_append.mp (hadded ▸ hadd) with hold | hnew
          · exact .inl hold
          · exact .inr ⟨tok, mem_cons_self, mem_singleton.mp hnew⟩
      · exact .inr ⟨t, mem_cons_of_mem tok ht, heq⟩
  rcases hfold _ _ h with hnil | ⟨tok, htok, heq⟩
  · exact nomatch hnil
  · obtain ⟨hmem, hne⟩ := mem_filter.mp htok
    exact ⟨tok, hmem, of_decide_eq_true hne, heq⟩

/-- Labels that are read are plain, if the text is that of the labels. -/
theorem plainLabel_of_stored {ls : List CStr}
    (hshort : (CStr.join (.lit ",") ls).bytes.length ≤ 511)
    (hread : ∀ l, l ∈ (storedLabels (.join (.lit ",") ls)).labels ↔ l ∈ ls) :
    ∀ l ∈ ls, PlainLabel l := by
  have hpart (l : CStr) (hl : l ∈ ls) : ∃ tok ∈ (CStr.join (.lit ",") ls).bytes.splitOn 44,
      tok ≠ [] ∧ l = (CStr.ofBytes (tok.dropWhile (· = 32))).truncate (portalMaxLabelLen - 1) := by
    have hpart := part_of_mem_storedLabels ((hread l).mpr hl)
    rwa [truncate_eq_self hshort] at hpart
  have hcomma (l : CStr) (hl : l ∈ ls) : comma ∉ l.bytes := by
    obtain ⟨tok, htok, -, rfl⟩ := hpart l hl
    exact fun hmem => (mem_splitOn htok).1 ((part_sublist tok).subset hmem)
  have hblank (l : CStr) (hl : l ∈ ls) : l.bytes.head? ≠ some 32 := by
    obtain ⟨tok, -, -, rfl⟩ := hpart l hl
    intro hhead
    obtain ⟨rest, hrest⟩ := head?_eq_some_iff.mp hhead
    have hpre : 32 :: rest <+: tok.dropWhile (· = 32) :=
      hrest ▸ ( take_prefix _ _).trans ( takeWhile_prefix _)
    obtain ⟨t, ht⟩ := hpre
    have hnot := head?_dropWhile_not (fun b : UInt8 => decide (b = 32)) tok
    rw [← ht] at hnot
    exact absurd hnot (by simp)
  intro l hl
  refine ⟨?_, hcomma l hl, hblank l hl⟩
  -- the part of the label is a label itself, with no blank in front and so nothing cut off it
  obtain ⟨tok, htok, hne, rfl⟩ := hpart l hl
  rw [splitOn_join hcomma (ne_nil_of_mem hl)] at htok
  obtain ⟨l', hl', rfl⟩ := mem_map.mp htok
  have hhead : ∀ b ∈ l'.bytes.head?, decide (b = 32) = false := by
    intro b hb
    exact decide_eq_false fun heq => hblank l' hl' (heq ▸ hb)
  rw [dropWhile_of_head hhead, CStr.ofBytes_bytes]
  change l'.bytes.take 63 ≠ []
  rw [Ne, take_eq_nil_iff, not_or]
  exact ⟨by decide, hne⟩

end Labels

section Restored

variable {u : AuthAccount}

def fieldRead (r : StoredUser) (k : CStr) : CStr :=
  (assigned k (iniEntries (userText r))).getD (.lit "")

theorem newline_notMem_fieldRead (r : StoredUser) (k : CStr) :
    newline ∉ (fieldRead r k).bytes := by
  unfold fieldRead
  cases hread : assigned k (iniEntries (userText r)) with
  | none => exact by decide
  | some v => exact (value_of_mem_iniEntries (mem_of_assigned hread)).1

structure OneLine (r : StoredUser) : Prop where
  password : newline ∉ r.password.bytes
  apiKey : newline ∉ r.apiKey.bytes
  groups : newline ∉ r.groups.bytes

/-- Every line that fits is about its own key. -/
theorem OneLine.entries (h : OneLine u.stored) {k v : CStr} (hk : userFields u.stored k = some v)
    (hfits : k = .lit "groups" → u.stored.groups.bytes.length ≤ 502) :
    iniEntries (iniLine (k, v)) = [(k, .ofBytes (trim v.bytes))] := by
  have hpassword : u.password.bytes.length < 256 := u.password_short
  have hapiKey : u.apiKey.bytes.length ≤ 64 := u.apiKey_short
  have hkey := plainKey_field hk
  rcases userFields_cases hk with ⟨rfl, rfl⟩ | ⟨rfl, rfl⟩ | ⟨rfl, rfl⟩
  · refine iniEntries_iniLine hkey h.password ?_
    change 8 + 3 + u.password.bytes.length ≤ 511
    omega
  · refine iniEntries_iniLine hkey h.apiKey ?_
    change 7 + 3 + u.apiKey.bytes.length ≤ 511
    omega
  · refine iniEntries_iniLine hkey h.groups ?_
    have hgroups := hfits rfl
    change 6 + 3 + u.stored.groups.bytes.length ≤ 511
    omega

theorem OneLine.read (h : OneLine u.stored) {k v : CStr} (hk : userFields u.stored k = some v)
    (hfits : u.stored.groups.bytes.length ≤ 502) :
    fieldRead u.stored k = .ofBytes (trim v.bytes) := by
  rw [fieldRead, assigned_userText hk, h.entries hk fun _ => hfits]
  · simp
  · intro k' v' hk' hne
    rw [h.entries hk' fun _ => hfits]
    simp [hne]

theorem length_ofBytes_trim_le (s : Bytes) : (CStr.ofBytes (trim s)).bytes.length ≤ s.length :=
  ((takeWhile_sublist _).trans (strip_sublist s)).length_le

/-- What is read of the labels is shorter than they are, unless they fit the line. -/
theorem OneLine.groups_fit (h : OneLine u.stored)
    (hread : u.stored.groups.bytes.length ≤ (fieldRead u.stored (.lit "groups")).bytes.length) :
    u.stored.groups.bytes.length ≤ 502 := by
  by_contra hlong
  have hkey := userFields_groups u.stored
  refine absurd hread (Nat.not_le.mpr ?_)
  rw [fieldRead, assigned_userText hkey]
  · cases hval : assigned (lit "groups") (iniEntries (iniLine (lit "groups", u.stored.groups))) with
    | none =>
      change 0 < u.stored.groups.bytes.length
      omega
    | some v =>
      have hmem := mem_of_assigned hval
      rw [iniEntries_longLine (plainKey_field hkey) h.groups (n := 502) rfl (by omega),
        mem_cons] at hmem
      change v.bytes.length < u.stored.groups.bytes.length
      rcases hmem with heq | hrest
      · cases heq
        have hcut := length_ofBytes_trim_le (u.stored.groups.bytes.take 502)
        rw [length_take] at hcut
        omega
      · have hlt := (value_of_mem_iniEntries hrest).2
        rw [length_append, length_drop, length_singleton] at hlt
        dsimp only at hlt
        omega
  · intro k' v' hk' hne
    rw [h.entries hk' fun heq => absurd heq hne]
    simp [hne]

theorem stripped_of_length_le {s : CStr}
    (h : s.bytes.length ≤ (CStr.ofBytes (trim s.bytes)).bytes.length) :
    CStr.ofBytes (trim s.bytes) = s ∧ Stripped isSpace s.bytes := by
  have hcut : (cText (trim s.bytes)).length ≤ (trim s.bytes).length :=
    (takeWhile_sublist _).length_le
  have htrim : trim s.bytes = s.bytes := (strip_sublist _).eq_of_length_le (h.trans hcut)
  exact ⟨by rw [htrim, CStr.ofBytes_bytes], stripped_of_strip_eq htrim⟩

theorem stripped_of_truncate {s : CStr} {n : Nat}
    (h : (CStr.ofBytes (trim s.bytes)).truncate n = s) : Stripped isSpace s.bytes := by
  refine (stripped_of_length_le ?_).2
  conv_lhs => rw [← h]
  exact length_take_le' _ _

/-- What is read of the file is the record it was written for. -/
structure Restored (u : AuthAccount) : Prop where
  password : (fieldRead u.stored (.lit "password")).truncate 255 = u.password
  apiKey : (fieldRead u.stored (.lit "api_key")).truncate authKeyLen = u.apiKey
  labels : ∀ l, l ∈ (storedLabels (fieldRead u.stored (.lit "groups"))).labels ↔
    l ∈ u.labels.labels

theorem Restored.oneLine (h : Restored u) : OneLine u.stored where
  password := fun hmem => newline_notMem_fieldRead u.stored (.lit "password") (by
    change newline ∈ u.password.bytes at hmem
    rw [← h.password] at hmem
    exact mem_of_mem_take hmem)
  apiKey := fun hmem => newline_notMem_fieldRead u.stored (.lit "api_key") (by
    change newline ∈ u.apiKey.bytes at hmem
    rw [← h.apiKey] at hmem
    exact mem_of_mem_take hmem)
  groups := by
    intro hmem
    change newline ∈ (CStr.join (.lit ",") u.labels.labels).bytes at hmem
    by_cases hnil : u.labels.labels = []
    · rw [hnil] at hmem
      exact nomatch hmem
    have htext := mem_append_left [comma] hmem
    rw [← labelText_eq hnil, labelText, mem_flatMap] at htext
    obtain ⟨l, hl, hin⟩ := htext
    obtain ⟨tok, htok, -, rfl⟩ := part_of_mem_storedLabels ((h.labels l).mpr hl)
    refine newline_notMem_fieldRead u.stored (.lit "groups") ?_
    rcases mem_append.mp hin with hin | hin
    · have hsub := (part_sublist tok).trans ((mem_splitOn htok).2.trans (take_sublist _ _))
      exact hsub.subset hin
    · exact absurd hin (by decide)

theorem Restored.groups_le (h : Restored u) (hnodup : u.labels.labels.Nodup) :
    u.stored.groups.bytes.length ≤ (fieldRead u.stored (.lit "groups")).bytes.length :=
  length_join_le hnodup fun l hl => (h.labels l).mpr hl

/-- A record that comes back is plain, if no label is there twice. -/
theorem Restored.plain (h : Restored u) (hnodup : u.labels.labels.Nodup) :
    PlainStored u.stored ∧ ∀ l ∈ u.labels.labels, PlainLabel l := by
  have hone := h.oneLine
  have hle := h.groups_le hnodup
  have hfits := hone.groups_fit hle
  have hpassword : u.password.bytes.length < 256 := u.password_short
  have hapiKey : u.apiKey.bytes.length ≤ 64 := u.apiKey_short
  rw [hone.read (userFields_groups u.stored) hfits] at hle
  obtain ⟨hgroups, hstripped⟩ := stripped_of_length_le hle
  have hlabels := h.labels
  rw [hone.read (userFields_groups u.stored) hfits, hgroups] at hlabels
  refine ⟨⟨⟨hone.password, ?_⟩, ⟨hone.apiKey, ?_⟩, ⟨hone.groups, hstripped⟩, ?_, ?_, hfits⟩, ?_⟩
  · have hread := h.password
    rw [hone.read (userFields_password u.stored) hfits] at hread
    exact stripped_of_truncate hread
  · by_cases hnone : u.apiKey.bytes = []
    · change Stripped isSpace u.apiKey.bytes
      rw [hnone]
      exact by decide
    · have hread := h.apiKey
      rw [hone.read (userFields_apiKey u.stored ▸ if_neg hnone) hfits] at hread
      exact stripped_of_truncate hread
  · change u.password.bytes.length ≤ 500
    omega
  · change u.apiKey.bytes.length ≤ 501
    omega
  · exact plainLabel_of_stored (hfits.trans (by decide)) hlabels

theorem Restored.of_apply {name : CStr} (hroot : name ≠ portalRootUser) {u' : AuthAccount}
    (happly : (readRecord (userText u.stored)).apply name none = some u') (h : SameUser u u') :
    Restored u := by
  rw [UserRecord.apply, if_neg hroot] at happly
  simp only [readRecord, get_readIni, Option.some.injEq] at happly
  obtain ⟨hpassword, hapiKey, hlabels⟩ := h
  subst happly
  refine ⟨?_, ?_, ?_⟩
  · rw [← hpassword, fieldRead]
    cases assigned (.lit "api_key") (iniEntries (userText u.stored)) <;> rfl
  · rw [← hapiKey, fieldRead]
    cases assigned (.lit "api_key") (iniEntries (userText u.stored)) <;> rfl
  · intro l
    rw [← hlabels, fieldRead]
    cases assigned (.lit "api_key") (iniEntries (userText u.stored)) <;> rfl

end Restored

/-! ### Saving and loading -/

/-- The user is saved, and is the same in a fresh registry that is loaded from the directory, as is
everybody else to whose name no longer one is cut. -/
def Persists (db : AuthDb) (name : CStr) (u : AuthAccount) (raw : Option (Vector UInt8 32))
    (dir : UserDir) (entries : List CStr) : Prop :=
  ∃ dir', portalAuthSaveUserToStore db name dir = some (dir', 0) ∧
    (∃ u', findAccount (portalAuthLoadFromStore dir' entries (portalAuthInit raw)) name =
      some u' ∧ SameUser u u') ∧
    ∀ before, DirListing dir before → ∀ w, w ≠ name → NotCut before w → NotCut entries w →
      findAccount (portalAuthLoadFromStore dir' entries (portalAuthInit raw)) w =
        findAccount (portalAuthLoadFromStore dir before (portalAuthInit raw)) w

section Saved

variable {db : AuthDb} {u : AuthAccount} {raw : Option (Vector UInt8 32)} {dir : UserDir}
  {entries : List CStr}

theorem PlainUser.persists (hu : PlainUser u) (hfind : findAccount db u.username = some u)
    (hraw : u.username = portalRootUser → raw ≠ none)
    (hdir : DirListing (Function.update dir (userFileName u.username)
      (some (userText u.stored))) entries) (hcut : NotCut entries u.username) :
    Persists db u.username u raw dir entries := by
  have hlisted := hu.name.listed u.username_short
  refine ⟨_, by rw [portalAuthSaveUserToStore, hfind]; exact if_neg hu.name.noSlash, ?_, ?_⟩
  · have hmem : u.username ∈ entries.filterMap listedName :=
      mem_filterMap.mpr ⟨userFileName u.username, (hdir.complete _).mpr (by simp), hlisted⟩
    rw [hdir.load raw u.username_short hcut, if_pos hmem, applyFile, Function.update_self]
    obtain ⟨u', hu', hread⟩ := hu.readable.apply hraw
    exact ⟨u', hu', hu.sameUser hread⟩
  intro before hbefore w hw hcutBefore hcutAfter
  by_cases hshort : w.bytes.length < portalMaxLabelLen
  · have hfile : userFileName w ≠ userFileName u.username := fun heq =>
      hw (userFileName_injective heq)
    rw [hdir.load raw hshort hcutAfter, hbefore.load raw hshort hcutBefore, applyFile, applyFile,
      Function.update_of_ne hfile]
    simp only [hbefore.mem_update hdir hlisted hw]
  · rw [findAccount_long _ hshort, findAccount_long _ hshort]

/-- The converse: who comes back as they were is plain. -/
theorem Persists.plainUser (h : Persists db u.username u raw dir entries)
    (hfind : findAccount db u.username = some u) (hroot : u.username ≠ portalRootUser)
    (hnodup : u.labels.labels.Nodup)
    (hdir : DirListing (Function.update dir (userFileName u.username)
      (some (userText u.stored))) entries) (hcut : NotCut entries u.username) : PlainUser u := by
  obtain ⟨dir', hsave, ⟨u', hu', hsame⟩, -⟩ := h
  rw [portalAuthSaveUserToStore, hfind] at hsave
  obtain ⟨hslash, hdir'⟩ := Option.ite_none_left_eq_some.mp hsave
  obtain rfl := (Prod.mk.inj (Option.some.inj hdir')).1
  have hinit : findAccount (portalAuthInit raw) u.username = none := by
    rw [findAccount_init, if_neg fun heq => hroot heq.2]
  rw [hdir.load raw u.username_short hcut, hinit] at hu'
  split at hu'
  · rename_i hlisted
    obtain ⟨f, -, hf⟩ := mem_filterMap.mp hlisted
    obtain ⟨hshown, hconf⟩ := shown_of_listedName hf
    rw [applyFile, Function.update_self] at hu'
    obtain ⟨hstored, hlabels⟩ := (Restored.of_apply hroot hu' hsame).plain hnodup
    exact ⟨⟨hslash, hshown, hconf⟩, hstored, hlabels, fun heq => absurd heq hroot⟩
  · cases hu'

end Saved

/-- A plain user that is saved and loaded into a fresh registry is the same, and so is everybody
else. No other user comes back, but for root, who is given the label `root` again, and for users
with a label twice. -/
theorem user_record_persists {db : AuthDb} {name : CStr} {u : AuthAccount}
    (hfind : findAccount db name = some u) {raw : Option (Vector UInt8 32)} {dir : UserDir}
    {entries : List CStr}
    (hdir : DirListing (Function.update dir (userFileName name) (some (userText u.stored))) entries)
    (hcut : NotCut entries name) :
    (PlainUser u → (name = portalRootUser → raw ≠ none) → Persists db name u raw dir entries) ∧
      (name ≠ portalRootUser → u.labels.labels.Nodup →
        (Persists db name u raw dir entries ↔ PlainUser u)) := by
  obtain rfl : u.username = name := by simpa [findAccount] using find?_some hfind
  refine ⟨fun hu hraw => hu.persists hfind hraw hdir hcut, fun hroot hnodup => ⟨fun h => ?_,
    fun hu => hu.persists hfind (fun heq => absurd heq hroot) hdir hcut⟩⟩
  exact h.plainUser hfind hroot hnodup hdir hcut

/-! ### Two users -/

def soleUser (u : AuthAccount) : CoreState := plainState ⟨[u], [], authSessionTtl⟩

def annStaff : AuthAccount :=
  newAccount (.lit "ann") (.lit "secret") (portalLabelsAdd .empty (.lit "staff")).1

theorem annStaff_plain : PlainUser annStaff where
  name := ⟨by decide, ⟨97, by decide, by decide⟩, by decide⟩
  stored := ⟨by decide, by decide, by decide, by decide, by decide, by decide⟩
  labels := by
    intro l hl
    have hlabels : annStaff.labels.labels = [.lit "staff"] := by decide
    rw [hlabels, mem_singleton] at hl
    subst hl
    exact ⟨by decide, by decide, by decide⟩
  root := fun heq => absurd heq (by decide)

def longFile : CStr := userFileName ⟨replicate 64 98, by decide⟩

def longStore : UserDir :=
  Function.update (fun _ => none) longFile (some (userText annStaff.stored))

theorem listing_longStore :
    DirListing (Function.update longStore (userFileName (.lit "ann"))
      (some (userText annStaff.stored))) [longFile, userFileName (.lit "ann")] where
  complete f := by
    rw [longStore, Function.update_apply, Function.update_apply, mem_cons, mem_singleton]
    split_ifs with hann hlong
    · exact iff_of_true (.inr hann) rfl
    · exact iff_of_true (.inl hlong) rfl
    · exact iff_of_false (not_or.mpr ⟨hlong, hann⟩) Bool.false_ne_true
  room := by decide

/-- Ann is loaded as they were saved from a store that also has the file of a longer name. -/
theorem user_record_persists_ann :
    let entries := [longFile, userFileName (.lit "ann")]
    Persists (soleUser annStaff).auth (.lit "ann") annStaff none longStore entries ∧
      (Persists (soleUser annStaff).auth (.lit "ann") annStaff none longStore entries ↔
        PlainUser annStaff) := by
  have hann : findAccount (soleUser annStaff).auth (.lit "ann") = some annStaff := by decide
  have hcut : NotCut [longFile, userFileName (.lit "ann")] (.lit "ann") := by
    unfold NotCut
    decide
  have hroot : lit "ann" ≠ portalRootUser := by decide
  obtain ⟨hpersists, hiff⟩ := @user_record_persists _ _ _ hann none _ _ listing_longStore hcut
  exact ⟨hpersists annStaff_plain fun heq => absurd heq hroot, hiff hroot (by decide)⟩

def twoLinePassword : PortalMsg :=
  { PortalMsg.zero with
    path := some (CStr.lit "/users/ann/password").bytes
    method := portalMethodCall
    headerCount := 1
    headers := [⟨some (CStr.lit "password").bytes, some (CStr.lit "x\ngroups = hub-admin").bytes⟩]
    ctx := some { PortalCtx.zero with auth := ⟨some (CStr.lit "ann").bytes, none, .empty⟩ } }

/-- The second line is read as Ann's groups: who could change nothing but a password is an
administrator in the registry that is loaded. -/
theorem user_record_persists_false :
    (coreHandleMessage plainEnv (soleUser annStaff) twoLinePassword).map (fun x => x.2.status) =
        some .ok ∧
      ((coreHandleMessage plainEnv (soleUser annStaff) twoLinePassword).bind fun x =>
        (findAccount x.1.auth (.lit "ann")).map fun u => (u.password, u.labels.labels)) =
          some (.lit "x\ngroups = hub-admin", [.lit "staff"]) ∧
      ((coreHandleMessage plainEnv (soleUser annStaff) twoLinePassword).bind fun x =>
        (portalAuthSaveUserToStore x.1.auth (.lit "ann") fun _ => none).bind fun d =>
          (findAccount (portalAuthLoadFromStore d.1 [.lit "ann.conf"] (portalAuthInit none))
            (.lit "ann")).map fun u => (u.password, u.labels.labels)) =
          some (.lit "x", [.lit "hub-admin"]) := by
  refine ⟨by decide +kernel, by decide +kernel, by decide +kernel⟩

end Portal
