import Portal.Core.IniFiles
import Portal.Core.Router
import Portal.Core.Users

/-!
Users in files: `portal_auth_init`, `portal_auth_load_from_store` and
`portal_auth_save_user_to_store` of `src/core/core_auth.c`, with `portal_store_list_dir` of
`src/core/core_store.c`. The directory `users` is a function from file names to contents. What is
written is taken to arrive, and the path of a file to fit its buffer.
-/

namespace Portal

open Option Lines AuthAccount
open List hiding Vector

def hexDigit (n : Nat) : UInt8 := UInt8.ofNat (if n < 10 then 48 + n else 87 + n)

/-- `generate_token` for `AUTH_KEY_LEN` characters, from what `getrandom` delivers. -/
def generateToken (raw : Option (Vector UInt8 32)) : CStr :=
  match raw with
  | none => .lit ""
  | some raw => .ofBytes (raw.toList.flatMap fun b =>
    [hexDigit (b.toNat / 16), hexDigit (b.toNat % 16)])

def authSessionTtl : Int32 := 3600

def zeroedAuth : AuthDb :=
  ⟨[], List.replicate authMaxSessions ⟨.lit "", .lit "", 0, false⟩, authSessionTtl⟩

def rootLabels : PortalLabels := (portalLabelsAdd .empty portalRootUser).1

/-- Without random bytes there is no root. -/
def portalAuthInit (raw : Option (Vector UInt8 32)) : AuthDb :=
  if (generateToken raw).bytes = [] then zeroedAuth
  else (portalAuthAddUser zeroedAuth portalRootUser (generateToken raw) rootLabels).1

abbrev UserDir := CStr → Option Bytes

def userFileName (name : CStr) : CStr := name.append (.lit ".conf")

/-- `portal_store_list_dir`: the name that is made of an entry of a directory. -/
def listedName (entry : CStr) : Option CStr :=
  if entry.bytes.head? = some 46 then none
  else
    let name := entry.truncate 255
    (strstr (CStr.lit ".conf").bytes name.bytes).map fun i => name.truncate i

/-! ### Loading the directory -/

def AuthAccount.copyApiKey (u : AuthAccount) (key : CStr) : AuthAccount :=
  u.setApiKey ⟨key.truncate authKeyLen, List.length_take_le _ _⟩

/-- The groups of a record: at the commas, and without blanks in front. -/
def storedLabels (groups : CStr) : PortalLabels :=
  (((groups.truncate 511).bytes.splitOn 44).filter (· ≠ [])).foldl
    (fun ls tok => (portalLabelsAdd ls (.ofBytes (tok.dropWhile (· = 32)))).1) .empty

structure UserRecord where
  password : Option CStr
  apiKey : Option CStr
  labels : PortalLabels
deriving DecidableEq

def readRecord (file : Bytes) : UserRecord :=
  let kv := portalStoreReadIni (portalHtInit 16) file
  { password := portalHtGet kv (.lit "password")
    apiKey := portalHtGet kv (.lit "api_key")
    labels := storedLabels ((portalHtGet kv (.lit "groups")).getD (.lit "")) }

/-- A record over the seeded root: what is there replaces what was, and root stays root. -/
def AuthAccount.loadRoot (r : UserRecord) (u : AuthAccount) : AuthAccount :=
  let u := r.password.elim u u.setPassword
  let u := r.apiKey.elim u u.copyApiKey
  if r.labels.count = 0 then u else u.setLabels (portalLabelsAdd r.labels portalRootUser).1

def loadRecord (db : AuthDb) (name : CStr) (r : UserRecord) : AuthDb :=
  if name = portalRootUser then db.modifyUser name (AuthAccount.loadRoot r)
  else
    let added := portalAuthAddUser db name (r.password.getD (.lit "")) r.labels
    if added.2 = 0 then added.1.modifyUser name fun u => r.apiKey.elim u u.copyApiKey
    else added.1

def loadUserCb (dir : UserDir) (db : AuthDb) (name : CStr) : AuthDb :=
  match dir (userFileName name) with
  | none => db
  | some file => loadRecord db name (readRecord file)

/-- `entries` is what `readdir` delivers. -/
def portalAuthLoadFromStore (dir : UserDir) (entries : List CStr) (db : AuthDb) : AuthDb :=
  (entries.filterMap listedName).foldl (loadUserCb dir) db

def userTable (r : StoredUser) : PortalHt CStr :=
  let kv := (portalHtSet (portalHtInit 16) (.lit "password") r.password).1
  let kv := if r.apiKey.bytes = [] then kv else (portalHtSet kv (.lit "api_key") r.apiKey).1
  (portalHtSet kv (.lit "groups") r.groups).1

def userText (r : StoredUser) : Bytes := portalStoreWriteIni (userTable r)

/-- A name with a slash leads out of the directory. -/
def portalAuthSaveUserToStore (db : AuthDb) (username : CStr) (dir : UserDir) :
    Option (UserDir × Int) :=
  match findAccount db username with
  | none => some (dir, -1)
  | some u =>
    if slash ∈ username.bytes then none
    else some (Function.update dir (userFileName username) (some (userText u.stored)), 0)

/-! ### Names -/

/-- A name whose file is in the directory and is listed as this name. -/
structure PlainName (name : CStr) : Prop where
  noSlash : slash ∉ name.bytes
  shown : ∃ b ∈ name.bytes.head?, b ≠ 46
  noConf : ¬ (CStr.lit ".conf").bytes <:+: name.bytes

theorem confBytes : (CStr.lit ".conf").bytes = [46, 99, 111, 110, 102] := by decide

theorem strstr_conf {s : Bytes} (h : ¬ [46, 99, 111, 110, 102] <:+: s) :
    strstr [46, 99, 111, 110, 102] (s ++ [46, 99, 111, 110, 102]) = some s.length := by
  induction s with
  | nil => decide
  | cons c s ih =>
    have hrest := ih fun hin => h (hin.trans (suffix_cons c s).isInfix)
    have hnot : ¬ [46, 99, 111, 110, 102] <+: c :: (s ++ [46, 99, 111, 110, 102]) := by
      intro hpre
      rcases lt_or_ge s.length 4 with hlt | hge
      · -- the dot of the end would be one of the letters
        rcases s with _ | ⟨c1, _ | ⟨c2, _ | ⟨c3, _ | ⟨c4, s⟩⟩⟩⟩ <;> simp at hpre hlt
        omega
      · refine h (List.IsPrefix.isInfix ?_)
        exact prefix_of_prefix_length_le hpre
          (prefix_append (c :: s) [46, 99, 111, 110, 102]) (by simpa using hge)
    rw [cons_append, strstr, if_neg hnot, hrest]
    rfl

theorem userFileName_injective : Function.Injective userFileName := by
  intro a b h
  exact CStr.ext_bytes (append_cancel_right (congrArg CStr.bytes h))

theorem PlainName.listed {name : CStr} (h : PlainName name)
    (hshort : name.bytes.length < portalMaxLabelLen) :
    listedName (userFileName name) = some name := by
  obtain ⟨b, hb, hne⟩ := h.shown
  have hlen : name.bytes.length < 64 := hshort
  have hbytes : (userFileName name).bytes = name.bytes ++ [46, 99, 111, 110, 102] := by
    rw [← confBytes]
    rfl
  have hcut : (userFileName name).truncate 255 = userFileName name := by
    refine CStr.truncate_eq_self ?_
    rw [hbytes, length_append]
    simp only [length_cons, length_nil]
    omega
  have hhead : (userFileName name).bytes.head? = some b := by
    rw [hbytes, head?_append, hb]
    rfl
  have hconf := h.noConf
  rw [confBytes] at hconf
  simp only [listedName, hhead, some.injEq, hne, if_false, hcut, confBytes]
  rw [hbytes, strstr_conf hconf]
  refine congrArg some (CStr.ext_bytes ?_)
  change (userFileName name).bytes.take name.bytes.length = name.bytes
  rw [hbytes]
  exact take_left

/-! ### One record -/

variable (dir : UserDir) (r : UserRecord)

section Records

variable {db : AuthDb} {name : CStr}

theorem find?_modifyFirst {f : AuthAccount → AuthAccount}
    (hf : ∀ u, (f u).username = u.username) (w : CStr) {us : List AuthAccount} {i : Nat}
    (hi : us.findIdx? (fun u => u.username = name) = some i) :
    (us.modify i f).find? (fun u => u.username = w) =
      if w = name then (us.find? fun u => u.username = w).map f
      else us.find? fun u => u.username = w := by
  induction us generalizing i with
  | nil => cases hi
  | cons u us ih =>
    rw [findIdx?_cons] at hi
    by_cases hu : u.username = name
    · simp only [hu, decide_true, if_true, some.injEq] at hi
      subst hi
      by_cases hw : w = name
      · simp [hf, hu, hw]
      · simp [hf, hu, hw, Ne.symm hw]
    · simp only [hu, decide_false, Bool.false_eq_true, if_false, map_eq_some_iff] at hi
      obtain ⟨j, hj, rfl⟩ := hi
      rw [modify_succ_cons]
      by_cases hw : u.username = w
      · have hne : w ≠ name := fun heq => hu (hw.trans heq)
        simp [hw, hne]
      · simp only [find?_cons, hw, decide_false]
        exact ih hj

theorem findAccount_modifyUser {f : AuthAccount → AuthAccount}
    (hf : ∀ u, (f u).username = u.username) (db : AuthDb) (name w : CStr) :
    findAccount (db.modifyUser name f) w =
      if w = name then (findAccount db w).map f else findAccount db w := by
  unfold AuthDb.modifyUser
  cases hidx : db.accounts.findIdx? fun u => u.username = name with
  | none =>
    by_cases hw : w = name
    · have hnone : findAccount db w = none := by
        rw [findAccount, find?_eq_none, hw]
        exact fun u hu => by simpa using findIdx?_eq_none_iff.mp hidx u hu
      rw [if_pos hw, hnone]
      rfl
    · rw [if_neg hw]
  | some i => exact find?_modifyFirst hf w hidx

theorem length_modifyUser (db : AuthDb) (name : CStr) (f : AuthAccount → AuthAccount) :
    (db.modifyUser name f).accounts.length = db.accounts.length := by
  unfold AuthDb.modifyUser
  split
  · rfl
  · exact length_modify ..

def AuthAccount.merge (password : CStr) (labels : PortalLabels) (u : AuthAccount) : AuthAccount :=
  let u := if password.bytes = [] then u else u.setPassword password
  if labels.count = 0 then u else u.setLabels labels

section

variable (password : CStr) (labels : PortalLabels) (u : AuthAccount)

theorem username_merge : (u.merge password labels).username = u.username := by
  unfold AuthAccount.merge
  split_ifs <;> rfl

theorem password_merge :
    (u.merge password labels).password =
      if password.bytes = [] then u.password else password.truncate 255 := by
  unfold AuthAccount.merge
  split_ifs <;> rfl

theorem labels_merge :
    (u.merge password labels).labels = if labels.count = 0 then u.labels else labels := by
  unfold AuthAccount.merge
  split_ifs <;> rfl

end

def addedUser (name password : CStr) (labels : PortalLabels) (u : Option AuthAccount) :
    AuthAccount :=
  u.elim (newAccount name password labels) (AuthAccount.merge password labels)

theorem username_newAccount {name : CStr} (hshort : name.bytes.length < portalMaxLabelLen)
    (password : CStr) (labels : PortalLabels) :
    (newAccount name password labels).username = name :=
  CStr.truncate_eq_self (by
    have hlt : name.bytes.length < 64 := hshort
    change name.bytes.length ≤ 63
    omega)

theorem findAccount_addUser (hroom : db.accounts.length < authMaxUsers)
    (hshort : name.bytes.length < portalMaxLabelLen) (password : CStr) (labels : PortalLabels)
    (w : CStr) :
    findAccount (portalAuthAddUser db name password labels).1 w =
      if w = name then some (addedUser name password labels (findAccount db name))
      else findAccount db w := by
  rw [portalAuthAddUser, if_neg (by omega)]
  cases hfind : findAccount db name with
  | some u =>
    have hmerge := findAccount_modifyUser (username_merge password labels) db name w
    refine hmerge.trans ?_
    split
    · rename_i heq
      subst heq
      rw [hfind]
      rfl
    · rfl
  | none =>
    have hname := username_newAccount hshort password labels
    simp only [findAccount, find?_append] at hfind ⊢
    split
    · rename_i heq
      subst heq
      simp [hfind, hname, addedUser]
    · rename_i hne
      simp [hname, Ne.symm hne]

theorem addUser_rc (hroom : db.accounts.length < authMaxUsers) (password : CStr)
    (labels : PortalLabels) : (portalAuthAddUser db name password labels).2 = 0 := by
  rw [portalAuthAddUser, if_neg (by omega)]
  cases findAccount db name <;> rfl

theorem length_addUser_le (password : CStr) (labels : PortalLabels) :
    (portalAuthAddUser db name password labels).1.accounts.length ≤ db.accounts.length + 1 := by
  unfold portalAuthAddUser
  split
  · exact Nat.le_succ _
  split
  · rw [length_modifyUser]
    exact Nat.le_succ _
  · simp

def UserRecord.apply (r : UserRecord) (name : CStr) (u : Option AuthAccount) :
    Option AuthAccount :=
  if name = portalRootUser then u.map (AuthAccount.loadRoot r)
  else
    let u := addedUser name (r.password.getD (.lit "")) r.labels u
    some (r.apiKey.elim u u.copyApiKey)

theorem username_loadRoot (u : AuthAccount) : (u.loadRoot r).username = u.username := by
  unfold loadRoot
  cases r.password <;> cases r.apiKey <;> (split_ifs <;> rfl)

theorem password_loadRoot (u : AuthAccount) :
    (u.loadRoot r).password = r.password.elim u.password (CStr.truncate 255) := by
  obtain ⟨password, apiKey, labels⟩ := r
  unfold loadRoot
  cases password <;> cases apiKey <;> (split_ifs <;> rfl)

/-- There is room for one more, unless the record is root's. -/
def HasRoom (db : AuthDb) (name : CStr) : Prop :=
  name ≠ portalRootUser → db.accounts.length < authMaxUsers

theorem findAccount_loadRecord (hroom : HasRoom db name)
    (hshort : name.bytes.length < portalMaxLabelLen) (r : UserRecord) (w : CStr) :
    findAccount (loadRecord db name r) w =
      if w = name then r.apply name (findAccount db name) else findAccount db w := by
  unfold loadRecord UserRecord.apply
  by_cases hroot : name = portalRootUser
  · simp only [if_pos hroot]
    rw [findAccount_modifyUser (username_loadRoot r)]
    split
    · rename_i heq
      rw [heq]
    · rfl
  · simp only [if_neg hroot, addUser_rc (hroom hroot), if_true]
    have hkey : ∀ u : AuthAccount, (r.apiKey.elim u u.copyApiKey).username = u.username := by
      intro u
      cases r.apiKey <;> rfl
    rw [findAccount_modifyUser hkey, findAccount_addUser (hroom hroot) hshort]
    split <;> rfl

theorem length_loadRecord_le :
    (loadRecord db name r).accounts.length ≤
      db.accounts.length + if name = portalRootUser then 0 else 1 := by
  unfold loadRecord
  by_cases hroot : name = portalRootUser
  · rw [if_pos hroot, length_modifyUser]
    exact Nat.le_add_right ..
  · simp only [if_neg hroot]
    split
    · rw [length_modifyUser]
      exact length_addUser_le ..
    · exact length_addUser_le ..

/-! ### The whole directory -/

def applyFile (dir : UserDir) (name : CStr) (u : Option AuthAccount) : Option AuthAccount :=
  match dir (userFileName name) with
  | none => u
  | some file => (readRecord file).apply name u

/-- A name of 64 bytes or more is never found, and added as a user of its first 63. -/
def cutUser (dir : UserDir) (name : CStr) : Option AuthAccount :=
  (dir (userFileName name)).map fun file =>
    newAccount name ((readRecord file).password.getD (.lit "")) (readRecord file).labels

def loadedUsers (dir : UserDir) (users : CStr → Option AuthAccount) (name : CStr) :
    CStr → Option AuthAccount :=
  if name.bytes.length < portalMaxLabelLen then
    Function.update users name (applyFile dir name (users name))
  else
    let cut := name.truncate (portalMaxLabelLen - 1)
    Function.update users cut ((users cut).or (cutUser dir name))

theorem findAccount_long (db : AuthDb) {name : CStr}
    (hlong : ¬ name.bytes.length < portalMaxLabelLen) : findAccount db name = none := by
  rw [findAccount, find?_eq_none]
  intro u _ heq
  exact hlong (of_decide_eq_true heq ▸ u.username_short)

theorem findAccount_loadRecord_long (hroom : HasRoom db name)
    (hlong : ¬ name.bytes.length < portalMaxLabelLen) (r : UserRecord) (w : CStr) :
    findAccount (loadRecord db name r) w =
      (findAccount db w).or (if w = name.truncate (portalMaxLabelLen - 1) then
        some (newAccount name (r.password.getD (.lit "")) r.labels) else none) := by
  have hroot : name ≠ portalRootUser := by
    rintro rfl
    exact hlong (by decide)
  have hkey : ∀ u : AuthAccount, (r.apiKey.elim u u.copyApiKey).username = u.username := by
    intro u
    cases r.apiKey <;> rfl
  have hadd : (portalAuthAddUser db name (r.password.getD (.lit "")) r.labels).1 =
      { db with accounts :=
        db.accounts ++ [newAccount name (r.password.getD (.lit "")) r.labels] } := by
    rw [portalAuthAddUser, if_neg (Nat.not_le.mpr (hroom hroot)), findAccount_long db hlong]
  have hadded : findAccount (portalAuthAddUser db name (r.password.getD (.lit "")) r.labels).1 w =
      (findAccount db w).or (if w = name.truncate (portalMaxLabelLen - 1) then
        some (newAccount name (r.password.getD (.lit "")) r.labels) else none) := by
    rw [hadd, findAccount, find?_append, findAccount, find?_singleton]
    refine congrArg _ (if_congr ?_ rfl rfl)
    rw [decide_eq_true_eq]
    exact eq_comm
  rw [loadRecord, if_neg hroot]
  simp only [addUser_rc (hroom hroot), if_true]
  rw [findAccount_modifyUser hkey]
  split
  · rename_i hw
    rw [← hadded, hw, findAccount_long _ hlong]
    rfl
  · exact hadded

/-- The step lemma: one listed name is loaded. -/
theorem findAccount_loadUserCb (hroom : HasRoom db name) :
    findAccount (loadUserCb dir db name) = loadedUsers dir (findAccount db) name := by
  funext w
  rw [loadedUsers]
  split
  · rename_i hshort
    rw [Function.update_apply, loadUserCb, applyFile]
    cases dir (userFileName name) with
    | none =>
      by_cases hw : w = name
      · rw [if_pos hw, hw]
      · rw [if_neg hw]
    | some file => exact findAccount_loadRecord hroom hshort _ w
  · rename_i hlong
    rw [Function.update_apply, loadUserCb, cutUser]
    cases dir (userFileName name) with
    | none =>
      by_cases hw : w = name.truncate (portalMaxLabelLen - 1)
      · simp [hw]
      · rw [if_neg hw]
    | some file =>
      refine (findAccount_loadRecord_long hroom hlong _ w).trans ?_
      by_cases hw : w = name.truncate (portalMaxLabelLen - 1)
      · simp [hw]
      · simp [hw]

theorem length_loadUserCb_le :
    (loadUserCb dir db name).accounts.length ≤
      db.accounts.length + if name = portalRootUser then 0 else 1 := by
  unfold loadUserCb
  split
  · exact Nat.le_add_right ..
  · exact length_loadRecord_le _

theorem merge_idem (password : CStr) (labels : PortalLabels) (apiKey : Option CStr)
    (u : AuthAccount) :
    let once := u.merge password labels
    let kept := apiKey.elim once once.copyApiKey
    apiKey.elim (kept.merge password labels) (kept.merge password labels).copyApiKey = kept := by
  cases apiKey <;> simp only [Option.elim, AuthAccount.merge] <;> split_ifs <;> rfl

theorem addedUser_eq_merge (name password : CStr) (labels : PortalLabels) (u : Option AuthAccount) :
    ∃ v : AuthAccount, addedUser name password labels u = v.merge password labels := by
  cases u with
  | none =>
    refine ⟨newAccount name password labels, ?_⟩
    simp only [addedUser, Option.elim, AuthAccount.merge]
    split_ifs <;> rfl
  | some u => exact ⟨u, rfl⟩

theorem UserRecord.apply_idem (name : CStr) (u : Option AuthAccount) :
    r.apply name (r.apply name u) = r.apply name u := by
  obtain ⟨password, apiKey, labels⟩ := r
  simp only [UserRecord.apply]
  by_cases hroot : name = portalRootUser
  · simp only [if_pos hroot, Option.map_map]
    congr 1
    funext u
    simp only [Function.comp_apply, loadRoot]
    cases password <;> cases apiKey <;> (split_ifs <;> rfl)
  · simp only [if_neg hroot]
    obtain ⟨v, hv⟩ := addedUser_eq_merge name (password.getD (.lit "")) labels u
    rw [hv]
    exact congrArg some (merge_idem (password.getD (.lit "")) labels apiKey v)

theorem applyFile_idem (name : CStr) (u : Option AuthAccount) :
    applyFile dir name (applyFile dir name u) = applyFile dir name u := by
  unfold applyFile
  cases dir (userFileName name) with
  | none => rfl
  | some file => exact (readRecord file).apply_idem name u

/-- The run lemma: with room for all users, the listed names are loaded one after the other. -/
theorem findAccount_loadAll {names : List CStr} (db : AuthDb)
    (hroom : db.accounts.length + (names.filter (· ≠ portalRootUser)).length ≤ authMaxUsers) :
    findAccount (names.foldl (loadUserCb dir) db) =
      names.foldl (loadedUsers dir) (findAccount db) := by
  induction names generalizing db with
  | nil => rfl
  | cons n names ih =>
    have hn : HasRoom db n := by
      intro hne
      rw [filter_cons_of_pos (by simpa using hne), length_cons] at hroom
      omega
    have hlen : (loadUserCb dir db n).accounts.length ≤
        db.accounts.length + if n = portalRootUser then 0 else 1 := length_loadUserCb_le dir
    have hrest := ih (loadUserCb dir db n) (by
      by_cases hroot : n = portalRootUser
      · rw [filter_cons_of_neg (by simpa using hroot)] at hroom
        rw [if_pos hroot] at hlen
        omega
      · rw [filter_cons_of_pos (by simpa using hroot), length_cons] at hroom
        rw [if_neg hroot] at hlen
        omega)
    rw [foldl_cons, foldl_cons, hrest, findAccount_loadUserCb dir hn]

/-- Loading does to a user what the file of the user says, unless a longer name is cut to this
one. -/
theorem foldl_loadedUsers {names : List CStr} {w : CStr} (hw : w.bytes.length < portalMaxLabelLen)
    (hcut : ∀ n ∈ names, ¬ n.bytes.length < portalMaxLabelLen →
      n.truncate (portalMaxLabelLen - 1) ≠ w)
    (users : CStr → Option AuthAccount) :
    names.foldl (loadedUsers dir) users w =
      if w ∈ names then applyFile dir w (users w) else users w := by
  induction names generalizing users with
  | nil => rfl
  | cons n names ih =>
    rw [foldl_cons, ih (fun m hm => hcut m (mem_cons_of_mem n hm)), loadedUsers]
    by_cases hn : n.bytes.length < portalMaxLabelLen
    · rw [if_pos hn]
      by_cases heq : w = n
      · subst heq
        simp only [Function.update_self, mem_cons_self, if_true]
        split
        · exact applyFile_idem dir w _
        · rfl
      · simp [heq]
    · have hne : w ≠ n := by
        rintro rfl
        exact hn hw
      rw [if_neg hn]
      simp [Function.update_of_ne (Ne.symm (hcut n mem_cons_self hn)), hne]

/-! ### What is seeded -/

theorem head_generateToken (raw : Vector UInt8 32) :
    ∃ n < 16, (generateToken (some raw)).bytes.head? = some (hexDigit n) := by
  have hdigit : ∀ n < 16, hexDigit n ≠ 0 := by decide
  obtain ⟨b, bs, hraw⟩ : ∃ b bs, raw.toList = b :: bs :=
    exists_cons_of_length_pos (by rw [Vector.length_toList]; decide)
  have hlt : b.toNat / 16 < 16 := Nat.div_lt_of_lt_mul b.toNat_lt
  refine ⟨b.toNat / 16, hlt, ?_⟩
  simp only [generateToken, hraw, flatMap_cons, CStr.ofBytes, cText, cons_append]
  rw [takeWhile_cons_of_pos (by simpa using hdigit _ hlt)]
  rfl

theorem generateToken_eq_nil {raw : Option (Vector UInt8 32)} :
    (generateToken raw).bytes = [] ↔ raw = none := by
  cases raw with
  | none => exact iff_of_true (by decide) rfl
  | some raw =>
    obtain ⟨n, -, hn⟩ := head_generateToken raw
    refine iff_of_false (fun hnil => ?_) (some_ne_none raw)
    rw [hnil] at hn
    cases hn

theorem findAccount_init (raw : Option (Vector UInt8 32)) (w : CStr) :
    findAccount (portalAuthInit raw) w =
      if raw ≠ none ∧ w = portalRootUser then
        some (newAccount portalRootUser (generateToken raw) rootLabels)
      else none := by
  rw [portalAuthInit]
  by_cases hraw : raw = none
  · rw [if_pos (generateToken_eq_nil.mpr hraw), if_neg fun h => h.1 hraw]
    rfl
  · rw [if_neg (mt generateToken_eq_nil.mp hraw), findAccount_addUser (by decide) (by decide)]
    simp only [ne_eq, hraw, not_false_eq_true, true_and]
    rfl

theorem length_init_le (raw : Option (Vector UInt8 32)) :
    (portalAuthInit raw).accounts.length ≤ 1 := by
  rw [portalAuthInit]
  split
  · exact Nat.zero_le _
  · exact length_addUser_le ..

end Records

end Portal
