import Portal.Core.Session

/-!
Changes to the user table (`portal_auth_add_user`, `portal_auth_rotate_key` of
`src/core/core_auth.c`), the file store of `src/core/core_store.c` and the storage providers of
`src/core/core_storage.c`. The path of a file is taken to fit its buffer. What is handed to the
providers is recorded in order.
-/

namespace Portal

open List

def authMaxUsers : Nat := 128

/-! ### Changing an entry -/

def AuthAccount.setPassword (u : AuthAccount) (password : CStr) : AuthAccount :=
  { u with
    password := password.truncate 255
    password_short := password.length_truncate_lt (n := 256) (by decide) }

def AuthAccount.setLabels (u : AuthAccount) (labels : PortalLabels) : AuthAccount :=
  { u with labels := labels }

/-- What `generate_token` can leave in an `api_key` field. -/
structure GeneratedKey where
  key : CStr
  short : key.bytes.length ≤ authKeyLen

def AuthAccount.setApiKey (u : AuthAccount) (k : GeneratedKey) : AuthAccount :=
  { u with
    apiKey := k.key
    apiKey_short := k.short }

/-- A write through the pointer that `portal_auth_find_user` returns. -/
def AuthDb.modifyUser (db : AuthDb) (username : CStr) (f : AuthAccount → AuthAccount) : AuthDb :=
  match db.accounts.findIdx? fun u => u.username = username with
  | none => db
  | some i => { db with accounts := db.accounts.modify i f }

/-- The entry that `portal_auth_add_user` appends, in a slot that was zeroed. -/
def newAccount (username password : CStr) (labels : PortalLabels) : AuthAccount where
  username := username.truncate (portalMaxLabelLen - 1)
  apiKey := .lit ""
  labels := labels
  password := password.truncate 255
  username_short := username.length_truncate_lt (by decide)
  password_short := password.length_truncate_lt (n := 256) (by decide)
  apiKey_short := Nat.zero_le _

def portalAuthAddUser (db : AuthDb) (username password : CStr) (labels : PortalLabels) :
    AuthDb × Int :=
  if authMaxUsers ≤ db.accounts.length then (db, -1)
  else
    match findAccount db username with
    | some _ =>
      (db.modifyUser username fun u =>
        let u := if password.bytes = [] then u else u.setPassword password
        if labels.count = 0 then u else u.setLabels labels, 0)
    | none => ({ db with accounts := db.accounts ++ [newAccount username password labels] }, 0)

def portalAuthRotateKey (db : AuthDb) (username : CStr) (k : GeneratedKey) : AuthDb × Int :=
  match findAccount db username with
  | none => (db, -1)
  | some _ => (db.modifyUser username fun u => u.setApiKey k, 0)

/-- `portal_auth_resolve_token`, on the whole registry. -/
def AuthDb.resolveToken (db : AuthDb) (now : UInt64) (token : CharPtr) : Option AuthUser × AuthDb :=
  let r := portalAuthResolveToken db.registry now token
  (r.1, { db with sessions := r.2.sessions })

/-! ### Files and providers -/

def CStr.join (sep : CStr) : List CStr → CStr
  | [] => .lit ""
  | [s] => s
  | s :: rest => s.append (sep.append (CStr.join sep rest))

structure StoredUser where
  username : CStr
  password : CStr
  apiKey : CStr
  groups : CStr
deriving DecidableEq

def AuthAccount.stored (u : AuthAccount) : StoredUser :=
  ⟨u.username, u.password, u.apiKey, .join (.lit ",") u.labels.labels⟩

/-- `portal_store_t`: the files of `users` and `groups`, by name. -/
structure PortalStore where
  users : CStr → Option StoredUser
  groups : CStr → Option (CStr → Option CStr)

def PortalStore.writeGroup (store : PortalStore) (name key value : CStr) : PortalStore :=
  { store with
    groups := Function.update store.groups name
      (some (Function.update ((store.groups name).getD fun _ => none) key (some value))) }

/-- `portal_storage_provider_t`, as far as the core calls it. A member that may be NULL is
optional. -/
structure StorageProvider where
  name : CStr
  userSave : Option (StoredUser → Int)
  configSet : Bool
  configGet : CStr → CStr → Option CStr
  status : Option CStr

inductive StorageWrite where
  | user (provider : CStr) (user : StoredUser)
  | config (provider module key value : CStr)
deriving DecidableEq

def StorageWrite.isConfig : StorageWrite → Bool
  | .user _ _ => false
  | .config _ _ _ _ => true

def portalStorageSaveUser (providers : List StorageProvider) (u : StoredUser) :
    List StorageWrite :=
  providers.filterMap fun p => p.userSave.map fun _ => .user p.name u

def portalStorageSaveConfig (providers : List StorageProvider) (module key value : CStr) :
    List StorageWrite :=
  providers.filterMap fun p => if p.configSet then some (.config p.name module key value) else none

def portalStorageGetConfig (providers : List StorageProvider) (module key : CStr) : Option CStr :=
  providers.findSome? fun p => p.configGet module key

def portalStorageFind (providers : List StorageProvider) (name : CStr) : Option StorageProvider :=
  providers.find? fun p => p.name = name

section Modify

variable {db : AuthDb} {username : CStr} {f : AuthAccount → AuthAccount}

theorem forall₂_modify {α : Type} {R : α → α → Prop} (hrefl : ∀ x, R x x) {f : α → α}
    {xs : List α} {i : Nat} (h : ∀ x, xs[i]? = some x → R x (f x)) :
    List.Forall₂ R xs (xs.modify i f) := by
  refine forall₂_iff_get.mpr ⟨by rw [length_modify], fun j hj _ => ?_⟩
  rw [get_eq_getElem, get_eq_getElem, getElem_modify]
  split
  · rename_i hij
    obtain rfl : i = j := hij
    exact h _ (getElem?_eq_getElem hj)
  · exact hrefl _

theorem forall₂_modifyUser {R : AuthAccount → AuthAccount → Prop} (hrefl : ∀ u, R u u)
    (h : ∀ u, findAccount db username = some u → R u (f u)) :
    List.Forall₂ R db.accounts (db.modifyUser username f).accounts := by
  unfold AuthDb.modifyUser
  cases hidx : db.accounts.findIdx? fun u => u.username = username with
  | none => exact forall₂_same.mpr fun u _ => hrefl u
  | some i =>
    apply forall₂_modify hrefl
    intro u hu
    apply h
    rw [findAccount, find?_eq_bind_findIdx?_getElem?, hidx, Option.bind_some, hu]

end Modify

end Portal
