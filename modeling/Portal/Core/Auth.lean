import Portal.Core.Message

/-!
The lookups of `src/core/core_auth.c` that turn a credential into a user. The time is the argument
`now`, in seconds.
-/

namespace Portal

/-- `auth_user_t`, without the password: no credential lookup reads it. -/
structure AuthUser where
  username : CStr
  apiKey : CStr
  labels : PortalLabels
deriving DecidableEq

/-- `auth_session_t`, without its creation time. -/
structure AuthSession where
  token : CStr
  username : CStr
  expiresAt : UInt64
  active : Bool
deriving DecidableEq

structure PortalAuthRegistry where
  users : List AuthUser
  sessions : List AuthSession
deriving DecidableEq

def portalAuthFindUser (auth : PortalAuthRegistry) (username : CStr) : Option AuthUser :=
  auth.users.find? fun u => u.username = username

def portalAuthFindByKey (auth : PortalAuthRegistry) (apiKey : CharPtr) : Option AuthUser :=
  match apiKey.map CStr.ofBytes with
  | none => none
  | some key =>
    if key.bytes = [] then none
    else auth.users.find? fun u => u.apiKey.bytes ≠ [] && u.apiKey = key

/-- An expired session is closed on the way. -/
def portalAuthResolveToken (auth : PortalAuthRegistry) (now : UInt64) (token : CharPtr) :
    Option AuthUser × PortalAuthRegistry :=
  match token.map CStr.ofBytes with
  | none => (none, auth)
  | some tok =>
    if tok.bytes = [] then (none, auth)
    else
      match auth.sessions.findIdx? fun s => s.active && s.token = tok with
      | none => (none, auth)
      | some i =>
        match auth.sessions[i]? with
        | none => (none, auth)
        | some s =>
          if 0 < s.expiresAt && s.expiresAt < now then
            (none, { auth with
              sessions := auth.sessions.modify i fun s => { s with active := false } })
          else (portalAuthFindUser auth s.username, auth)

/-- The credential is a live session token or an API key of `u`. -/
def Resolves (auth : PortalAuthRegistry) (now : UInt64) (credential : CharPtr) (u : AuthUser) :
    Prop :=
  (portalAuthResolveToken auth now credential).1 = some u ∨
    portalAuthFindByKey auth credential = some u

end Portal
