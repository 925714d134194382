import Portal.Core.Message

/-!
The HTTP parser of `modules/mod_web/mod_web.c`: `parse_http_request` and `base64_decode`. It treats
the buffer as C strings although nothing terminates it, so what lies behind the bytes read is an
argument (`Leftover`), as is the memory behind the input and the table of `base64_decode`.
-/

namespace Portal.Web

/-- What lies behind the bytes read, behind the NUL of the `b64` array, and behind the table of
`base64_decode`. -/
structure Leftover where
  raw : Bytes
  b64 : Bytes
  table : UInt8 → UInt8

/-- `http_request_t`; `body_len` is the length of the body. -/
structure HttpRequest where
  method : CStr
  path : CStr
  query : CStr
  authToken : CStr
  basicUser : CStr
  basicPass : CStr
  contentType : CStr
  body : Bytes
deriving DecidableEq

/-! ### `base64_decode` -/

def base64Value (left : Leftover) (c : UInt8) : Nat :=
  if 122 < c then (left.table c).toNat
  else if 65 ≤ c ∧ c ≤ 90 then c.toNat - 65
  else if 97 ≤ c then c.toNat - 71
  else if 48 ≤ c ∧ c ≤ 57 then c.toNat + 4
  else if c = 43 then 62
  else if c = 47 then 63
  else 0

/-- The loop, for `fuel` groups of four characters: `mem` holds the `len` characters of the input
and what follows them; at most `cap` bytes are put out. -/
def base64Groups (left : Leftover) (mem : Bytes) (len cap : Nat) : Nat → Nat → Bytes → Bytes
  | 0, _, out => out
  | fuel + 1, i, out =>
    if i < len ∧ out.length < cap then
      let c := fun k => mem.getD (i + k) 0
      let d := fun k => base64Value left (c k)
      let v := d 0 <<< 18 ||| d 1 <<< 12 ||| (if i + 2 < len then d 2 <<< 6 else 0) |||
        (if i + 3 < len then d 3 else 0)
      let out := out ++ [UInt8.ofNat (v >>> 16)]
      let out := if c 2 ≠ 61 ∧ out.length < cap then out ++ [UInt8.ofNat (v >>> 8)] else out
      let out := if c 3 ≠ 61 ∧ out.length < cap then out ++ [UInt8.ofNat v] else out
      base64Groups left mem len cap fuel (i + 4) out
    else out

def base64Decode (left : Leftover) (text : CStr) (outLen : Nat) : Bytes :=
  base64Groups left (text.bytes ++ 0 :: left.b64) text.bytes.length (outLen - 1)
    text.bytes.length 0 []

/-! ### Lines and words -/

def crlf : Bytes := [13, 10]

def toLower (c : UInt8) : UInt8 := if 65 ≤ c ∧ c ≤ 90 then c + 32 else c

def headerValue (name : CStr) (line : Bytes) : Option CStr :=
  if (line.take name.bytes.length).map toLower = name.bytes.map toLower then
    some (.ofBytes (line.drop name.bytes.length))
  else none

/-- The lines from position `p` on, up to an empty one or the end of the bytes read; at most
`fuel` of them. -/
def headerLines (buf : Bytes) (rawLen : Nat) : Nat → Nat → List Bytes
  | 0, _ => []
  | fuel + 1, p =>
    if p < rawLen then
      let text := cText (buf.drop p)
      match strstr crlf text with
      | some (n + 1) => text.take (n + 1) :: headerLines buf rawLen fuel (p + (n + 1) + 2)
      | _ => []
    else []

def colon : UInt8 := 58

def decodeBasic (left : Leftover) (value : CStr) : Option (CStr × CStr) :=
  let decoded := CStr.ofBytes (base64Decode left (value.truncate 255) 256)
  (decoded.bytes.idxOf? colon).map fun i =>
    ((decoded.truncate i).truncate 63, (decoded.drop (i + 1)).truncate 127)

def headerLine (left : Leftover) (req : HttpRequest) (line : Bytes) : HttpRequest :=
  match headerValue (.lit "Authorization: Bearer ") line with
  | some value => { req with authToken := value.truncate 127 }
  | none =>
    match headerValue (.lit "Authorization: Basic ") line with
    | some value =>
      match decodeBasic left value with
      | some (user, pass) => { req with basicUser := user, basicPass := pass }
      | none => req
    | none =>
      match headerValue (.lit "Content-Type: ") line with
      | some value => { req with contentType := value.truncate 63 }
      | none => req

/-- The value of the first `api_key=` in the query. -/
def queryApiKey (query : CStr) : Option CStr :=
  (strstr (CStr.lit "api_key=").bytes query.bytes).map fun i =>
    let key := query.drop (i + 8)
    (key.truncate (key.bytes.takeWhile (· ≠ 38)).length).truncate 127

/-! ### `parse_http_request` -/

def parseHttpRequest (left : Leftover) (raw : Bytes) : Option HttpRequest := do
  let buf := raw ++ left.raw
  let ll ← strstr crlf (cText buf)
  if 2048 ≤ ll then none
  else do
    let (method, rest) ← scanWord 15 (buf.take ll)
    let (fullPath, _) ← scanWord 1023 rest
    let n := (fullPath.bytes.takeWhile (· ≠ 63)).length
    let start : HttpRequest :=
      { method
        path := fullPath.truncate n
        query := fullPath.drop (n + 1)
        authToken := .lit ""
        basicUser := .lit ""
        basicPass := .lit ""
        contentType := .lit ""
        body := (strstr (crlf ++ crlf) raw).elim [] fun i => raw.drop (i + 4) }
    let req := (headerLines buf raw.length (raw.length + 1) (ll + 2)).foldl (headerLine left) start
    if req.authToken.bytes = [] then
      some { req with authToken := (queryApiKey req.query).getD req.authToken }
    else some req

end Portal.Web
