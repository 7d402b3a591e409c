import TokenKeeper.Failure
import TokenKeeper.Json.Printer
import TokenKeeper.Json.Record
import TokenKeeper.Time.Instant

/-!
# Credentials, token pairs and stored entries

`Credentials` is the registration of a client on behalf of a caller. It is complete when both id and
secret are there, and blank when neither is. `Tokens` is a pair as the token endpoint hands it out,
with the seconds it will live. `StoredEntry` is what a token store holds for a caller key; it is
live up to and including its expiry, which lies `expiryMargin` seconds before the end that the
endpoint announced.
-/
namespace TokenKeeper

structure Credentials where
  callerKey : String
  clientId : String
  clientSecret : String
  deriving DecidableEq, Repr, Inhabited

structure Tokens where
  accessToken : String
  refreshToken : String
  expiresIn : Int64
  deriving DecidableEq, Inhabited

structure StoredEntry where
  tokens : Tokens
  credentials : Option Credentials
  expiresAt : Instant
  deriving DecidableEq

def expiryMargin : Int := 30

namespace Credentials

def isComplete (c : Credentials) : Bool := c.clientId != "" && c.clientSecret != ""

def isBlank (c : Credentials) : Bool := c.clientId == "" && c.clientSecret == ""

def given (c : Option Credentials) : Option Credentials := c.filter fun c => !c.isBlank

def json (c : Credentials) : Json :=
  .obj [("caller_key", .str c.callerKey), ("client_id", .str c.clientId),
    ("client_secret", .str c.clientSecret)]

def ofSpelling? (s : Json.Spelling) : Option Credentials := do
  match ← s.record? ["caller_key", "client_id", "client_secret"] with
  | [key, id, secret] =>
    let key ← Json.Spelling.orDefault Json.Spelling.string? "" key
    let id ← Json.Spelling.orDefault Json.Spelling.string? "" id
    let secret ← Json.Spelling.orDefault Json.Spelling.string? "" secret
    return ⟨key, id, secret⟩
  | _ => none

def ofBytes? (bytes : Bytes) : Option Credentials :=
  (Json.Spelling.ofBytes? bytes).bind ofSpelling?

end Credentials

namespace Tokens

def json (t : Tokens) : Json :=
  .obj ([("access_token", .str t.accessToken), ("refresh_token", .str t.refreshToken)]
    ++ if t.expiresIn = 0 then [] else [("expires_in", .int t.expiresIn.toInt)])

def ofSpelling? (s : Json.Spelling) : Option Tokens := do
  match ← s.record? ["access_token", "refresh_token", "expires_in"] with
  | [access, refresh, lifetime] =>
    let access ← Json.Spelling.required Json.Spelling.string? access
    let refresh ← Json.Spelling.required Json.Spelling.string? refresh
    let lifetime ← Json.Spelling.orDefault Json.Spelling.int64? 0 lifetime
    return ⟨access, refresh, lifetime⟩
  | _ => none

def ofBytes? (bytes : Bytes) : Option Tokens :=
  (Json.Spelling.ofBytes? bytes).bind ofSpelling?

def usableFor? (t : Tokens) : Option Int64 :=
  let left := t.expiresIn.toInt - expiryMargin
  if Int64.minValue.toInt ≤ left ∧ left ≤ Int64.maxValue.toInt then some (.ofInt left) else none

def expiry? (t : Tokens) (now : Instant) : Option Instant := do
  let left ← t.usableFor?
  let shift ← Shift.ofSeconds? left
  now.shift? shift

def expiresAt? (t : Tokens) (now : Instant) : Except Failure Instant :=
  match t.expiry? now with
  | some expiry => .ok expiry
  | none => .error (.lifetime t.expiresIn.toInt)

end Tokens

def StoredEntry.isExpiredAt (e : StoredEntry) (now : Instant) : Bool := e.expiresAt.before now

end TokenKeeper
