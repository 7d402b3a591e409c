import TokenKeeper.Store.Documents

/-!
# Entries as sealed documents

The pair and the registration are written as JSON, encrypted, and stored in base64 beside the caller
key and the expiry, which stay readable so that an expired document is known without its key. A save
without credentials opens the document stored before and seals its credentials again; a document
that cannot be opened has none.
-/
namespace TokenKeeper

structure Payload where
  tokens : Tokens
  credentials : Option Credentials
  deriving DecidableEq

namespace Payload

def json (p : Payload) : Json :=
  .obj (("tokens", p.tokens.json) ::
    match p.credentials with
    | some c => [("credentials", c.json)]
    | none => [])

def bytes (p : Payload) : Bytes := Utf8.encode p.json.compact

def credentials? : Option Json.Spelling → Option (Option Credentials)
  | none => some none
  | some .null => some none
  | some s => (Credentials.ofSpelling? s).map some

def ofSpelling? (s : Json.Spelling) : Option Payload := do
  match ← s.record? ["tokens", "credentials"] with
  | [tokens, credentials] =>
    let tokens ← Json.Spelling.required Tokens.ofSpelling? tokens
    let credentials ← credentials? credentials
    return ⟨tokens, credentials⟩
  | _ => none

def ofBytes? (bytes : Bytes) : Option Payload :=
  (Json.Spelling.ofBytes? bytes).bind ofSpelling?

end Payload

def dataField : String := "data"

structure SealedDocument where
  data : String
  expiresAt : Instant

namespace SealedDocument

def ofDocument? (doc : Document) : Option SealedDocument := do
  let _ ← textFieldOrEmpty? doc "caller_key"
  let data ← textField? doc dataField
  let expiresAt ← expiryOf? doc
  return ⟨data, expiresAt⟩

def payload (key : CipherKey) (data : String) : Except Failure Payload :=
  match Base64.decode data with
  | .error fault => .error (.dataEncoding fault)
  | .ok blob =>
    match key.decrypt blob with
    | .error e => .error e
    | .ok bytes =>
      match Payload.ofBytes? bytes with
      | some p => .ok p
      | none => .error .payload

def dataOf (key : CipherKey) (nonce : Nonce) (bytes : Bytes) : String :=
  Base64.encode (key.encrypt nonce bytes)

def fields (key : CipherKey) (nonce : Nonce) (callerKey : String) (p : Payload)
    (expiresAt : Instant) : Document :=
  Dict.ofList [("caller_key", .str callerKey), (dataField, .str (dataOf key nonce p.bytes)),
    (expiryField, .str (Timestamp.text expiresAt))]

def credentials? (key : CipherKey) (doc : Document) : Option Credentials :=
  match ofDocument? doc with
  | none => none
  | some d =>
    match payload key d.data with
    | .ok p => p.credentials
    | .error _ => none

end SealedDocument

namespace TokenStore

def credentialsToSeal (key : CipherKey) (callerKey : String) (given : Option Credentials) :
    Program (Option Credentials) := do
  match Credentials.given given with
  | some c => return some c
  | none =>
    match ← Program.ofExcept (← Program.perform (.find callerKey)) with
    | some doc => return SealedDocument.credentials? key doc
    | none => return none

def sealedDocuments (key : CipherKey) : TokenStore where
  load callerKey := do
    let doc ← findStored callerKey
    match SealedDocument.ofDocument? doc with
    | none => .fail (.sealedDocument callerKey)
    | some d =>
      if d.expiresAt.before (← Program.perform .now) then purge callerKey doc
      else
        let p ← Program.ofExcept (SealedDocument.payload key d.data)
        return ⟨p.tokens, p.credentials, d.expiresAt⟩
  save callerKey tokens given expiresAt := do
    let credentials ← credentialsToSeal key callerKey given
    let nonce ← Program.perform .nonce
    let fields := SealedDocument.fields key nonce callerKey ⟨tokens, credentials⟩ expiresAt
    Program.ofExcept (← Program.perform (.upsert callerKey fields))

end TokenStore
end TokenKeeper
