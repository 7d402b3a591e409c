import TokenKeeper.Store.Basic
import TokenKeeper.Time.Timestamp

/-!
# Entries as plain documents

An entry is one document with the two tokens, the expiry, and the client registration if there is
one. Saving sets these fields and no others, and leaves out the registration when none is given, so
that the one stored before stays. The lifetime of the pair is not kept. A load that finds an expired
document deletes it, provided its expiry is still the one that was read.
-/
namespace TokenKeeper

def expiryField : String := "expires_at"

def textField? (doc : Document) (name : String) : Option String :=
  (Dict.get? doc name).bind Json.str?

def textFieldOrEmpty? (doc : Document) (name : String) : Option String :=
  match Dict.get? doc name with
  | none => some ""
  | some value => value.str?

def expiryOf? (doc : Document) : Option Instant :=
  (textField? doc expiryField).bind Timestamp.read?

/-- Deletes a document that has expired, unless it has been replaced, and reports the expiry. -/
def purge {α : Type} (key : String) (doc : Document) : Program α := do
  match Dict.get? doc expiryField with
  | some stored => let _ ← Program.ofExcept (← Program.perform (.deleteIf key expiryField stored))
  | none => pure ()
  .fail (.expired key)

def findStored (key : String) : Program Document := do
  match ← Program.ofExcept (← Program.perform (.find key)) with
  | some doc => return doc
  | none => .fail (.nothingStored key)

structure TokenDocument where
  accessToken : String
  refreshToken : String
  expiresAt : Instant
  clientId : String
  clientSecret : String

namespace TokenDocument

def ofDocument? (doc : Document) : Option TokenDocument := do
  let _ ← textFieldOrEmpty? doc "caller_key"
  let accessToken ← textField? doc "access_token"
  let refreshToken ← textField? doc "refresh_token"
  let expiresAt ← expiryOf? doc
  let clientId ← textFieldOrEmpty? doc "client_id"
  let clientSecret ← textFieldOrEmpty? doc "client_secret"
  return ⟨accessToken, refreshToken, expiresAt, clientId, clientSecret⟩

/-- The registration counts only with both its halves. -/
def entry (key : String) (d : TokenDocument) : StoredEntry :=
  let credentials : Credentials := ⟨key, d.clientId, d.clientSecret⟩
  ⟨⟨d.accessToken, d.refreshToken, 0⟩,
    if credentials.isComplete then some credentials else none, d.expiresAt⟩

def fields (key : String) (tokens : Tokens) (credentials : Option Credentials)
    (expiresAt : Instant) : Document :=
  let registration := match Credentials.given credentials with
    | some c => [("client_id", Json.str c.clientId), ("client_secret", Json.str c.clientSecret)]
    | none => []
  Dict.ofList ([("caller_key", Json.str key), ("access_token", Json.str tokens.accessToken),
    ("refresh_token", Json.str tokens.refreshToken),
    (expiryField, Json.str (Timestamp.text expiresAt))] ++ registration)

end TokenDocument

namespace TokenStore

def documents : TokenStore where
  load key := do
    let doc ← findStored key
    match TokenDocument.ofDocument? doc with
    | none => .fail (.tokenDocument key)
    | some d =>
      if d.expiresAt.before (← Program.perform .now) then purge key doc
      else return d.entry key
  save key tokens credentials expiresAt := do
    Program.ofExcept
      (← Program.perform (.upsert key (TokenDocument.fields key tokens credentials expiresAt)))

end TokenStore
end TokenKeeper
