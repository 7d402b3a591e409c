import TokenKeeper.Cipher.Blob
import TokenKeeper.Config.Basic
import TokenKeeper.Credential
import TokenKeeper.Text.Quoted
import TokenKeeper.Time.Timestamp

/-!
# Values as they are shown in logs

A record is shown with its name and its fields, a text between quotes. Secrets, tokens and keys are
never shown: `redacted` stands in their place, whatever they are.
-/
namespace TokenKeeper.Shown

open Text (quoted quotedPath)

def redacted : String := "[REDACTED]"

def commas : List String → String
  | [] => ""
  | [x] => x
  | x :: rest => x ++ ", " ++ commas rest

def record (name : String) (fields : List (String × String)) : String :=
  name ++ " \x7b " ++ commas (fields.map fun (field, value) => field ++ ": " ++ value) ++ " \x7d"

def optional {α : Type} (text : α → String) : Option α → String
  | none => "None"
  | some x => "Some(" ++ text x ++ ")"

def credentials (c : Credentials) : String :=
  record "OAuthCredentials" [("caller_key", quoted c.callerKey), ("client_id", quoted c.clientId),
    ("client_secret", quoted redacted)]

def tokens (t : Tokens) : String :=
  record "OAuthTokens" [("access_token", quoted redacted), ("refresh_token", quoted redacted),
    ("expires_in", String.ofList (Text.intChars t.expiresIn.toInt))]

def entry (e : StoredEntry) : String :=
  record "StoredEntry" [("tokens", tokens e.tokens),
    ("credentials", optional credentials e.credentials), ("expires_at", Timestamp.text e.expiresAt)]

def cipher (_ : CipherKey) : String :=
  record "AesGcmCipher" [("algorithm", quoted "AES-256-GCM"), ("key", quoted redacted)]

def decorator (callerKey apiHost : String) : String :=
  record "AuthDecorator" [("caller_key", quoted callerKey), ("api_host", quoted apiHost)]

def mode : RefreshMode → String
  | .independent => "Independent"
  | .singleFlight => "SingleFlight"

def policy : PersistPolicy → String
  | .bestEffort => "BestEffort"
  | .strict => "Strict"

def number (n : Nat) : String := String.ofList (Text.natChars n)

def flag (b : Bool) : String := if b then "true" else "false"

def secret (_ : Secret) : String := redacted

def clientConfig (c : ClientConfig) : String :=
  record "OAuthConfig" [("client_id", quoted c.clientId),
    ("client_secret", optional secret c.clientSecret),
    ("client_secret_file", optional quotedPath c.clientSecretFile),
    ("default_caller_key", quoted c.defaultCallerKey), ("token_endpoint", quoted c.tokenEndpoint),
    ("api_host", quoted c.apiHost), ("timeout_secs", number c.timeout),
    ("refresh_skew_secs", number c.refreshSkew), ("refresh_mode", mode c.refreshMode),
    ("persist_policy", policy c.persistPolicy)]

def storeConfig (s : StoreConfig) : String :=
  record "StoreConfig" [("backend", s.backend.name), ("path", optional quotedPath s.path),
    ("collection", quoted s.collection), ("encrypted", flag s.encrypted),
    ("key_file", optional quotedPath s.keyFile), ("key", optional secret s.key)]

def config (c : Config) : String :=
  record "Config" [("oauth", clientConfig c.client), ("store", storeConfig c.store)]

def kindName : Failure.Kind → String
  | .invalidArgument => "InvalidArgument"
  | .notFound => "NotFound"
  | .transport => "Transport"
  | .rejected => "AuthRequestFailed"
  | .decode => "Decode"
  | .missingAccessToken => "MissingAccessToken"
  | .invalidCiphertext => "InvalidCiphertext"
  | .authentication => "AuthenticationFailure"
  | .store => "Store"
  | .serialization => "Serialization"

def failure (kind : Failure.Kind) (reason : String) : String :=
  match kind with
  | .authentication => kindName kind
  | kind => kindName kind ++ "(" ++ quoted reason ++ ")"

theorem credentials_secret_irrelevant (c : Credentials) (secret : String) :
    credentials { c with clientSecret := secret } = credentials c := rfl

theorem tokens_irrelevant (t : Tokens) (access refresh : String) :
    tokens { t with accessToken := access, refreshToken := refresh } = tokens t := rfl

end TokenKeeper.Shown
