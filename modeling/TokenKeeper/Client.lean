import TokenKeeper.Store.Basic

/-!
# The client

The client logs callers in, refreshes their pairs and hands out live access tokens. Every pair it is
granted goes to its token store; `PersistPolicy` says what a failure of the store means. An access
token whose expiry is not more than the skew ahead is refreshed first, under the registration stored
for the caller if it is complete, and else under the default one.

With `RefreshMode.independent` each caller of `accessToken` refreshes on its own. With
`RefreshMode.singleFlight` one at a time does, for each caller key; whoever had to wait looks into
the store again, and finds the new pair there.
-/
namespace TokenKeeper

inductive RefreshMode
  | independent | singleFlight
  deriving DecidableEq, Repr

inductive PersistPolicy
  | bestEffort | strict
  deriving DecidableEq, Repr

def defaultEndpoint : String :=
  "https://auth.mangadex.org/realms/mangadex/protocol/openid-connect/token"

def defaultApiHost : String := "api.mangadex.org"

def defaultTimeout : Nat := 30

structure Granted where
  tokens : Tokens
  expiresAt : Instant
  persisted : Bool
  deriving DecidableEq

structure Client where
  defaults : Credentials
  store : Option TokenStore
  endpoint : String
  apiHost : String
  defaultCallerKey : String
  skew : Span
  mode : RefreshMode
  policy : PersistPolicy

namespace Client

def new (defaults : Credentials) : Client where
  defaults := defaults
  store := none
  endpoint := defaultEndpoint
  apiHost := defaultApiHost
  defaultCallerKey := defaults.callerKey
  skew := .zero
  mode := .independent
  policy := .bestEffort

def resolve (client : Client) (stored : Option Credentials) : Credentials :=
  match stored with
  | some c => if c.isComplete then c else client.defaults
  | none => client.defaults

/-- Whether a pair expires within the skew. A skew that is no shift takes in everything, and so does
a horizon past the last instant. -/
def needsRefresh (client : Client) (now expiresAt : Instant) : Bool :=
  match (Shift.ofSpan? client.skew).bind now.shift? with
  | some horizon => !horizon.before expiresAt
  | none => true

def usable (key accessToken : String) : Program String :=
  if accessToken = "" then .fail (.emptyAccessToken key) else .done accessToken

def request (grant : GrantKind) (form : Form) : Program Tokens := do
  let result := (← Program.perform (.post form)).tokens grant
  Program.perform (.count (.request grant (.ofResult result)))
  Program.ofExcept result

def persist (client : Client) (grant : GrantKind) (key : String) (tokens : Tokens)
    (credentials : Option Credentials) : Program Granted := do
  let expiresAt ← Program.ofExcept (tokens.expiresAt? (← Program.perform .now))
  match client.store with
  | none => return ⟨tokens, expiresAt, false⟩
  | some store =>
    match ← (store.save key tokens credentials expiresAt).attempt with
    | .ok () => return ⟨tokens, expiresAt, true⟩
    | .error e =>
      Program.perform (.count (.persistFailure grant))
      match client.policy with
      | .strict => .fail e
      | .bestEffort => return ⟨tokens, expiresAt, false⟩

def login (client : Client) (username password : String) (credentials : Credentials) :
    Program Granted := do
  if credentials.callerKey = "" then .fail .emptyCallerKey
  else
    let tokens ← request .password (passwordForm username password credentials)
    client.persist .password credentials.callerKey tokens (some credentials)

def refresh (client : Client) (key : String) (tokens : Tokens) (credentials : Credentials) :
    Program Granted := do
  let tokens ← request .refresh (refreshForm tokens.refreshToken credentials)
  client.persist .refresh key tokens none

def loadEntry (client : Client) (key : String) : Program StoredEntry :=
  match client.store with
  | some store => store.load key
  | none => .fail (.noStore key)

def refreshEntry (client : Client) (key : String) (entry : StoredEntry) : Program Tokens := do
  return (← client.refresh key entry.tokens (client.resolve entry.credentials)).tokens

def isDue (client : Client) (entry : StoredEntry) : Program Bool := do
  return client.needsRefresh (← Program.perform .now) entry.expiresAt

def refreshAgain (client : Client) (key : String) : Program String := do
  let entry ← client.loadEntry key
  if ← client.isDue entry then usable key (← client.refreshEntry key entry).accessToken
  else usable key entry.tokens.accessToken

/-- Runs a program under the lock of a key. However it ends, the lock is released, retired and
forgotten. -/
def withSlot {α : Type} (key : String) (body : Program α) : Program α := do
  let slot ← Program.perform (.checkout key)
  Program.perform (.acquire slot)
  let result ← body.attempt
  Program.perform (.release slot)
  Program.perform (.retire slot)
  Program.perform (.forget slot)
  Program.ofExcept result

def accessToken (client : Client) (key : String) : Program String := do
  let entry ← client.loadEntry key
  if ← client.isDue entry then
    match client.mode with
    | .independent => usable key (← client.refreshEntry key entry).accessToken
    | .singleFlight => withSlot key (client.refreshAgain key)
  else usable key entry.tokens.accessToken

end Client
end TokenKeeper
