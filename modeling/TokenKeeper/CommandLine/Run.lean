import TokenKeeper.CommandLine.Basic
import TokenKeeper.Config.Load
import TokenKeeper.Config.Opening

/-!
# Running a command

A run loads the configuration, opens its store, and carries out its command. It ends with one
notice, or with a failure that names what could not be done.
-/
namespace TokenKeeper

inductive Notice
  | loggedIn (callerKey : String) (granted : Granted)
  | live (callerKey : String) (expiresAt : Instant) (secondsLeft : Int) (registered : Bool)
  | noTokens (callerKey : String)
  | header (token : String)

namespace Notice

def liveText (callerKey : String) (expiresAt : Instant) (secondsLeft : String)
    (registered : Bool) : String :=
  let kept := if registered then "stored" else "default"
  s!"{callerKey}: live, expires_at={Timestamp.offsetText expiresAt} "
    ++ s!"({secondsLeft}s left), client_credentials={kept}"

def text : Notice → String
  | .loggedIn callerKey granted =>
    let persisted := if granted.persisted then "true" else "false"
    s!"logged in {callerKey} (expires_at={Timestamp.offsetText granted.expiresAt}, "
      ++ s!"persisted={persisted})"
  | .live callerKey expiresAt secondsLeft registered =>
    liveText callerKey expiresAt (String.ofList (Text.intChars secondsLeft)) registered
  | .noTokens callerKey => s!"{callerKey}: no live tokens"
  | .header token => s!"Authorization: Bearer {token}"

end Notice

inductive RunFailure
  | config (path : String) (failure : ConfigFailure)
  | opening (failure : OpenFailure)
  | login (failure : Failure)
  | status (failure : Failure)
  | header (callerKey : String) (failure : Failure)

def RunFailure.message : RunFailure → String
  | .config path _ => s!"failed to load config from {path}"
  | .opening failure => failure.message
  | .login _ => "login failed"
  | .status _ => "failed to read token store"
  | .header callerKey _ => s!"no usable access token for {callerKey}"

namespace Command

def secondsBetween (now expiresAt : Instant) : Int :=
  (expiresAt.total - now.total).tdiv nanosPerSecond

def logIn (c : Config) (store : TokenStore) (callerKey username password : String) :
    Program Notice := do
  let credentials := { c.defaultCredentials with callerKey }
  return .loggedIn callerKey (← (c.buildClient store).login username password credentials)

def tellStatus (store : TokenStore) (callerKey : String) : Program Notice := do
  match ← (store.load callerKey).attempt with
  | .ok entry =>
    let now ← Program.perform .now
    return .live callerKey entry.expiresAt (secondsBetween now entry.expiresAt)
      entry.credentials.isSome
  | .error e => if e.isNotFound then return .noTokens callerKey else .fail e

def giveHeader (c : Config) (store : TokenStore) (callerKey : String) : Program Notice := do
  return .header (← (c.buildClient store).accessToken callerKey)

def program (c : Config) (store : TokenStore) : Command → Program Notice
  | .login callerKey username password => logIn c store callerKey username password
  | .status callerKey => tellStatus store callerKey
  | .header callerKey => giveHeader c store callerKey

def failed (failure : Failure) : Command → RunFailure
  | .login .. => .login failure
  | .status _ => .status failure
  | .header callerKey => .header callerKey failure

end Command

def Invocation.run (env : Environment) (i : Invocation) (w : World) :
    Except RunFailure Notice × World :=
  match Config.load env w.disk i.config with
  | .error e => (.error (.config i.config e), w)
  | .ok c =>
    match c.store.openStore w with
    | .error e => (.error (.opening e), w)
    | .ok (store, w) =>
      let (result, w) := (i.command.program c store).run World.perform w
      (result.mapError fun e => i.command.failed e, c.store.close w)

end TokenKeeper
