import TokenKeeper.Config.Failure
import TokenKeeper.Config.Reader
import TokenKeeper.Secret.Sources

/-!
# Loading a configuration

A configuration is read from its file, its settings are checked in order, and then its secrets are
looked up: the client secret, which may be missing, and for an encrypted store its key, which must
be there and be a key.
-/
namespace TokenKeeper.Config

def isEndpoint (text : String) : Bool :=
  "http://".toList.isPrefixOf text.toList || "https://".toList.isPrefixOf text.toList

def isBareHost (text : String) : Bool := text ≠ "" && !text.toList.contains '/'

def clientFault? (c : ClientConfig) : Option ConfigFailure :=
  if Text.isBlankText c.clientId then some .blankClientId
  else if c.defaultCallerKey = "" then some .emptyCallerKey
  else if !isEndpoint c.tokenEndpoint then some (.endpoint c.tokenEndpoint)
  else if !isBareHost c.apiHost then some (.apiHost c.apiHost)
  else if c.timeout = 0 then some .noTimeout
  else none

def storeFault? (s : StoreConfig) : Option ConfigFailure :=
  if s.backend = .memory ∧ s.encrypted then some .encryptedMemory
  else if s.backend ≠ .memory ∧ s.path.isNone then some (.noPath s.backend)
  else if s.collection = "" then some .emptyCollection
  else none

def fault? (c : Config) : Option ConfigFailure :=
  (clientFault? c.client).orElse fun _ => storeFault? c.store

def read (disk : Disk) (path : String) : Except ConfigFailure Config :=
  match disk.readText? path with
  | none => .error .unreadable
  | some text =>
    match ofText? text with
    | none => .error .malformed
    | some c =>
      match c.fault? with
      | some fault => .error fault
      | none => .ok c

def resolveKey (env : Environment) (disk : Disk) (s : StoreConfig) :
    Except ConfigFailure (Option Secret) := do
  if !s.encrypted then return none
  match ← Secret.resolve env disk keyVariable s.keyFile with
  | none => throw .noKey
  | some key =>
    match CipherKey.ofText key.text with
    | .ok _ => return some key
    | .error e => throw (.badKey e)

def load (env : Environment) (disk : Disk) (path : String) : Except ConfigFailure Config := do
  let c ← read disk path
  let clientSecret ← Secret.resolve env disk clientSecretVariable c.client.clientSecretFile
  let key ← resolveKey env disk c.store
  return { client := { c.client with clientSecret }, store := { c.store with key } }

end TokenKeeper.Config
