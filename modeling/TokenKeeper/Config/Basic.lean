import TokenKeeper.Client
import TokenKeeper.Secret.Basic

/-!
# Configuration

A configuration says under which registration and with which endpoint a client works, and where it
keeps tokens. Secrets have no place in the configuration file; it may only name the files that hold
them.
-/
namespace TokenKeeper

inductive Backend
  | memory | file | sqlite
  deriving DecidableEq, Repr

def Backend.name : Backend → String
  | .memory => "Memory"
  | .file => "File"
  | .sqlite => "Sqlite"

structure ClientConfig where
  clientId : String
  clientSecret : Option Secret
  clientSecretFile : Option String
  defaultCallerKey : String
  tokenEndpoint : String
  apiHost : String
  timeout : Nat
  refreshSkew : Nat
  refreshMode : RefreshMode
  persistPolicy : PersistPolicy
  deriving DecidableEq

structure StoreConfig where
  backend : Backend
  path : Option String
  collection : String
  encrypted : Bool
  keyFile : Option String
  key : Option Secret
  deriving DecidableEq

structure Config where
  client : ClientConfig
  store : StoreConfig
  deriving DecidableEq

def StoreConfig.default : StoreConfig where
  backend := .memory
  path := none
  collection := "tokens"
  encrypted := false
  keyFile := none
  key := none

namespace Config

def clientSecretVariable : String := "MANGADEX_CLIENT_SECRET"

def keyVariable : String := "MANGADEX_TOKEN_KEY"

def defaultRefreshSkew : Nat := 60

def defaultCredentials (c : Config) : Credentials where
  callerKey := c.client.defaultCallerKey
  clientId := c.client.clientId
  clientSecret := (c.client.clientSecret.map (·.text)).getD ""

def paths (c : Config) : List String :=
  [c.client.clientSecretFile, c.store.keyFile, c.store.path].filterMap id

def buildClient (c : Config) (store : TokenStore) : Client where
  defaults := c.defaultCredentials
  store := some store
  endpoint := c.client.tokenEndpoint
  apiHost := c.client.apiHost
  defaultCallerKey := c.client.defaultCallerKey
  skew := ⟨c.client.refreshSkew, 0⟩
  mode := c.client.refreshMode
  policy := c.client.persistPolicy

end Config
end TokenKeeper
