import TokenKeeper.Config.Basic
import TokenKeeper.Toml.Field
import TokenKeeper.Toml.Reader

/-!
# Configurations in TOML

The table `oauth` describes the client and must at least name its registration; the table `store`
may be left out. Keys that mean nothing are passed over, and so are keys for the secrets themselves.
-/
namespace TokenKeeper

open Toml.Value (string? boolean? natural? orDefault required)

namespace ClientConfig

def modes : List (String × RefreshMode) :=
  [("independent", .independent), ("single_flight", .singleFlight)]

def policies : List (String × PersistPolicy) :=
  [("best_effort", .bestEffort), ("strict", .strict)]

def fieldNames : List String :=
  ["client_id", "client_secret_file", "default_caller_key", "token_endpoint", "api_host",
    "timeout_secs", "refresh_skew_secs", "refresh_mode", "persist_policy"]

def ofToml? (v : Toml.Value) : Option ClientConfig := do
  match ← v.record? fieldNames with
  | [id, secretFile, callerKey, endpoint, host, timeout, skew, mode, policy] =>
    let clientId ← required string? id
    let clientSecretFile ← orDefault (fun v => (string? v).map some) none secretFile
    let defaultCallerKey ← orDefault string? "default" callerKey
    let tokenEndpoint ← orDefault string? defaultEndpoint endpoint
    let apiHost ← orDefault string? defaultApiHost host
    let timeout ← orDefault natural? defaultTimeout timeout
    let refreshSkew ← orDefault natural? Config.defaultRefreshSkew skew
    let refreshMode ← orDefault (Toml.Value.choice? modes) .independent mode
    let persistPolicy ← orDefault (Toml.Value.choice? policies) .bestEffort policy
    return { clientId, clientSecret := none, clientSecretFile, defaultCallerKey, tokenEndpoint,
             apiHost, timeout, refreshSkew, refreshMode, persistPolicy }
  | _ => none

end ClientConfig

namespace StoreConfig

def backends : List (String × Backend) :=
  [("memory", .memory), ("file", .file), ("sqlite", .sqlite)]

def fieldNames : List String := ["backend", "path", "collection", "encrypted", "key_file"]

def ofToml? (v : Toml.Value) : Option StoreConfig := do
  match ← v.record? fieldNames with
  | [backend, path, collection, encrypted, keyFile] =>
    let backend ← orDefault (Toml.Value.choice? backends) default.backend backend
    let path ← orDefault (fun v => (string? v).map some) none path
    let collection ← orDefault string? default.collection collection
    let encrypted ← orDefault boolean? false encrypted
    let keyFile ← orDefault (fun v => (string? v).map some) none keyFile
    return { backend, path, collection, encrypted, keyFile, key := none }
  | _ => none

end StoreConfig

def Config.ofText? (text : String) : Option Config := do
  let root ← Toml.read? text
  let client ← required ClientConfig.ofToml? (root.get? "oauth")
  let store ← orDefault StoreConfig.ofToml? .default (root.get? "store")
  return { client, store }

end TokenKeeper
