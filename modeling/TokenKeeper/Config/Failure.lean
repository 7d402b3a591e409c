import TokenKeeper.Config.Basic

/-!
# What can be wrong with a configuration

`ConfigFailure` has one constructor for each cause that keeps a configuration from being loaded. Its
message starts with the words of its kind.
-/
namespace TokenKeeper

inductive ConfigFailure
  | unreadable
  | malformed
  | blankClientId
  | emptyCallerKey
  | endpoint (endpoint : String)
  | apiHost (host : String)
  | noTimeout
  | encryptedMemory
  | noPath (backend : Backend)
  | emptyCollection
  | secretFile (path : String)
  | noKey
  | badKey (failure : Failure)
  deriving DecidableEq

namespace ConfigFailure

inductive Kind
  | setting | reading | syntaxError
  deriving DecidableEq, Repr

def Kind.opening : Kind → String
  | .setting => "configuration error: "
  | .reading => "I/O error: "
  | .syntaxError => "TOML parse error: "

def kind : ConfigFailure → Kind
  | .unreadable => .reading
  | .malformed => .syntaxError
  | _ => .setting

def reason : ConfigFailure → String
  | .unreadable | .malformed => detail
  | .blankClientId => "oauth.client_id must not be empty"
  | .emptyCallerKey => "oauth.default_caller_key must not be empty"
  | .endpoint e => s!"token_endpoint must start with http:// or https://, got: {e}"
  | .apiHost h => s!"api_host must be a bare host name, got: {h}"
  | .noTimeout => "timeout_secs must be greater than 0"
  | .encryptedMemory => "store.encrypted applies to the file and sqlite back ends only"
  | .noPath backend => s!"store.path is required for the {backend.name} back end"
  | .emptyCollection => "store.collection must not be empty"
  | .secretFile path => s!"failed to read {path}: {detail}"
  | .noKey => s!"store.encrypted requires {Config.keyVariable} or store.key_file"
  | .badKey failure => s!"invalid token key: {failure.message}"

def Kind.message (kind : Kind) (reason : String) : String := kind.opening ++ reason

def message (f : ConfigFailure) : String := f.kind.message f.reason

end ConfigFailure
end TokenKeeper
