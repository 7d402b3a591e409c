import TokenKeeper.Base64
import TokenKeeper.Grant.Kind
import TokenKeeper.Grant.Status

/-!
# What can go wrong

`Failure` has one constructor for each cause that keeps a grant, a token store or a cipher from
doing its work. Every cause is of one `Kind`, on which callers decide; `message` is its text for
people, which starts with the words of its kind. Where a layer below speaks in its own words, which
differ from one system to the next, the message has `detail` in their place.
-/
namespace TokenKeeper

def detail : String := "<detail>"

inductive CollectionOp
  | find | upsert | delete | deleteIf
  deriving DecidableEq, Repr

def CollectionOp.name : CollectionOp → String
  | .find => "find"
  | .upsert => "upsert"
  | .delete => "delete"
  | .deleteIf => "delete_if"

inductive WriteStep
  | temporary | permissions | rename
  deriving DecidableEq, Repr

inductive Failure
  | keyLength (length : Nat)
  | keyEncoding (fault : Base64.Fault)
  | emptyCallerKey
  | headerValue
  | nothingStored (key : String)
  | expired (key : String)
  | noStore (key : String)
  | absent (key : String)
  | unanswered (grant : GrantKind)
  | brokenAnswer
  | requestUnsent
  | rejected (grant : GrantKind) (status : Nat) (body : Option String)
  | notTokens (grant : GrantKind)
  | lifetime (expiresIn : Int)
  | emptyAccessToken (key : String)
  | shortBlob (length : Nat)
  | dataEncoding (fault : Base64.Fault)
  | notAuthentic
  | payload
  | fileRead
  | fileParse
  | fileParent
  | fileWrite (step : WriteStep)
  | tableCreate
  | tableRead (key : String)
  | tableUpsert (key : String)
  | tableDelete (key : String)
  | tableParse (key : String)
  | tokenDocument (key : String)
  | sealedDocument (key : String)
  | readOnly
  | injected (op : CollectionOp)
  deriving DecidableEq, Repr

namespace Failure

inductive Kind
  | invalidArgument | notFound | transport | rejected | decode | missingAccessToken
  | invalidCiphertext | authentication | store | serialization
  deriving DecidableEq, Repr

def Kind.opening : Kind → String
  | .invalidArgument => "invalid argument: "
  | .notFound => "not found: "
  | .transport => "transport error: "
  | .rejected => "token request failed: "
  | .decode => "invalid token response: "
  | .missingAccessToken => "no access token for "
  | .invalidCiphertext => "invalid ciphertext: "
  | .authentication => "ciphertext failed authentication"
  | .store => "token store error: "
  | .serialization => "serialization error: "

def Kind.message (kind : Kind) (reason : String) : String :=
  match kind with
  | .authentication => kind.opening
  | kind => kind.opening ++ reason

def kind : Failure → Kind
  | .keyLength _ | .keyEncoding _ | .emptyCallerKey | .headerValue => .invalidArgument
  | .nothingStored _ | .expired _ | .noStore _ | .absent _ => .notFound
  | .unanswered _ | .brokenAnswer | .requestUnsent => .transport
  | .rejected .. => .rejected
  | .notTokens _ | .lifetime _ => .decode
  | .emptyAccessToken _ => .missingAccessToken
  | .shortBlob _ | .dataEncoding _ => .invalidCiphertext
  | .notAuthentic => .authentication
  | .fileRead | .fileParent | .fileWrite _ | .tableCreate | .tableRead _ | .tableUpsert _
  | .tableDelete _ | .readOnly | .injected _ => .store
  | .payload | .fileParse | .tableParse _ | .tokenDocument _ | .sealedDocument _ => .serialization

def reason : Failure → String
  | .keyLength n => s!"AES-256 requires a 32-byte key, got {n} bytes"
  | .keyEncoding fault => s!"key is not valid base64: {fault.message}"
  | .emptyCallerKey => "login requires a non-empty caller key"
  | .headerValue => "access token is not a valid header value: failed to parse header value"
  | .nothingStored key => s!"no tokens stored for {key}"
  | .expired key => s!"tokens for {key} expired"
  | .noStore key => s!"no token store configured for {key}"
  | .absent key => key
  | .unanswered grant => s!"{grant.name} grant request failed: {detail}"
  | .brokenAnswer => s!"reading token response: {detail}"
  | .requestUnsent => s!"sending request: {detail}"
  | .rejected grant status body =>
    let text := body.getD "<no body>"
    s!"token endpoint returned {Status.describe status} for {grant.name} grant: {text}"
  | .notTokens grant => s!"{grant.name} grant: {detail}"
  | .lifetime n => s!"expires_in out of range: {n}"
  | .emptyAccessToken key => key
  | .shortBlob n => s!"ciphertext too short: {n} bytes, nonce alone is 12"
  | .dataEncoding fault => s!"data is not valid base64: {fault.message}"
  | .notAuthentic => ""
  | .payload => s!"decrypted token payload: {detail}"
  | .fileRead => s!"reading collection file: {detail}"
  | .fileParse => s!"parsing collection file: {detail}"
  | .fileParent => "collection path has no parent directory"
  | .fileWrite .temporary => s!"writing temp collection file: {detail}"
  | .fileWrite .permissions => s!"setting collection file permissions: {detail}"
  | .fileWrite .rename => s!"renaming temp collection file: {detail}"
  | .tableCreate => s!"creating token_documents table: {detail}"
  | .tableRead key => s!"reading document {key}: {detail}"
  | .tableUpsert key => s!"upserting document {key}: {detail}"
  | .tableDelete key => s!"deleting document {key}: {detail}"
  | .tableParse key => s!"parsing document {key}: {detail}"
  | .tokenDocument key => s!"token document for {key}: {detail}"
  | .sealedDocument key => s!"sealed token document for {key}: {detail}"
  | .readOnly => "read-only"
  | .injected op => s!"injected {op.name} failure"

def message (f : Failure) : String := f.kind.message f.reason

def isNotFound (f : Failure) : Bool := f.kind == .notFound

end Failure
end TokenKeeper
