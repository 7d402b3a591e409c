import TokenKeeper.Credential
import TokenKeeper.Grant.Form

/-!
# Grant requests and their answers

A grant is asked for by a form: the kind of grant, what earns it, and the registration of the
client. The endpoint answers with a status and a body, or not at all, or with a body that breaks
off. `Exchange.tokens` takes the pair from an answer, or says why there is none.
-/
namespace TokenKeeper

inductive Exchange
  | silence
  | answer (status : Nat) (body : Option Bytes)
  deriving DecidableEq

def passwordForm (username password : String) (c : Credentials) : Form :=
  [("grant_type", GrantKind.password.name), ("username", username), ("password", password),
    ("client_id", c.clientId), ("client_secret", c.clientSecret)]

def refreshForm (refreshToken : String) (c : Credentials) : Form :=
  [("grant_type", GrantKind.refresh.name), ("refresh_token", refreshToken),
    ("client_id", c.clientId), ("client_secret", c.clientSecret)]

namespace Exchange

def tokens (grant : GrantKind) : Exchange → Except Failure Tokens
  | .silence => .error (.unanswered grant)
  | .answer status body =>
    if Status.isSuccess status then
      match body with
      | none => .error .brokenAnswer
      | some bytes =>
        match Tokens.ofBytes? bytes with
        | some tokens => .ok tokens
        | none => .error (.notTokens grant)
    else .error (.rejected grant status (body.map Utf8.decodeLossy))

end Exchange
end TokenKeeper
