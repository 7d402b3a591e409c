import TokenKeeper.Failure

/-!
# Counters

Every request to the token endpoint is counted by its grant and its outcome, and every pair that
could not be stored by its grant.
-/
namespace TokenKeeper

inductive Outcome
  | success | transport | rejected | undecodable | other
  deriving DecidableEq, Repr

namespace Outcome

def name : Outcome → String
  | .success => "success"
  | .transport => "transport_error"
  | .rejected => "rejected"
  | .undecodable => "decode_error"
  | .other => "error"

def ofKind : Failure.Kind → Outcome
  | .transport => .transport
  | .rejected => .rejected
  | .decode => .undecodable
  | _ => .other

def ofResult {α : Type} : Except Failure α → Outcome
  | .ok _ => .success
  | .error f => ofKind f.kind

end Outcome

inductive Counter
  | request (grant : GrantKind) (outcome : Outcome)
  | persistFailure (grant : GrantKind)
  deriving DecidableEq, Repr

namespace Counter

def name : Counter → String
  | .request grant outcome =>
    "oauth_token_requests_total\x7bgrant=" ++ grant.name ++ ",outcome=" ++ outcome.name ++ "\x7d"
  | .persistFailure grant =>
    "oauth_token_persist_failures_total\x7bgrant=" ++ grant.name ++ "\x7d"

end Counter
end TokenKeeper
