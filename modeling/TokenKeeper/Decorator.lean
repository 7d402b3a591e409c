import TokenKeeper.Client
import TokenKeeper.Host

/-!
# Decorating requests

A request for the protected host, or for one of its subdomains, gets the access token of a caller in
its `authorization` header, in place of any that it had. Every other request stays as it is, and
nobody is asked for a token. When there is no token the request stays as it is as well, and is not
sent.
-/
namespace TokenKeeper

namespace Client

def protects (client : Client) (host : Option String) : Bool :=
  match host with
  | some host => Host.matchesHost host client.apiHost
  | none => false

def bearer (token : String) : Except Failure Header :=
  let value := "Bearer " ++ token
  if Headers.isValue value then .ok ⟨authorization, value, true⟩ else .error .headerValue

/-- Decorates the headers of a request where they stand, and gives them back in every case. -/
def apply (client : Client) (key : String) (host : Option String) (headers : Headers) :
    Program (Except Failure Unit × Headers) := do
  if client.protects host then
    match ← (client.accessToken key).attempt with
    | .error e => return (.error e, headers)
    | .ok token =>
      match bearer token with
      | .error e => return (.error e, headers)
      | .ok header => return (.ok (), headers.replace header)
  else return (.ok (), headers)

def send (client : Client) (key : String) (host : Option String) (headers : Headers) :
    Program Nat := do
  let (result, decorated) ← client.apply key host headers
  Program.ofExcept result
  match ← Program.perform (.send decorated) with
  | some status => return status
  | none => .fail .requestUnsent

end Client
end TokenKeeper
