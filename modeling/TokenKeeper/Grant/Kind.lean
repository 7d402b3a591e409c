/-!
# Kinds of grant

A token pair is obtained with a user's password, or in exchange for a refresh token.
-/
namespace TokenKeeper

inductive GrantKind
  | password
  | refresh
  deriving DecidableEq, Repr

namespace GrantKind

def name : GrantKind → String
  | .password => "password"
  | .refresh => "refresh_token"

def all : List GrantKind := [.password, .refresh]

theorem name_injective {a b : GrantKind} (h : a.name = b.name) : a = b := by
  cases a <;> cases b <;> simp_all [name]

end GrantKind
end TokenKeeper
