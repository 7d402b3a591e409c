import TokenKeeper.Decimal.Shortest
import TokenKeeper.Dict

/-!
# JSON values

A value is null, a truth value, an integer, a floating-point number, a text, a list of values, or a
dictionary of values by ascending key. Integers and floating-point numbers are apart: no integer
equals a floating-point number. `Document` is the dictionary at the top of a stored record.
-/
namespace TokenKeeper

inductive Json
  | null
  | bool (b : Bool)
  | int (n : Int)
  | float (x : Binary64)
  | str (s : String)
  | arr (items : List Json)
  | obj (members : List (String × Json))
  deriving Inhabited

abbrev Document := Dict Json

namespace Json

mutual

def same : Json → Json → Bool
  | .null, .null => true
  | .bool a, .bool b => a == b
  | .int a, .int b => a == b
  | .float a, .float b => a.sameNumber b
  | .str a, .str b => a == b
  | .arr a, .arr b => sameItems a b
  | .obj a, .obj b => sameMembers a b
  | _, _ => false

def sameItems : List Json → List Json → Bool
  | [], [] => true
  | a :: as, b :: bs => same a b && sameItems as bs
  | _, _ => false

def sameMembers : List (String × Json) → List (String × Json) → Bool
  | [], [] => true
  | (k, a) :: as, (l, b) :: bs => k == l && same a b && sameMembers as bs
  | _, _ => false

end

def str? : Json → Option String
  | .str s => some s
  | _ => none

def obj? : Json → Option Document
  | .obj members => some members
  | _ => none

end Json
end TokenKeeper
