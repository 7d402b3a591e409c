/-!
# TOML values

A TOML text is a table of values under keys. A table remembers how it came about, for that decides
whether more may be put into it: by a header of its own, on the way to the header of a table inside
it, on the way of a dotted key, or written out between braces. Nothing here reads the number of a
real or the fields of a date, so that these are kept as what they are and no more.
-/
namespace TokenKeeper.Toml

inductive Origin
  | header | implied | dotted | braces
  deriving DecidableEq, Repr

inductive Value
  | string (s : String)
  | integer (n : Int)
  | real
  | boolean (b : Bool)
  | moment
  | list (items : List Value)
  | elements (tables : List (List (String × Value)))
  | table (origin : Origin) (members : List (String × Value))
  deriving Inhabited

abbrev Members := List (String × Value)

namespace Members

def get? (members : Members) (key : String) : Option Value :=
  (members.find? fun m => m.1 == key).map (·.2)

def set (members : Members) (key : String) (value : Value) : Members :=
  if (get? members key).isSome then
    members.map fun m => if m.1 == key then (key, value) else m
  else members ++ [(key, value)]

end Members
end TokenKeeper.Toml
