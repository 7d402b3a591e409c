import TokenKeeper.Text.Utf8

/-!
# Headers of requests

The headers of a request are a list of names, in small letters, and values; a name may come several
times. A value may hold any byte but the control bytes, of which it may hold the tab.
-/
namespace TokenKeeper

structure Header where
  name : String
  value : String
  sensitive : Bool
  deriving DecidableEq, Repr

abbrev Headers := List Header

def authorization : String := "authorization"

namespace Headers

def isValueByte (b : UInt8) : Bool := (32 ≤ b && b != 127) || b == 9

def isValue (value : String) : Bool := (Utf8.encode value).all isValueByte

def replace (headers : Headers) (h : Header) : Headers :=
  headers.filter (·.name != h.name) ++ [h]

def sorted (headers : Headers) : Headers :=
  headers.mergeSort fun a b => a.name ≤ b.name

def ofList (headers : List (String × String)) : Headers :=
  headers.map fun (name, value) => ⟨name.map Char.toLower, value, false⟩

end Headers
end TokenKeeper
