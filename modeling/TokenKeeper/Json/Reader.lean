import TokenKeeper.Json.Number
import TokenKeeper.Json.Spelling

/-!
# JSON values of texts

`Spelling.json?` gives the value that a spelled tree stands for: every string has to spell a text,
every number has to be in range, and brackets nest at most `nestingLimit` deep. Of a repeated key
the last member counts.
-/
namespace TokenKeeper.Json

def nestingLimit : Nat := 127

namespace Spelling

mutual

def value? (depth : Nat) : Spelling → Option Json
  | .null => some .null
  | .bool b => some (.bool b)
  | .num text => ofNumber? text
  | .str spelled => (text? spelled).map .str
  | .arr items =>
    match depth with
    | 0 => none
    | depth + 1 => (values? depth items).map .arr
  | .obj members =>
    match depth with
    | 0 => none
    | depth + 1 => (entries? depth members).map fun es => .obj (Dict.ofList es)

def values? (depth : Nat) : List Spelling → Option (List Json)
  | [] => some []
  | x :: rest => do return (← value? depth x) :: (← values? depth rest)

def entries? (depth : Nat) : List (List Glyph × Spelling) → Option (List (String × Json))
  | [] => some []
  | (k, x) :: rest => do return (← text? k, ← value? depth x) :: (← entries? depth rest)

end

def json? (s : Spelling) : Option Json := value? nestingLimit s

end Spelling

def ofText? (text : String) : Option Json :=
  (Spelling.ofText? text).bind Spelling.json?

def ofBytes? (bytes : Bytes) : Option Json :=
  (Spelling.ofBytes? bytes).bind Spelling.json?

def documentOfText? (text : String) : Option Document :=
  (ofText? text).bind obj?

end TokenKeeper.Json
