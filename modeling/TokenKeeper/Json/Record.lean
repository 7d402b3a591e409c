import TokenKeeper.Json.Reader

/-!
# Records in JSON text

A record with named fields is written as an object, with its members in any order and others among
them, or as a list of its fields in order. Members that are no field are passed over unread; a field
that comes twice makes the text no record, and so does an item too many.
-/
namespace TokenKeeper.Json.Spelling

def namedMembers? (members : List (List Glyph × Spelling)) : Option (List (String × Spelling)) :=
  members.mapM fun (k, v) => (text? k).map fun name => (name, v)

def field? (members : List (String × Spelling)) (name : String) : Option (Option Spelling) :=
  match members.filter (·.1 == name) with
  | [] => some none
  | [(_, v)] => some (some v)
  | _ => none

def record? (names : List String) : Spelling → Option (List (Option Spelling))
  | .arr items =>
    if items.length ≤ names.length then
      some (items.map some ++ List.replicate (names.length - items.length) none)
    else none
  | .obj members => do
    let named ← namedMembers? members
    names.mapM (field? named)
  | _ => none

def string? : Spelling → Option String
  | .str spelled => text? spelled
  | _ => none

def int64? : Spelling → Option Int64
  | .num spelled => do
    let n ← (Numeral.ofChars spelled).int?
    if Int64.minValue.toInt ≤ n ∧ n ≤ Int64.maxValue.toInt then some (.ofInt n) else none
  | _ => none

def orDefault {α : Type} (read : Spelling → Option α) (default : α) : Option Spelling → Option α
  | some v => read v
  | none => some default

def required {α : Type} (read : Spelling → Option α) (field : Option Spelling) : Option α :=
  field.bind read

end TokenKeeper.Json.Spelling
