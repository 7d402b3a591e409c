import TokenKeeper.Toml.Basic

/-!
# Putting values into tables

`Members.reach` follows the path of a header or of a dotted key and changes the table that it leads
to; where nothing is on the way yet, tables are put there. A path leads through the last element of
an array of tables and never into a table between braces. A dotted key leads neither into a table
with a header nor ends in one that is there for a header. Every key is set once.
-/
namespace TokenKeeper.Toml

abbrev Table := Origin × Members

namespace Members

def passing (dotted : Bool) : Origin := if dotted then .dotted else .implied

def isOpen (dotted : Bool) : Origin → Bool
  | .braces => false
  | .header => !dotted
  | .implied | .dotted => true

def reach (dotted : Bool) (change : Table → Option Table) : List String → Table → Option Table
  | [], table => change table
  | key :: path, (origin, members) => do
    let next ← match get? members key with
      | none => do
        let (o, ms) ← reach dotted change path (passing dotted, [])
        pure (.table o ms)
      | some (.table o ms) =>
        if isOpen dotted o then do
          let (o, ms) ← reach dotted change path (o, ms)
          pure (.table o ms)
        else none
      | some (.elements (last :: earlier)) => do
        let (_, ms) ← reach dotted change path (.header, last)
        pure (.elements (ms :: earlier))
      | some _ => none
    return (origin, set members key next)

def setNew (key : String) (value : Value) : Table → Option Table
  | (origin, members) =>
    if (get? members key).isSome then none else some (origin, members ++ [(key, value)])

def splitLast? (path : List String) : Option (List String × String) :=
  path.getLast?.map fun key => (path.dropLast, key)

def assign (path : List String) (value : Value) (table : Table) : Option Table := do
  let (way, key) ← splitLast? path
  reach true (fun t => if way ≠ [] ∧ t.1 ≠ .dotted then none else setNew key value t) way table

/-- The table that a header opens: a new one, or one that was only implied. -/
def openTable (key : String) : Table → Option Table
  | (origin, members) =>
    match get? members key with
    | none => some (origin, members ++ [(key, .table .header [])])
    | some (.table .implied ms) => some (origin, set members key (.table .header ms))
    | some _ => none

def addElement (key : String) : Table → Option Table
  | (origin, members) =>
    match get? members key with
    | none => some (origin, members ++ [(key, .elements [[]])])
    | some (.elements tables) => some (origin, set members key (.elements ([] :: tables)))
    | some _ => none

def ofPairs? (pairs : List (List String × Value)) : Option Value := do
  let (_, members) ← pairs.foldlM (fun t p => assign p.1 p.2 t) ((.braces, []) : Table)
  return .table .braces members

end Members
end TokenKeeper.Toml
