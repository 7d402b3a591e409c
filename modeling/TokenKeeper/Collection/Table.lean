import TokenKeeper.Failure
import TokenKeeper.Json.Patch
import TokenKeeper.Json.Path
import TokenKeeper.Json.Printer
import TokenKeeper.Json.Reader

/-!
# Documents in a database table

A table holds the JSON text of documents by the name of their collection and their key. The first
upsert of a key stores the fields as they are written, and a later one applies them as a merge patch
to what is stored. `deleteIf` looks up its field as a path and compares as the database does.
Finding asks for a JSON object. The database itself takes JSON with the liberties of JSON5, and
deleting does not look at the text.
-/
namespace TokenKeeper

abbrev TableRows := Dict (Dict String)

inductive Database
  | ready (rows : TableRows)
  | dropped
  | blocked
  deriving Inhabited

namespace Database

def empty : Database := .ready []

def create? : Database → Except Failure Database
  | .ready rows => .ok (.ready rows)
  | .dropped => .ok empty
  | .blocked => .error .tableCreate

def rows (failure : Failure) : Database → Except Failure TableRows
  | .ready rows => .ok rows
  | _ => .error failure

def text? (rows : TableRows) (collection key : String) : Option String :=
  (Dict.get? rows collection).bind fun texts => Dict.get? texts key

def setText (rows : TableRows) (collection key text : String) : TableRows :=
  Dict.insert rows collection (Dict.insert ((Dict.get? rows collection).getD []) key text)

def eraseText (rows : TableRows) (collection key : String) : TableRows :=
  Dict.insert rows collection (Dict.erase ((Dict.get? rows collection).getD []) key)

def find (db : Database) (collection key : String) : Except Failure (Option Document) := do
  match text? (← db.rows (.tableRead key)) collection key with
  | none => return none
  | some text =>
    match Json.documentOfText? text with
    | some doc => return some doc
    | none => throw (.tableParse key)

def merged? (stored : Option String) (fields : Document) : Option String :=
  let text := (Json.obj fields).compact
  match stored with
  | none => some text
  | some stored => Json.Spelling.patchText? stored text

def upsert (db : Database) (collection key : String) (fields : Document) :
    Except Failure Database := do
  let rows ← db.rows (.tableUpsert key)
  match merged? (text? rows collection key) fields with
  | some text => return .ready (setText rows collection key text)
  | none => throw (.tableUpsert key)

def delete (db : Database) (collection key : String) : Except Failure Database := do
  return .ready (eraseText (← db.rows (.tableDelete key)) collection key)

/-- Whether the value at a path of a text equals an expected one; none if the text is no JSON or the
path no path. -/
def valueEquals? (text : String) (path : String) (expected : Json) : Option Bool := do
  let stored ← Json.Spelling.ofLooseText? text
  let wanted ← Json.Spelling.ofLooseText? expected.compact
  match stored.follow path with
  | .value v => return v.scalar.equals wanted.scalar
  | .nothing => return false
  | .badPath => none

def deleteIf (db : Database) (collection key field : String) (expected : Json) :
    Except Failure (Bool × Database) := do
  let rows ← db.rows (.tableDelete key)
  match text? rows collection key with
  | none => return (false, db)
  | some text =>
    match valueEquals? text ("." ++ field) expected with
    | some true => return (true, .ready (eraseText rows collection key))
    | some false => return (false, db)
    | none => throw (.tableDelete key)

end Database
end TokenKeeper
