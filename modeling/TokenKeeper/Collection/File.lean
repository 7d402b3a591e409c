import TokenKeeper.Disk

/-!
# Documents in a file

A collection file is one JSON object that holds each document under its key. The whole of it is kept
in memory as well. An operation that changes something writes the new contents first and changes the
memory only once the file has been replaced, so a failed write changes neither. An operation that
changes nothing writes nothing.
-/
namespace TokenKeeper

structure FileCollection where
  path : String
  documents : Dict Document

namespace FileCollection

def text (documents : Dict Document) : String :=
  (Json.obj (documents.map fun e => (e.1, .obj e.2))).pretty

/-- The documents of an object; every member has to be one, also under a key that comes again. -/
def documentsOf? (members : List (List Json.Glyph × Json.Spelling)) :
    Option (List (String × Document)) :=
  members.mapM fun (k, v) => do
    let key ← Json.Spelling.text? k
    let doc ← (v.value? (Json.nestingLimit - 1)).bind Json.obj?
    return (key, doc)

def documents? (text : String) : Option (Dict Document) := do
  match ← Json.Spelling.ofText? text with
  | .obj members => return Dict.ofList (← documentsOf? members)
  | _ => none

def store (c : FileCollection) (d : Disk) (mishap : Option WriteStep) (next : Dict Document) :
    Except Failure (FileCollection × Disk) := do
  return ({ c with documents := next }, ← d.replace c.path (text next) mishap)

def openAt (d : Disk) (path : String) (mishap : Option WriteStep) :
    Except Failure (FileCollection × Disk) :=
  if d.exists? path then
    match d.readText? path with
    | none => .error .fileRead
    | some text =>
      match documents? text with
      | some documents => .ok (⟨path, documents⟩, d)
      | none => .error .fileParse
  else store ⟨path, []⟩ d mishap []

def find (c : FileCollection) (key : String) : Option Document := Dict.get? c.documents key

def upsert (c : FileCollection) (d : Disk) (mishap : Option WriteStep) (key : String)
    (fields : Document) : Except Failure (FileCollection × Disk) :=
  let doc := Dict.insertAll ((c.find key).getD []) fields
  c.store d mishap (Dict.insert c.documents key doc)

def delete (c : FileCollection) (d : Disk) (mishap : Option WriteStep) (key : String) :
    Except Failure (FileCollection × Disk) :=
  if Dict.contains c.documents key then c.store d mishap (Dict.erase c.documents key)
  else .ok (c, d)

def hasValue (c : FileCollection) (key field : String) (expected : Json) : Bool :=
  match (c.find key).bind fun doc => Dict.get? doc field with
  | some value => value.same expected
  | none => false

def deleteIf (c : FileCollection) (d : Disk) (mishap : Option WriteStep) (key field : String)
    (expected : Json) : Except Failure (Bool × FileCollection × Disk) := do
  if c.hasValue key field expected then
    return (true, ← c.store d mishap (Dict.erase c.documents key))
  else return (false, c, d)

end FileCollection
end TokenKeeper
