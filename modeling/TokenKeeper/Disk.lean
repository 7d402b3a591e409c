import TokenKeeper.Collection.Table
import TokenKeeper.Text.Utf8

/-!
# Files and directories

A disk is a tree of directories, files and databases, kept as a list of places with what lies there.
A path is read from the working directory, or from the top if it starts with a slash; each step of
it leads on from a directory that exists. `replace` puts a text in the place of a file in one step:
first all of it goes to a temporary file in the same directory, which then takes the name.
-/
namespace TokenKeeper

abbrev Place := List String

inductive Disk.Node
  | file (bytes : Bytes) (guarded : Bool)
  | directory
  | database (db : Database)

structure Disk where
  entries : List (Place × Disk.Node)

namespace Disk

def workingPlace : Place := ["work"]

def empty : Disk := ⟨[([], .directory), (workingPlace, .directory)]⟩

def at? (d : Disk) (place : Place) : Option Node :=
  (d.entries.find? fun e => e.1 == place).map (·.2)

def isDirectoryAt (d : Disk) (place : Place) : Bool :=
  match d.at? place with
  | some .directory => true
  | _ => false

def put (d : Disk) (place : Place) (node : Node) : Disk :=
  ⟨(d.entries.filter fun e => e.1 != place) ++ [(place, node)]⟩

def parts (path : String) : List String :=
  (path.toList.splitOn '/').map String.ofList

def walk (d : Disk) (here : Place) : List String → Option Place
  | [] => some here
  | part :: rest =>
    if !d.isDirectoryAt here || part.toList.contains '\x00' then none
    else if part = "" ∨ part = "." then walk d here rest
    else if part = ".." then walk d here.dropLast rest
    else walk d (here ++ [part]) rest

def place? (d : Disk) (path : String) : Option Place :=
  match parts path with
  | [""] => none
  | "" :: rest => d.walk [] rest
  | rest => d.walk workingPlace rest

def node? (d : Disk) (path : String) : Option Node :=
  (d.place? path).bind d.at?

def exists? (d : Disk) (path : String) : Bool := (d.node? path).isSome

def read? (d : Disk) (path : String) : Option Bytes :=
  match d.node? path with
  | some (.file bytes _) => some bytes
  | _ => none

def readText? (d : Disk) (path : String) : Option String :=
  (d.read? path).bind Utf8.decode?

theorem readText?_eq_some_iff {d : Disk} {path text : String} :
    d.readText? path = some text ↔ d.read? path = some (Utf8.encode text) := by
  simp only [readText?, Option.bind_eq_some_iff, Utf8.decode?_eq_some_iff, exists_eq_right]

def namedParts (path : String) : List String :=
  (parts path).filter fun part => part != "" && part != "."

def parent? (path : String) : Option String :=
  let absolute := path.toList.head? = some '/'
  match namedParts path with
  | [] => if absolute ∨ path = "" then none else some "."
  | named =>
    let above := "/".intercalate named.dropLast
    some (if absolute then "/" ++ above else if above = "" then "." else above)

def isDirectory (d : Disk) (path : String) : Bool :=
  match d.place? path with
  | some place => d.isDirectoryAt place
  | none => false

/-- Replaces a file by a text in one step, or leaves the disk as it is. A mishap makes a step fail
that could have succeeded. -/
def replace (d : Disk) (path text : String) (mishap : Option WriteStep) : Except Failure Disk :=
  match parent? path with
  | none => .error .fileParent
  | some dir =>
    if !d.isDirectory dir then .error (.fileWrite .temporary)
    else
      match mishap with
      | some step => .error (.fileWrite step)
      | none =>
        match d.place? path with
        | none => .error (.fileWrite .rename)
        | some place =>
          if d.isDirectoryAt place then .error (.fileWrite .rename)
          else .ok (d.put place (.file (Utf8.encode text) true))

def isTransient (path : String) : Bool := path = "" || path = ":memory:"

/-- The database that opening a path gives. A new file, an empty one and one of a single byte hold a
database without a table, and any other file holds none that can be used. -/
def database? (d : Disk) (path : String) : Option Database :=
  if isTransient path then some .dropped
  else
    match d.place? path with
    | none => none
    | some place =>
      match d.at? place with
      | none => some .dropped
      | some .directory => none
      | some (.database db) => some db
      | some (.file bytes _) => if bytes.length ≤ 1 then some .dropped else some .blocked

def saveDatabase (d : Disk) (path : String) (db : Database) : Disk :=
  if isTransient path then d
  else
    match d.place? path with
    | some place => d.put place (.database db)
    | none => d

def makeDirectories (d : Disk) (place : Place) : Disk :=
  (List.range (place.length + 1)).foldl (fun d n =>
    let above := place.take n
    if (d.at? above).isSome then d else d.put above .directory) d

def namedPlace (path : String) : Place :=
  let start := if path.toList.head? = some '/' then [] else workingPlace
  (namedParts path).foldl
    (fun here part => if part = ".." then here.dropLast else here ++ [part]) start

def install (d : Disk) (path : String) (node : Node) : Disk :=
  let place := workingPlace ++ namedParts path
  (d.makeDirectories place.dropLast).put place node

def remove (d : Disk) (place : Place) : Disk :=
  ⟨d.entries.filter fun e => !place.isPrefixOf e.1⟩

def names (d : Disk) (place : Place) : List String :=
  let below := d.entries.filterMap fun e =>
    if e.1.length = place.length + 1 && place.isPrefixOf e.1 then e.1.getLast? else none
  (below.mergeSort fun a b => a ≤ b)

def ofFiles (files : List (String × Node)) : Disk :=
  files.foldl (fun d f => d.install f.1 f.2) empty

end Disk
end TokenKeeper
