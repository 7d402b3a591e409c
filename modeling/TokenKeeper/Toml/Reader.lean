import TokenKeeper.Toml.Scalar
import TokenKeeper.Toml.Table
import TokenKeeper.Toml.Token

/-!
# Reading TOML text

The tokens of a text are read in one pass. Each line is a header, a header in double brackets, or a
pair of a key and a value, and goes into the table of the document as soon as it is complete. Inside
brackets and braces lines may be broken, and a comma may stand at the end.
-/
namespace TokenKeeper.Toml

/-! ### Keys -/

inductive KeyPart
  | name (s : String)
  | dot

def isBareChar (c : Char) : Bool :=
  Text.isDigit c || ('a' ≤ c && c ≤ 'z') || ('A' ≤ c && c ≤ 'Z') || c == '_' || c == '-'

def KeyPart.ofWord? (cs : List Char) : Option (List KeyPart) :=
  if cs.all fun c => isBareChar c || c == '.' then
    let names := (cs.splitOn '.').map fun name =>
      if name.isEmpty then [] else [KeyPart.name (String.ofList name)]
    some (names.intersperse [.dot]).flatten
  else none

def KeyPart.ofToken? : Token → Option (List KeyPart)
  | .word cs => ofWord? cs
  | .string s false => some [.name s]
  | .space => some []
  | _ => none

def KeyPart.names? : List KeyPart → Option (List String)
  | [.name s] => some [s]
  | .name s :: .dot :: rest => (names? rest).map (s :: ·)
  | _ => none

def deepest : Nat := 80

def key? (tokens : List Token) : Option (List String) := do
  let names ← KeyPart.names? (← tokens.mapM KeyPart.ofToken?).flatten
  if names.length ≤ deepest then some names else none

/-! ### Documents -/

structure Document where
  root : Table
  header : List String

namespace Document

def empty : Document := ⟨(.header, []), []⟩

def openWith (act : String → Table → Option Table) (path : List String) (d : Document) :
    Option Document := do
  let (way, key) ← Members.splitLast? path
  return ⟨← Members.reach false (act key) way d.root, path⟩

def assign (path : List String) (value : Value) (d : Document) : Option Document := do
  return { d with root := ← Members.reach false (Members.assign path value) d.header d.root }

end Document

/-! ### Lines -/

inductive Frame
  | line (key : List String)
  | list (done : List Value)
  | pairs (done : List (List String × Value)) (key : List String)

inductive Stage
  | lineStart
  | bracket
  | header (read : List Token)
  | doubleHeader (read : List Token)
  | doubleHeaderEnd (path : List String)
  | lineEnd
  | lineKey (read : List Token)
  | pairKey (read : List Token) (done : List (List String × Value)) (stack : List Frame)
  | value (stack : List Frame)
  | itemOrEnd (done : List Value) (stack : List Frame)
  | pairOrEnd (done : List (List String × Value)) (stack : List Frame)
  | after (value : Value) (stack : List Frame)

structure Reading where
  document : Document
  stage : Stage

namespace Reading

def start : Reading := ⟨.empty, .lineStart⟩

def beginValue (stack : List Frame) : Token → Option Stage
  | .word cs => (Scalar.ofChars? cs).map fun v => .after v stack
  | .string s _ => some (.after (.string s) stack)
  | .openList => if stack.length ≤ deepest then some (.itemOrEnd [] stack) else none
  | .openTable => if stack.length ≤ deepest then some (.pairOrEnd [] stack) else none
  | _ => none

def endValue (value : Value) : List Frame → Token → Option Stage
  | .list done :: stack, .comma => some (.itemOrEnd (value :: done) stack)
  | .list done :: stack, .closeList => some (.after (.list (value :: done).reverse) stack)
  | .pairs done key :: stack, .comma => some (.pairOrEnd ((key, value) :: done) stack)
  | .pairs done key :: stack, .closeTable =>
    (Members.ofPairs? ((key, value) :: done).reverse).map fun v => .after v stack
  | .list done :: stack, .lineBreak => some (.after value (.list done :: stack))
  | .pairs done key :: stack, .lineBreak => some (.after value (.pairs done key :: stack))
  | _, _ => none

def goTo (r : Reading) (stage : Stage) : Option Reading := some { r with stage }

def goTo? (r : Reading) (stage : Option Stage) : Option Reading :=
  stage.map fun stage => { r with stage }

def next (r : Reading) (t : Token) : Option Reading :=
  match r.stage, t with
  | .bracket, .openList => r.goTo (.doubleHeader [])
  | .bracket, t => r.goTo (.header [t])
  | .header read, .closeList => do
    return ⟨← r.document.openWith Members.openTable (← key? read.reverse), .lineEnd⟩
  | .header read, t => r.goTo (.header (t :: read))
  | .doubleHeader read, .closeList => do r.goTo (.doubleHeaderEnd (← key? read.reverse))
  | .doubleHeader read, t => r.goTo (.doubleHeader (t :: read))
  | .doubleHeaderEnd path, .closeList => do
    return ⟨← r.document.openWith Members.addElement path, .lineEnd⟩
  | .doubleHeaderEnd _, _ => none
  | .lineKey read, .equals => do r.goTo (.value [.line (← key? read.reverse)])
  | .lineKey _, .lineBreak => none
  | .lineKey read, t => r.goTo (.lineKey (t :: read))
  | .pairKey read done stack, .equals => do
    r.goTo (.value (.pairs done (← key? read.reverse) :: stack))
  | .pairKey _ _ _, .lineBreak => none
  | .pairKey read done stack, t => r.goTo (.pairKey (t :: read) done stack)
  | _, .space => some r
  | .lineStart, .lineBreak => some r
  | .lineStart, .openList => r.goTo .bracket
  | .lineStart, t => r.goTo (.lineKey [t])
  | .lineEnd, .lineBreak => r.goTo .lineStart
  | .lineEnd, _ => none
  | .value stack, t => r.goTo? (beginValue stack t)
  | .itemOrEnd done stack, .closeList => r.goTo (.after (.list done.reverse) stack)
  | .itemOrEnd _ _, .lineBreak => some r
  | .itemOrEnd done stack, t => r.goTo? (beginValue (.list done :: stack) t)
  | .pairOrEnd done stack, .closeTable => do
    r.goTo (.after (← Members.ofPairs? done.reverse) stack)
  | .pairOrEnd _ _, .lineBreak => some r
  | .pairOrEnd done stack, t => r.goTo (.pairKey [t] done stack)
  | .after value [.line key], .lineBreak => do
    return ⟨← r.document.assign key value, .lineStart⟩
  | .after value stack, t => r.goTo? (endValue value stack t)

def result? (r : Reading) : Option Members :=
  match r.stage with
  | .lineStart => some r.document.root.2
  | _ => none

end Reading

def read? (text : String) : Option Members := do
  (← (← Token.scan text).foldlM Reading.next Reading.start).result?

end TokenKeeper.Toml
