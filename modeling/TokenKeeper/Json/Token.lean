import TokenKeeper.Text.Digit
import TokenKeeper.Text.Utf8

/-!
# The tokens of JSON text

A text is read as glyphs: characters, and gaps where the bytes were no characters. `Token.scan`
splits it into brackets, commas, colons, words, numbers and strings, with blanks between them. A
number or a string is kept as it is spelled. Inside a string every escape must be well formed and
no control character may stand; whether it spells a text at all is decided later.
-/
namespace TokenKeeper.Json

abbrev Glyph := Option Char

inductive Token
  | openList | closeList | openMembers | closeMembers | comma | colon
  | null
  | bool (b : Bool)
  | num (spelled : List Char)
  | str (spelled : List Glyph)
  deriving DecidableEq, Repr

def isSpace (c : Char) : Bool := c == ' ' || c == '\n' || c == '\r' || c == '\t'

def digits : List Glyph → List Char × List Glyph
  | some c :: rest =>
    if Text.isDigit c then
      let (ds, rest) := digits rest
      (c :: ds, rest)
    else ([], some c :: rest)
  | gs => ([], gs)

def wholePart? (gs : List Glyph) : Option (List Char × List Glyph) :=
  match digits gs with
  | (['0'], rest) => some (['0'], rest)
  | ('0' :: _, _) => none
  | ([], _) => none
  | (ds, rest) => some (ds, rest)

def fractionPart? : List Glyph → Option (List Char × List Glyph)
  | some '.' :: rest =>
    match digits rest with
    | ([], _) => none
    | (ds, rest) => some ('.' :: ds, rest)
  | gs => some ([], gs)

def exponentPart? : List Glyph → Option (List Char × List Glyph)
  | some c :: rest =>
    if c = 'e' ∨ c = 'E' then
      let (sign, rest) := match rest with
        | some '+' :: r => (['+'], r)
        | some '-' :: r => (['-'], r)
        | r => ([], r)
      match digits rest with
      | ([], _) => none
      | (ds, rest) => some (c :: sign ++ ds, rest)
    else some ([], some c :: rest)
  | gs => some ([], gs)

def magnitude? (gs : List Glyph) : Option (List Char × List Glyph) := do
  let (whole, gs) ← wholePart? gs
  let (fraction, gs) ← fractionPart? gs
  let (exponent, gs) ← exponentPart? gs
  return (whole ++ fraction ++ exponent, gs)

def isShortEscape (c : Char) : Bool :=
  c == '"' || c == '\\' || c == '/' || c == 'b' || c == 'f' || c == 'n' || c == 'r' || c == 't'

def isHexGlyph : Glyph → Bool
  | some c => (Text.hexDigit? c).isSome
  | none => false

def stringBody? : List Glyph → Option (List Glyph × List Glyph)
  | [] => none
  | none :: rest => do
    let (body, rest) ← stringBody? rest
    return (none :: body, rest)
  | some c :: rest =>
    if c = '"' then some ([], rest)
    else if c = '\\' then
      match rest with
      | some 'u' :: a :: b :: c' :: d :: rest =>
        if isHexGlyph a && isHexGlyph b && isHexGlyph c' && isHexGlyph d then do
          let (body, rest) ← stringBody? rest
          return (some c :: some 'u' :: a :: b :: c' :: d :: body, rest)
        else none
      | some e :: rest =>
        if isShortEscape e then do
          let (body, rest) ← stringBody? rest
          return (some c :: some e :: body, rest)
        else none
      | _ => none
    else if c < ' ' then none
    else do
      let (body, rest) ← stringBody? rest
      return (some c :: body, rest)

def word? : List Char → List Glyph → Option (List Glyph)
  | [], gs => some gs
  | c :: cs, some d :: gs => if c = d then word? cs gs else none
  | _, _ => none

def Token.start? (c : Char) (rest : List Glyph) : Option (Token × List Glyph) :=
  match c with
  | '[' => some (.openList, rest)
  | ']' => some (.closeList, rest)
  | '\x7b' => some (.openMembers, rest)
  | '\x7d' => some (.closeMembers, rest)
  | ',' => some (.comma, rest)
  | ':' => some (.colon, rest)
  | '"' => (stringBody? rest).map fun (body, rest) => (.str body, rest)
  | 'n' => (word? ['u', 'l', 'l'] rest).map fun rest => (.null, rest)
  | 't' => (word? ['r', 'u', 'e'] rest).map fun rest => (.bool true, rest)
  | 'f' => (word? ['a', 'l', 's', 'e'] rest).map fun rest => (.bool false, rest)
  | '-' => (magnitude? rest).map fun (text, rest) => (.num ('-' :: text), rest)
  | c => (magnitude? (some c :: rest)).map fun (text, rest) => (.num text, rest)

def Token.scanUpTo : Nat → List Glyph → Option (List Token)
  | _, [] => some []
  | 0, _ :: _ => none
  | _ + 1, none :: _ => none
  | fuel + 1, some c :: rest =>
    if isSpace c then scanUpTo fuel rest
    else do
      let (token, rest) ← Token.start? c rest
      return token :: (← scanUpTo fuel rest)

def Token.scan (gs : List Glyph) : Option (List Token) :=
  scanUpTo gs.length gs

end TokenKeeper.Json
