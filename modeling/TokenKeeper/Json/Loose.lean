import TokenKeeper.Json.Spelling

/-!
# JSON text with the liberties of JSON5

A database reads more than JSON: comments and blanks of all kinds, names without quotes, strings
between apostrophes, control characters and further escapes in strings, a comma before a closing
bracket, hexadecimal numbers, numbers with a plus sign or with no digit on one side of the point,
infinity, and not-a-number, which is null. `ofLooseText?` reads such a text as the tree of the JSON
text that the database makes of it. Brackets may nest a thousand deep, and a text ends before its
first NUL.
-/
namespace TokenKeeper.Json

inductive LooseToken
  | json (t : Token)
  | bareName (spelled : List Glyph)

namespace LooseToken

def isLooseBlank (c : Char) : Bool :=
  let n := c.toNat
  (0x09 ≤ n && n ≤ 0x0D) || n == 0x20 || n == 0xA0 || n == 0x1680 || (0x2000 ≤ n && n ≤ 0x200A)
    || isLineSeparator c || n == 0x202F || n == 0x205F || n == 0x3000 || n == 0xFEFF
where
  isLineSeparator (c : Char) : Bool := c == '\u2028' || c == '\u2029'

def isLineEnd (c : Char) : Bool :=
  c == '\n' || c == '\r' || c == '\u2028' || c == '\u2029'

def afterBlock? : List Char → Option (List Char)
  | '*' :: '/' :: rest => some rest
  | _ :: rest => afterBlock? rest
  | [] => none

/-! ### Strings -/

def spell (c : Char) : List Char :=
  match c with
  | '"' => ['\\', '"']
  | '\x08' => ['\\', 'b']
  | '\t' => ['\\', 't']
  | '\n' => ['\\', 'n']
  | '\x0c' => ['\\', 'f']
  | '\r' => ['\\', 'r']
  | c =>
    if c < ' ' then ['\\', 'u', '0', '0'] ++ Text.hexOfByte (.ofNat c.toNat) else [c]

def isHexDigit (c : Char) : Bool := (Text.hexDigit? c).isSome

def push (cs : List Char) (after : Option (List Char × List Char)) :
    Option (List Char × List Char) :=
  after.map fun (body, rest) => (cs ++ body, rest)

/-- An escape of a single character in JSON, as far as there is one. A backslash before the end of a
line takes it out. -/
def shortEscape? (c : Char) : Option (List Char) :=
  if isShortEscape c then some ['\\', c]
  else if c = '\'' then some [c]
  else if c = 'v' then some ['\\', 'u', '0', '0', '0', '9']
  else if c = '0' then some ['\\', 'u', '0', '0', '0', '0']
  else if isLineEnd c then some []
  else none

def stringBody? (mark : Char) : List Char → Option (List Char × List Char)
  | [] => none
  | c :: cs =>
    if c = mark then some ([], cs)
    else if c = '\\' then
      match cs with
      | 'u' :: p :: q :: r :: s :: cs =>
        if [p, q, r, s].all isHexDigit then push ['\\', 'u', p, q, r, s] (stringBody? mark cs)
        else none
      | 'x' :: p :: q :: cs =>
        if [p, q].all isHexDigit then push ['\\', 'u', '0', '0', p, q] (stringBody? mark cs)
        else none
      | '\r' :: '\n' :: cs => stringBody? mark cs
      | e :: cs =>
        match shortEscape? e with
        | some spelled => push spelled (stringBody? mark cs)
        | none => none
      | [] => none
    else push (spell c) (stringBody? mark cs)

/-! ### Numbers and words -/

def lower (c : Char) : Char := if 'A' ≤ c ∧ c ≤ 'Z' then Char.ofNat (c.toNat + 32) else c

def afterWord? : List Char → List Char → Option (List Char)
  | [], cs => some cs
  | w :: word, c :: cs => if lower c = w then afterWord? word cs else none
  | _ :: _, [] => none

def infinite : List Char := ['9', 'e', '9', '9', '9']

def greatestHex : Nat := 0xFFFFFFFFFFFFFFFF

def ofHex (digits : List Char) : List Char :=
  let n := (Text.hexadecimal? digits).getD 0
  if n ≤ greatestHex then Text.natChars n else ['9', '.', '0', 'e', '9', '9', '9']

def exponent? : List Char → Option (List Char × List Char)
  | c :: cs =>
    if c = 'e' ∨ c = 'E' then
      let sign := (cs.take 1).filter fun c => c == '+' || c == '-'
      let cs := cs.drop sign.length
      let digits := cs.takeWhile Text.isDigit
      if digits.isEmpty then none else some (c :: sign ++ digits, cs.dropWhile Text.isDigit)
    else some ([], c :: cs)
  | [] => some ([], [])

def decimal? (cs : List Char) : Option (List Char × List Char) := do
  let whole := cs.takeWhile Text.isDigit
  let rest := cs.dropWhile Text.isDigit
  if whole.length > 1 ∧ whole.head? = some '0' then none
  match rest with
  | '.' :: rest =>
    let fraction := rest.takeWhile Text.isDigit
    if whole.isEmpty ∧ fraction.isEmpty then none
    let (exponent, rest) ← exponent? (rest.dropWhile Text.isDigit)
    let orZero (ds : List Char) := if ds.isEmpty then ['0'] else ds
    return (orZero whole ++ '.' :: orZero fraction ++ exponent, rest)
  | rest =>
    if whole.isEmpty then none
    let (exponent, rest) ← exponent? rest
    return (whole ++ exponent, rest)

def magnitude? : List Char → Option (List Char × List Char)
  | '0' :: x :: d :: cs =>
    if (x = 'x' ∨ x = 'X') ∧ isHexDigit d then
      some (ofHex ((d :: cs).takeWhile isHexDigit), (d :: cs).dropWhile isHexDigit)
    else decimal? ('0' :: x :: d :: cs)
  | cs => decimal? cs

def signed? (cs : List Char) : Option (List Char × List Char) :=
  match afterWord? ['i', 'n', 'f'] cs with
  | some rest => some (infinite, (afterWord? ['i', 'n', 'i', 't', 'y'] rest).getD rest)
  | none => magnitude? cs

def isAlphanumeric (c : Char) : Bool :=
  Text.isDigit c || ('a' ≤ lower c && lower c ≤ 'z')

def words : List (String × Bool × Token) :=
  [("true", false, .bool true), ("false", false, .bool false), ("null", false, .null),
    ("inf", true, .num infinite), ("infinity", true, .num infinite), ("nan", true, .null),
    ("qnan", true, .null), ("snan", true, .null)]

def word? (cs : List Char) : Option (Token × List Char) :=
  words.findSome? fun (word, anyCase, token) =>
    let rest := if anyCase then afterWord? word.toList cs
      else if word.toList.isPrefixOf cs then some (cs.drop word.length) else none
    match rest with
    | some rest => if (rest.head?.map isAlphanumeric).getD false then none else some (token, rest)
    | none => none

def isNameStart (c : Char) : Bool :=
  c == '_' || c == '$' || ('a' ≤ lower c && lower c ≤ 'z') || ('\x7f' < c && !isLooseBlank c)

def spanName : List Char → List Char × List Char
  | '\\' :: 'u' :: p :: q :: r :: s :: cs =>
    if [p, q, r, s].all isHexDigit then
      let (body, rest) := spanName cs
      (['\\', 'u', p, q, r, s] ++ body, rest)
    else ([], '\\' :: 'u' :: p :: q :: r :: s :: cs)
  | c :: cs =>
    if isNameStart c || Text.isDigit c then
      let (body, rest) := spanName cs
      (c :: body, rest)
    else ([], c :: cs)
  | [] => ([], [])

def start? (c : Char) (cs : List Char) : Option (Option LooseToken × List Char) :=
  let token (t : Token) := some (some (LooseToken.json t), cs)
  if isLooseBlank c then some (none, cs)
  else
    match c with
    | '[' => token .openList
    | ']' => token .closeList
    | '\x7b' => token .openMembers
    | '\x7d' => token .closeMembers
    | ',' => token .comma
    | ':' => token .colon
    | '/' =>
      match cs with
      | '*' :: rest => (afterBlock? rest).map fun rest => (none, rest)
      | '/' :: rest => some (none, rest.dropWhile fun c => !isLineEnd c)
      | _ => none
    | '+' => (signed? cs).map fun (text, rest) => (some (.json (.num text)), rest)
    | '-' => (signed? cs).map fun (text, rest) => (some (.json (.num ('-' :: text))), rest)
    | c =>
      if c = '"' ∨ c = '\'' then
        (stringBody? c cs).map fun (body, rest) => (some (.json (.str (body.map some))), rest)
      else if Text.isDigit c || c == '.' then
        (magnitude? (c :: cs)).map fun (text, rest) => (some (.json (.num text)), rest)
      else
        match word? (c :: cs) with
        | some (t, rest) => some (some (.json t), rest)
        | none =>
          match spanName (c :: cs) with
          | ([], _) => none
          | (body, rest) => some (some (.bareName (body.map some)), rest)

def scanUpTo : Nat → List Char → Option (List LooseToken)
  | _, [] => some []
  | 0, _ :: _ => none
  | fuel + 1, c :: cs => do
    let (t, rest) ← start? c cs
    return t.toList ++ (← scanUpTo fuel rest)

end LooseToken

namespace Spelling

def deepest : Nat := 1000

def Stage.isTooDeep : Stage → Bool
  | .itemOrEnd stack | .keyOrEnd stack => deepest ≤ stack.length
  | _ => false

def Stage.nextLoose : Stage → LooseToken → Option Stage
  | .keyOrEnd stack, .bareName k => some (.colon [] k stack)
  | .key done stack, .bareName k => some (.colon done k stack)
  | .key done stack, .json .closeMembers => some (.after (.obj done.reverse) stack)
  | .value (.list done :: stack), .json .closeList => some (.after (.arr done.reverse) stack)
  | stage, .json t => (stage.next t).filter fun s => !s.isTooDeep
  | _, .bareName _ => none

def ofLooseText? (text : String) : Option Spelling := do
  let cs := text.toList.takeWhile (· != '\x00')
  let tokens ← LooseToken.scanUpTo cs.length cs
  (← tokens.foldlM Stage.nextLoose (.value [])).result?

end Spelling
end TokenKeeper.Json
