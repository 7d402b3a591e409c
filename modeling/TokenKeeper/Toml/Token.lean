import TokenKeeper.Toml.Moment
import TokenKeeper.Toml.Quotation

/-!
# The tokens of TOML text

A text is split into brackets, commas, equals signs, line breaks, strings and words, with `space`
for the blanks between them. A word is a run of other characters; which words mean something is
decided where they stand. A date and the time after a single blank are one word. Comments are left
out, but what stands in them is looked at.
-/
namespace TokenKeeper.Toml

inductive Token
  | openList | closeList | openTable | closeTable | comma | equals
  | lineBreak
  | space
  | word (cs : List Char)
  | string (s : String) (block : Bool)
  deriving DecidableEq, Repr

namespace Token

def isSpace (c : Char) : Bool := c == ' ' || c == '\t'

def mark? (c : Char) : Option Token :=
  match c with
  | '[' => some .openList
  | ']' => some .closeList
  | '\x7b' => some .openTable
  | '\x7d' => some .closeTable
  | ',' => some .comma
  | '=' => some .equals
  | '\n' => some .lineBreak
  | _ => none

def isWordChar (c : Char) : Bool :=
  !(isSpace c || c == '\r' || c == '#' || c == '"' || c == '\'' || (mark? c).isSome)

def spanWord (cs : List Char) : List Char × List Char :=
  let first := cs.takeWhile isWordChar
  match cs.dropWhile isWordChar with
  | ' ' :: c :: rest =>
    if Moment.isDateShaped first && Text.isDigit c then
      (first ++ ' ' :: (c :: rest).takeWhile isWordChar, (c :: rest).dropWhile isWordChar)
    else (first, ' ' :: c :: rest)
  | rest => (first, rest)

def afterComment? (cs : List Char) : Option (List Char) :=
  match cs.dropWhile Quotation.isPlain with
  | [] => some []
  | '\n' :: rest => some ('\n' :: rest)
  | '\r' :: '\n' :: rest => some ('\n' :: rest)
  | _ => none

def start? (c : Char) (rest : List Char) : Option (List Token × List Char) :=
  if isSpace c then some ([.space], rest.dropWhile isSpace)
  else if c = '#' then (afterComment? rest).map fun rest => ([], rest)
  else if c = '\r' then
    match rest with
    | '\n' :: rest => some ([.lineBreak], rest)
    | _ => none
  else
    match mark? c with
    | some token => some ([token], rest)
    | none =>
      match Quotation.start? (c :: rest) with
      | none => none
      | some (some (s, block, rest)) => some ([.string s block], rest)
      | some none =>
        let (cs, rest) := spanWord (c :: rest)
        some ([.word cs], rest)

def scanUpTo : Nat → List Char → Option (List Token)
  | _, [] => some []
  | 0, _ :: _ => none
  | fuel + 1, c :: rest => do
    let (tokens, rest) ← start? c rest
    return tokens ++ (← scanUpTo fuel rest)

def dropMark : List Char → List Char
  | '\uFEFF' :: cs => cs
  | cs => cs

def scan (text : String) : Option (List Token) :=
  let cs := dropMark text.toList
  (scanUpTo cs.length cs).map fun tokens => tokens ++ [.lineBreak]

end Token
end TokenKeeper.Toml
