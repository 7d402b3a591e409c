import TokenKeeper.Text.Digit

/-!
# Quoted strings in TOML

A string stands between quotation marks or between apostrophes, and a block of several lines between
three of either. Only marks know escapes: a backslash with a letter, or with the number of a
character in two, four or eight hexadecimal digits. A line break at the start of a block is dropped.
In a block between marks a backslash at the end of a line takes out all blanks and line breaks up to
the next character. A block ends at its first three marks; one or two more of them before the end
are part of it.

No control character but the tab may stand in a string, apart from the line breaks of a block. Each
of the functions here starts after the opening marks and answers the characters of the string with
those after it.
-/
namespace TokenKeeper.Toml.Quotation

abbrev Result := Option (List Char × List Char)

def isPlain (c : Char) : Bool := c == '\t' || (' ' ≤ c && c ≠ '\x7f')

def push (c : Option Char) (after : Result) : Result := do
  let c ← c
  let (body, rest) ← after
  return (c :: body, rest)

def shortEscape? (c : Char) : Option Char :=
  match c with
  | 'b' => some '\x08'
  | 't' => some '\t'
  | 'n' => some '\n'
  | 'f' => some '\x0c'
  | 'r' => some '\r'
  | 'e' => some '\x1b'
  | '"' => some '"'
  | '\\' => some '\\'
  | _ => none

def numbered? (digits : List Char) : Option Char :=
  (Text.hexadecimal? digits).bind fun n => if n.isValidChar then some (Char.ofNat n) else none

def marked? : List Char → Result
  | [] => none
  | c :: cs =>
    if c = '"' then some ([], cs)
    else if c = '\\' then
      match cs with
      | 'x' :: a :: b :: cs => push (numbered? [a, b]) (marked? cs)
      | 'u' :: a :: b :: c :: d :: cs => push (numbered? [a, b, c, d]) (marked? cs)
      | 'U' :: a :: b :: c :: d :: e :: f :: g :: h :: cs =>
        push (numbered? [a, b, c, d, e, f, g, h]) (marked? cs)
      | e :: cs => push (shortEscape? e) (marked? cs)
      | [] => none
    else if isPlain c then push (some c) (marked? cs)
    else none

def literal? : List Char → Result
  | [] => none
  | c :: cs =>
    if c = '\'' then some ([], cs)
    else if isPlain c then push (some c) (literal? cs)
    else none

def closing (mark : Char) (cs : List Char) : List Char × List Char :=
  let more := (cs.take 2).takeWhile (· == mark)
  (more, cs.drop more.length)

def dropBreak : List Char → List Char
  | '\n' :: cs => cs
  | '\r' :: '\n' :: cs => cs
  | cs => cs

def literalBlock? : List Char → Result
  | '\'' :: '\'' :: '\'' :: cs => some (closing '\'' cs)
  | '\r' :: '\n' :: cs => push (some '\r') (push (some '\n') (literalBlock? cs))
  | c :: cs => if isPlain c || c == '\n' then push (some c) (literalBlock? cs) else none
  | [] => none

/-- Where the reader of a block is: in its text, after a backslash at the end of a line, or in the
blanks that are taken out after it. -/
inductive Fold
  | text | toLineEnd | skipping
  deriving DecidableEq

def markedBlock? (fold : Fold) : List Char → Result
  | [] => none
  | c :: cs =>
    let isBreak := c == '\n' || (c == '\r' && cs.head? == some '\n')
    if fold = .toLineEnd then
      if c = ' ' ∨ c = '\t' ∨ c = '\r' ∧ isBreak then markedBlock? .toLineEnd cs
      else if c = '\n' then markedBlock? .skipping cs
      else none
    else if fold = .skipping ∧ (c = ' ' ∨ c = '\t' ∨ isBreak) then markedBlock? .skipping cs
    else if c = '\\' then
      match cs with
      | 'x' :: a :: b :: cs => push (numbered? [a, b]) (markedBlock? .text cs)
      | 'u' :: a :: b :: c :: d :: cs => push (numbered? [a, b, c, d]) (markedBlock? .text cs)
      | 'U' :: a :: b :: c :: d :: e :: f :: g :: h :: cs =>
        push (numbered? [a, b, c, d, e, f, g, h]) (markedBlock? .text cs)
      | e :: cs =>
        if e = ' ' ∨ e = '\t' ∨ e = '\r' ∧ cs.head? = some '\n' then markedBlock? .toLineEnd cs
        else if e = '\n' then markedBlock? .skipping cs
        else push (shortEscape? e) (markedBlock? .text cs)
      | [] => none
    else if c = '"' ∧ cs.take 2 = ['"', '"'] then some (closing '"' (cs.drop 2))
    else if isPlain c || isBreak then push (some c) (markedBlock? .text cs)
    else none

/-- The string that starts here, if one does: its text, whether it is a block, and what follows. The
outer option is none where a string starts but does not end well. -/
def start? : List Char → Option (Option (String × Bool × List Char))
  | '"' :: '"' :: '"' :: cs => block (markedBlock? .text (dropBreak cs))
  | '"' :: cs => line (marked? cs)
  | '\'' :: '\'' :: '\'' :: cs => block (literalBlock? (dropBreak cs))
  | '\'' :: cs => line (literal? cs)
  | _ => some none
where
  block (r : Result) : Option (Option (String × Bool × List Char)) :=
    r.map fun (body, rest) => some (String.ofList body, true, rest)
  line (r : Result) : Option (Option (String × Bool × List Char)) :=
    r.map fun (body, rest) => some (String.ofList body, false, rest)

end TokenKeeper.Toml.Quotation
