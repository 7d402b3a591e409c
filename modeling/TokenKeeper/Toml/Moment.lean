import TokenKeeper.Text.Digit
import TokenKeeper.Time.Calendar

/-!
# Dates and times in TOML

A moment is a date, a time of day, or a date with a time after a `T` or a blank, and then perhaps a
zone. Every field has its full count of digits and lies within its bounds; second 60 is within them.
The seconds may be left out, and a fraction has one digit or more.
-/
namespace TokenKeeper.Toml.Moment

open Text

def digits? (count : Nat) (cs : List Char) : Option (Nat × List Char) :=
  let field := cs.take count
  if field.length = count ∧ field.all isDigit then some (decimal field, cs.drop count) else none

def field? (greatest : Nat) (cs : List Char) : Option (List Char) := do
  let (n, rest) ← digits? 2 cs
  if n ≤ greatest then some rest else none

def drop? (c : Char) : List Char → Option (List Char)
  | d :: rest => if c = d then some rest else none
  | [] => none

def date? (cs : List Char) : Option (List Char) := do
  let (year, cs) ← digits? 4 cs
  let (month, cs) ← digits? 2 (← drop? '-' cs)
  let (day, cs) ← digits? 2 (← drop? '-' cs)
  if Date.isValid ⟨year, month, day⟩ then some cs else none

def fraction? : List Char → Option (List Char)
  | '.' :: cs => if (cs.takeWhile isDigit).isEmpty then none else some (cs.dropWhile isDigit)
  | cs => some cs

def time? (cs : List Char) : Option (List Char) := do
  match ← field? 59 (← drop? ':' (← field? 23 cs)) with
  | ':' :: cs => fraction? (← field? 60 cs)
  | cs => some cs

def isZone : List Char → Bool
  | [] => true
  | [c] => c == 'Z' || c == 'z'
  | c :: cs =>
    (c == '+' || c == '-')
      && ((field? 23 cs).bind (drop? ':')).bind (field? 59) == some []

def isMoment (cs : List Char) : Bool :=
  match date? cs with
  | some [] => true
  | some (c :: cs) =>
    (c == 'T' || c == 't' || c == ' ')
      && match time? cs with
        | some rest => isZone rest
        | none => false
  | none => time? cs == some []

def isDateShaped (cs : List Char) : Bool :=
  cs.length == 10 && cs.zipIdx.all fun (c, i) => if i == 4 || i == 7 then c == '-' else isDigit c

end TokenKeeper.Toml.Moment
