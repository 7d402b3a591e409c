import TokenKeeper.Json.Basic
import TokenKeeper.Text.Digit

/-!
# Writing JSON

`compact` puts no blank anywhere. `pretty` gives every item and member a line of its own, indented
by two blanks a level; empty brackets stay together. In strings a quote, a backslash and the control
characters below U+0020 are escaped, and all else stands for itself.
-/
namespace TokenKeeper.Json

def escape (c : Char) : List Char :=
  match c with
  | '"' => ['\\', '"']
  | '\\' => ['\\', '\\']
  | '\x08' => ['\\', 'b']
  | '\x0c' => ['\\', 'f']
  | '\n' => ['\\', 'n']
  | '\r' => ['\\', 'r']
  | '\t' => ['\\', 't']
  | c =>
    if c < ' ' then
      ['\\', 'u', '0', '0', Text.hexDigit (c.toNat / 16), Text.hexDigit (c.toNat % 16)]
    else [c]

def quoted (s : String) : List Char :=
  '"' :: s.toList.flatMap escape ++ ['"']

mutual

def compactChars : Json → List Char
  | .null => "null".toList
  | .bool true => "true".toList
  | .bool false => "false".toList
  | .int n => Text.intChars n
  | .float x => x.text.toList
  | .str s => quoted s
  | .arr [] => ['[', ']']
  | .arr (x :: rest) => '[' :: compactChars x ++ compactItems rest
  | .obj [] => ['\x7b', '\x7d']
  | .obj ((k, x) :: rest) => '\x7b' :: quoted k ++ ':' :: compactChars x ++ compactMembers rest

def compactItems : List Json → List Char
  | [] => [']']
  | x :: rest => ',' :: compactChars x ++ compactItems rest

def compactMembers : List (String × Json) → List Char
  | [] => ['\x7d']
  | (k, x) :: rest => ',' :: quoted k ++ ':' :: compactChars x ++ compactMembers rest

end

def compact (j : Json) : String := String.ofList (compactChars j)

def newLine (level : Nat) : List Char := '\n' :: List.replicate (2 * level) ' '

mutual

def prettyChars (level : Nat) : Json → List Char
  | .null => "null".toList
  | .bool true => "true".toList
  | .bool false => "false".toList
  | .int n => Text.intChars n
  | .float x => x.text.toList
  | .str s => quoted s
  | .arr [] => ['[', ']']
  | .arr (x :: rest) =>
    '[' :: newLine (level + 1) ++ prettyChars (level + 1) x ++ prettyItems level rest
  | .obj [] => ['\x7b', '\x7d']
  | .obj ((k, x) :: rest) =>
    '\x7b' :: newLine (level + 1) ++ quoted k ++ ':' :: ' ' :: prettyChars (level + 1) x
      ++ prettyMembers level rest

def prettyItems (level : Nat) : List Json → List Char
  | [] => newLine level ++ [']']
  | x :: rest => ',' :: newLine (level + 1) ++ prettyChars (level + 1) x ++ prettyItems level rest

def prettyMembers (level : Nat) : List (String × Json) → List Char
  | [] => newLine level ++ ['\x7d']
  | (k, x) :: rest =>
    ',' :: newLine (level + 1) ++ quoted k ++ ':' :: ' ' :: prettyChars (level + 1) x
      ++ prettyMembers level rest

end

def pretty (j : Json) : String := String.ofList (prettyChars 0 j)

end TokenKeeper.Json
