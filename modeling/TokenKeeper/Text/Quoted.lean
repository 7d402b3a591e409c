import TokenKeeper.Text.Hidden

/-!
# Quoted text

A text is shown to people between quotes. A quote, a backslash and the common control characters
have short escapes, and hidden characters are shown by their number. In the path of a file an
apostrophe is escaped as well.
-/
namespace TokenKeeper.Text

def hexNumber (n : Nat) : List Char := Nat.toDigits 16 n

def quotedChar (c : Char) : List Char :=
  match c with
  | '\x00' => ['\\', '0']
  | '\t' => ['\\', 't']
  | '\r' => ['\\', 'r']
  | '\n' => ['\\', 'n']
  | '"' => ['\\', '"']
  | '\\' => ['\\', '\\']
  | c => if isHidden c then ['\\', 'u', '\x7b'] ++ hexNumber c.toNat ++ ['\x7d'] else [c]

def quoted (s : String) : String :=
  String.ofList ('"' :: s.toList.flatMap quotedChar ++ ['"'])

def quotedPath (path : String) : String :=
  String.ofList ('"' :: path.toList.flatMap (fun c => if c = '\'' then ['\\', c] else quotedChar c)
    ++ ['"'])

end TokenKeeper.Text
