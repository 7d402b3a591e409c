import TokenKeeper.Text.Digit
import TokenKeeper.Text.Utf8

/-!
# Form bodies

A form is a list of fields in order. Its body writes each field as name and value with `=` between
them and joins the fields by `&`. Letters, digits and four marks stand for themselves, a blank is
written as `+`, and every other byte of a text as a percent sign and two hexadecimal digits.
-/
namespace TokenKeeper

abbrev Form := List (String × String)

namespace Form

def isPlain (b : UInt8) : Bool :=
  (48 ≤ b && b ≤ 57) || (65 ≤ b && b ≤ 90) || (97 ≤ b && b ≤ 122)
    || b == 42 || b == 45 || b == 46 || b == 95

def encodeByte (b : UInt8) : List Char :=
  if isPlain b then [Char.ofNat b.toNat]
  else if b = 32 then ['+']
  else '%' :: (Text.hexOfByte b).map Char.toUpper

def encodeText (s : String) : List Char := (Utf8.encode s).flatMap encodeByte

def encodeField (field : String × String) : List Char :=
  encodeText field.1 ++ '=' :: encodeText field.2

def encodeFields : Form → List Char
  | [] => []
  | [field] => encodeField field
  | field :: rest => encodeField field ++ '&' :: encodeFields rest

def body (form : Form) : String := String.ofList (encodeFields form)

end Form
end TokenKeeper
