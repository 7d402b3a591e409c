import TokenKeeper.Json.Spelling

/-!
# Labels and minified text

Two spelled strings are the same label when they spell the same code points up to the first NUL.
Here a surrogate may stand alone, so that every spelled string has its code points. `minified` is
the text of a tree without blanks, in which numbers and strings stay as they were spelled.
-/
namespace TokenKeeper.Json.Spelling

def codePoints : List Piece → List Nat
  | [] => []
  | .gap :: rest => 0xFFFD :: codePoints rest
  | .char c :: rest => c.toNat :: codePoints rest
  | .unit n :: .unit m :: rest =>
    if isHighSurrogate n && isLowSurrogate m then
      (0x10000 + (n - 0xD800) * 0x400 + (m - 0xDC00)) :: codePoints rest
    else n :: codePoints (.unit m :: rest)
  | .unit n :: rest => n :: codePoints rest

def label (spelled : List Glyph) : List Nat := codePoints (pieces spelled)

def labelKey (points : List Nat) : List Nat := points.takeWhile (· != 0)

def sameLabel (a b : List Glyph) : Bool := labelKey (label a) == labelKey (label b)

def members? : Spelling → Option (List (List Glyph × Spelling))
  | .obj ms => some ms
  | _ => none

def glyphChars (spelled : List Glyph) : List Char := spelled.map fun g => g.getD '\uFFFD'

def stringChars (spelled : List Glyph) : List Char := '"' :: glyphChars spelled ++ ['"']

mutual

def minifiedChars : Spelling → List Char
  | .null => "null".toList
  | .bool true => "true".toList
  | .bool false => "false".toList
  | .num spelled => spelled
  | .str spelled => stringChars spelled
  | .arr [] => ['[', ']']
  | .arr (x :: rest) => '[' :: minifiedChars x ++ minifiedItems rest
  | .obj [] => ['\x7b', '\x7d']
  | .obj ((k, x) :: rest) =>
    '\x7b' :: stringChars k ++ ':' :: minifiedChars x ++ minifiedMembers rest

def minifiedItems : List Spelling → List Char
  | [] => [']']
  | x :: rest => ',' :: minifiedChars x ++ minifiedItems rest

def minifiedMembers : List (List Glyph × Spelling) → List Char
  | [] => ['\x7d']
  | (k, x) :: rest => ',' :: stringChars k ++ ':' :: minifiedChars x ++ minifiedMembers rest

end

def minified (s : Spelling) : String := String.ofList (minifiedChars s)

end TokenKeeper.Json.Spelling
