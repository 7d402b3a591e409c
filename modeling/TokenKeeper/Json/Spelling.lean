import TokenKeeper.Json.Basic
import TokenKeeper.Json.Token

/-!
# JSON text as a tree

`Spelling` is the tree of a well-formed JSON text with its numbers and strings as they are spelled,
its members in the order of the text, and repeated keys kept. It exists for every text that obeys
the grammar, however deeply nested, and also where a number is too large or a string spells no text.
`Spelling.json?` is the value it stands for, if it stands for one.

The tree is built from the tokens in one pass over a stack of open lists and member lists.
-/
namespace TokenKeeper.Json

inductive Spelling
  | null
  | bool (b : Bool)
  | num (spelled : List Char)
  | str (spelled : List Glyph)
  | arr (items : List Spelling)
  | obj (members : List (List Glyph × Spelling))
  deriving Inhabited

namespace Spelling

inductive Frame
  | list (done : List Spelling)
  | members (done : List (List Glyph × Spelling)) (key : List Glyph)

inductive Stage
  | value (stack : List Frame)
  | itemOrEnd (stack : List Frame)
  | keyOrEnd (stack : List Frame)
  | key (done : List (List Glyph × Spelling)) (stack : List Frame)
  | colon (done : List (List Glyph × Spelling)) (key : List Glyph) (stack : List Frame)
  | after (value : Spelling) (stack : List Frame)

def Stage.begin (stack : List Frame) : Token → Option Stage
  | .null => some (.after .null stack)
  | .bool b => some (.after (.bool b) stack)
  | .num text => some (.after (.num text) stack)
  | .str text => some (.after (.str text) stack)
  | .openList => some (.itemOrEnd stack)
  | .openMembers => some (.keyOrEnd stack)
  | _ => none

def Stage.next : Stage → Token → Option Stage
  | .value stack, t => begin stack t
  | .itemOrEnd stack, .closeList => some (.after (.arr []) stack)
  | .itemOrEnd stack, t => begin (.list [] :: stack) t
  | .keyOrEnd stack, .closeMembers => some (.after (.obj []) stack)
  | .keyOrEnd stack, .str k => some (.colon [] k stack)
  | .key done stack, .str k => some (.colon done k stack)
  | .colon done k stack, .colon => some (.value (.members done k :: stack))
  | .after v (.list done :: stack), .comma => some (.value (.list (v :: done) :: stack))
  | .after v (.list done :: stack), .closeList => some (.after (.arr (v :: done).reverse) stack)
  | .after v (.members done k :: stack), .comma => some (.key ((k, v) :: done) stack)
  | .after v (.members done k :: stack), .closeMembers =>
    some (.after (.obj ((k, v) :: done).reverse) stack)
  | _, _ => none

def Stage.result? : Stage → Option Spelling
  | .after v [] => some v
  | _ => none

def ofTokens? (tokens : List Token) : Option Spelling :=
  (tokens.foldlM Stage.next (.value [])).bind Stage.result?

def ofGlyphs? (gs : List Glyph) : Option Spelling :=
  (Token.scan gs).bind ofTokens?

def ofText? (text : String) : Option Spelling :=
  ofGlyphs? (text.toList.map some)

def ofBytes? (bytes : Bytes) : Option Spelling :=
  ofGlyphs? (Utf8.glyphs bytes)

inductive Piece
  | char (c : Char)
  | unit (n : Nat)
  | gap

def shortEscape (c : Char) : Char :=
  match c with
  | 'b' => '\x08'
  | 'f' => '\x0c'
  | 'n' => '\n'
  | 'r' => '\r'
  | 't' => '\t'
  | c => c

def hexOf (gs : List Glyph) : Nat :=
  Text.ofDigits 16 (gs.map fun g => (g.bind Text.hexDigit?).getD 0)

def pieces : List Glyph → List Piece
  | [] => []
  | none :: rest => .gap :: pieces rest
  | some c :: rest =>
    if c = '\\' then
      match rest with
      | some 'u' :: a :: b :: c' :: d :: rest => .unit (hexOf [a, b, c', d]) :: pieces rest
      | some e :: rest => .char (shortEscape e) :: pieces rest
      | none :: rest => .gap :: pieces rest
      | [] => [.gap]
    else .char c :: pieces rest

def isHighSurrogate (n : Nat) : Bool := 0xD800 ≤ n && n ≤ 0xDBFF

def isLowSurrogate (n : Nat) : Bool := 0xDC00 ≤ n && n ≤ 0xDFFF

/-- The characters of the parts: two surrogates in order make one, and none stands alone. -/
def characters? : List Piece → Option (List Char)
  | [] => some []
  | .gap :: _ => none
  | .char c :: rest => (characters? rest).map (c :: ·)
  | .unit n :: rest =>
    if isHighSurrogate n then
      match rest with
      | .unit m :: rest =>
        if isLowSurrogate m then
          (characters? rest).map (Char.ofNat (0x10000 + (n - 0xD800) * 0x400 + (m - 0xDC00)) :: ·)
        else none
      | _ => none
    else if isLowSurrogate n then none
    else (characters? rest).map (Char.ofNat n :: ·)

def text? (spelled : List Glyph) : Option String :=
  (characters? (pieces spelled)).map String.ofList

end Spelling
end TokenKeeper.Json
