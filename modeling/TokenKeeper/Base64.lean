import TokenKeeper.Text.Utf8

/-!
# Base64

The standard alphabet with `=` as padding. Four symbols carry three bytes; a last group of one or
two bytes is padded to four symbols. Only the canonical writing is read back: the padding must be
there, and the bits that it cuts off must be zero. `Fault` says what is wrong with a text, and
where.
-/
namespace TokenKeeper.Base64

inductive Fault
  | invalidSymbol (symbol : UInt8) (offset : Nat)
  | invalidLength (length : Nat)
  | invalidLastSymbol (symbol : UInt8) (offset : Nat)
  | invalidPadding
  deriving DecidableEq, Repr

def Fault.message : Fault → String
  | .invalidSymbol b n => s!"Invalid symbol {b.toNat}, offset {n}."
  | .invalidLength n => s!"Invalid input length: {n}"
  | .invalidLastSymbol b n => s!"Invalid last symbol {b.toNat}, offset {n}."
  | .invalidPadding => "Invalid padding"

def pad : UInt8 := 61

def symbol (n : Nat) : Char :=
  if n < 26 then Char.ofNat (65 + n)
  else if n < 52 then Char.ofNat (71 + n)
  else if n < 62 then Char.ofNat (n - 4)
  else if n = 62 then '+' else '/'

def value? (b : UInt8) : Option Nat :=
  let n := b.toNat
  if 65 ≤ n ∧ n ≤ 90 then some (n - 65)
  else if 97 ≤ n ∧ n ≤ 122 then some (n - 71)
  else if 48 ≤ n ∧ n ≤ 57 then some (n + 4)
  else if n = 43 then some 62
  else if n = 47 then some 63
  else none

def group (n : Nat) : List Char :=
  [symbol (n / 262144), symbol (n / 4096 % 64), symbol (n / 64 % 64), symbol (n % 64)]

def encodeChars : Bytes → List Char
  | a :: b :: c :: rest =>
    group (a.toNat * 65536 + b.toNat * 256 + c.toNat) ++ encodeChars rest
  | [a, b] => (group (a.toNat * 65536 + b.toNat * 256)).take 3 ++ ['=']
  | [a] => (group (a.toNat * 65536)).take 2 ++ ['=', '=']
  | [] => []

def encode (bytes : Bytes) : String :=
  String.ofList (encodeChars bytes)

def values (offset : Nat) : Bytes → Except Fault (List Nat)
  | [] => .ok []
  | b :: rest =>
    match value? b with
    | none => .error (.invalidSymbol b offset)
    | some n => (values (offset + 1) rest).map (n :: ·)

def threeBytes (w x y z : Nat) : Bytes :=
  [.ofNat (w * 4 + x / 16), .ofNat (x % 16 * 16 + y / 4), .ofNat (y % 4 * 64 + z)]

def decodeLast (offset : Nat) (quad : Bytes) : Except Fault Bytes := do
  let symbols := quad.takeWhile (· != pad)
  let padding := quad.dropWhile (· != pad)
  let numbers ← values offset symbols
  if !padding.isEmpty && (symbols.length < 2 || padding.any (· != pad)) then
    throw (.invalidSymbol pad (offset + symbols.length))
  match numbers, padding.length with
  | [], 0 => return []
  | [_], _ => throw (.invalidLength (offset + 1))
  | [w, x], 2 =>
    if x % 16 ≠ 0 then throw (.invalidLastSymbol (symbols.getD 1 0) (offset + 1))
    return [.ofNat (w * 4 + x / 16)]
  | [w, x, y], 1 =>
    if y % 4 ≠ 0 then throw (.invalidLastSymbol (symbols.getD 2 0) (offset + 2))
    return (threeBytes w x y 0).take 2
  | [w, x, y, z], 0 => return threeBytes w x y z
  | _, _ => throw .invalidPadding

def decodeFrom (offset : Nat) : Bytes → Except Fault Bytes
  | a :: b :: c :: d :: e :: rest => do
    match ← values offset [a, b, c, d] with
    | [w, x, y, z] => return threeBytes w x y z ++ (← decodeFrom (offset + 4) (e :: rest))
    | _ => throw .invalidPadding
  | quad => decodeLast offset quad

/-- A lone last symbol that belongs to no group is reported before anything else, if it is no
symbol of the alphabet: most often it is the line break of a text file. -/
def strayEnd? (bytes : Bytes) : Option Fault :=
  match bytes.getLast? with
  | some b =>
    if bytes.length % 4 = 1 ∧ b ≠ pad ∧ (value? b).isNone then
      some (.invalidSymbol b (bytes.length - 1))
    else none
  | none => none

def decode (text : String) : Except Fault Bytes :=
  let bytes := Utf8.encode text
  match strayEnd? bytes with
  | some f => .error f
  | none => decodeFrom 0 bytes

end TokenKeeper.Base64
