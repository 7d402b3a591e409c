/-!
# Digits

Decimal and hexadecimal digits of the ASCII range, the numbers that runs of them stand for, and
numbers written with a fixed count of digits.
-/
namespace TokenKeeper.Text

def digit? (c : Char) : Option Nat :=
  if '0' ≤ c ∧ c ≤ '9' then some (c.toNat - 48) else none

def isDigit (c : Char) : Bool := (digit? c).isSome

def hexDigit? (c : Char) : Option Nat :=
  if '0' ≤ c ∧ c ≤ '9' then some (c.toNat - 48)
  else if 'a' ≤ c ∧ c ≤ 'f' then some (c.toNat - 87)
  else if 'A' ≤ c ∧ c ≤ 'F' then some (c.toNat - 55)
  else none

def hexDigit (n : Nat) : Char :=
  if n < 10 then Char.ofNat (48 + n) else Char.ofNat (87 + n)

def ofDigits (base : Nat) (digits : List Nat) : Nat :=
  digits.foldl (fun n d => n * base + d) 0

def decimal (cs : List Char) : Nat :=
  ofDigits 10 (cs.map fun c => (digit? c).getD 0)

def hexadecimal? (cs : List Char) : Option Nat :=
  (cs.mapM hexDigit?).map (ofDigits 16)

def natChars (n : Nat) : List Char := Nat.toDigits 10 n

def intChars : Int → List Char
  | .ofNat n => natChars n
  | .negSucc n => '-' :: natChars (n + 1)

def padded (width n : Nat) : List Char :=
  let digits := natChars n
  List.replicate (width - digits.length) '0' ++ digits

def hexOfByte (b : UInt8) : List Char :=
  [hexDigit (b.toNat / 16), hexDigit (b.toNat % 16)]

def hexOfBytes (bytes : List UInt8) : String :=
  String.ofList (bytes.flatMap hexOfByte)

def bytesOfHex? : List Char → Option (List UInt8)
  | [] => some []
  | a :: b :: rest => do
    let h ← hexDigit? a
    let l ← hexDigit? b
    return .ofNat (h * 16 + l) :: (← bytesOfHex? rest)
  | [_] => none

end TokenKeeper.Text
