import TokenKeeper.Decimal.Binary64
import TokenKeeper.Toml.Basic
import TokenKeeper.Toml.Moment

/-!
# Words in the place of a value

A word without quotes is a boolean, a number or a moment. Digits may be grouped by underscores, each
of them between two digits. A whole number has a sign or none and no zero in front, or it is written
without a sign in base 16, 8 or 2; it has to fit 128 bits. A real has a fraction or an exponent or
is one of the two words `inf` and `nan`, and must not be larger than the largest 64-bit number.
-/
namespace TokenKeeper.Toml.Scalar

open Text

def grouped? (isDigit : Char → Bool) (cs : List Char) : Option (List Char) :=
  let groups := cs.splitOn '_'
  if groups.all fun g => !g.isEmpty && g.all isDigit then some groups.flatten else none

def whole? (cs : List Char) : Option (List Char) :=
  match grouped? isDigit cs with
  | some ('0' :: _ :: _) => none
  | ds => ds

def signed (cs : List Char) : Bool × List Char :=
  match cs with
  | '-' :: rest => (true, rest)
  | '+' :: rest => (false, rest)
  | cs => (false, cs)

def applySign (negative : Bool) (n : Nat) : Int := if negative then -(n : Int) else n

def inBase? (base : Nat) (cs : List Char) : Option Nat :=
  (grouped? (fun c => (hexDigit? c).any (· < base)) cs).bind fun ds =>
    (ds.mapM hexDigit?).map (ofDigits base)

def fitsInteger (n : Int) : Bool := -(1 <<< 127 : Nat) ≤ n && n < (1 <<< 128 : Nat)

def integer? : List Char → Option Int
  | '0' :: 'x' :: cs => (inBase? 16 cs).map Int.ofNat
  | '0' :: 'o' :: cs => (inBase? 8 cs).map Int.ofNat
  | '0' :: 'b' :: cs => (inBase? 2 cs).map Int.ofNat
  | cs =>
    let (negative, cs) := signed cs
    (whole? cs).map fun ds => applySign negative (decimal ds)

def hugeExponent : Int := 400

def fitsReal (digits : List Char) (exponent : Int) : Bool :=
  let significand := decimal digits
  if significand = 0 ∨ exponent + digits.length < 0 then true
  else if hugeExponent ≤ exponent then false
  else if exponent < 0 then (Binary64.roundRatio significand (Nat.pow 10 exponent.natAbs)).isSome
  else (Binary64.roundRatio (significand * Nat.pow 10 exponent.natAbs) 1).isSome

def fraction? : List Char → Option (List Char)
  | [] => some []
  | _ :: cs => grouped? isDigit cs

def exponent? : List Char → Option Int
  | [] => some 0
  | _ :: cs =>
    let (negative, cs) := signed cs
    (grouped? isDigit cs).map fun ds => applySign negative (decimal ds)

def isReal (cs : List Char) : Bool :=
  let (_, cs) := signed cs
  if cs = ['i', 'n', 'f'] ∨ cs = ['n', 'a', 'n'] then true
  else
    let isExponent (c : Char) : Bool := c == 'e' || c == 'E'
    let mantissa := cs.takeWhile fun c => !isExponent c
    let power := cs.dropWhile fun c => !isExponent c
    match whole? (mantissa.takeWhile (· != '.')), fraction? (mantissa.dropWhile (· != '.')),
        exponent? power with
    | some w, some f, some e => fitsReal (w ++ f) (e - f.length)
    | _, _, _ => false

def ofChars? (cs : List Char) : Option Value :=
  if cs = ['t', 'r', 'u', 'e'] then some (.boolean true)
  else if cs = ['f', 'a', 'l', 's', 'e'] then some (.boolean false)
  else
    match integer? cs with
    | some n => if fitsInteger n then some (.integer n) else none
    | none =>
      if isReal cs then some .real
      else if Moment.isMoment cs then some .moment
      else none

end TokenKeeper.Toml.Scalar
