import TokenKeeper.Json.Basic
import TokenKeeper.Text.Digit

/-!
# Numbers in JSON text

A number without point and exponent that fits 64 bits, signed or unsigned, is an integer. All others
are floating-point numbers, minus zero among them. Their digits are gathered into a 64-bit
significand for as long as they fit; whole digits that no longer fit raise the exponent, and further
digits of the fraction are dropped. The significand is rounded, and then multiplied or divided by a
rounded power of ten, so the last bit may differ from that of the nearest number. A number that is
too large has no value.
-/
namespace TokenKeeper.Json

def maxUnsigned : Nat := 0xFFFFFFFFFFFFFFFF

structure Numeral where
  negative : Bool
  whole : List Nat
  fraction : Option (List Nat)
  exponent : Option Int

def digitValues (cs : List Char) : List Nat :=
  cs.map fun c => (Text.digit? c).getD 0

def exponentOf : List Char → Int
  | '-' :: ds => -(Text.decimal ds : Int)
  | '+' :: ds => Text.decimal ds
  | ds => Text.decimal ds

def Numeral.ofChars (cs : List Char) : Numeral :=
  let negative := cs.head? == some '-'
  let cs := if negative then cs.tail else cs
  let whole := cs.takeWhile Text.isDigit
  let cs := cs.dropWhile Text.isDigit
  let (fraction, cs) := match cs with
    | '.' :: rest => (some (rest.takeWhile Text.isDigit), rest.dropWhile Text.isDigit)
    | cs => (none, cs)
  let exponent := match cs with
    | _ :: rest => some (exponentOf rest)
    | [] => none
  ⟨negative, digitValues whole, fraction.map digitValues, exponent⟩

def gather : Nat → List Nat → Nat × List Nat
  | n, [] => (n, [])
  | n, d :: ds => if n * 10 + d ≤ maxUnsigned then gather (n * 10 + d) ds else (n, d :: ds)

def greatestPower : Nat := 308

def powerOfTen (n : Nat) : Binary64 :=
  (Binary64.ofNat? (Nat.pow 10 n)).getD (.zero false)

/-- Divides by a power of ten, by the largest one as long as the rest is larger. -/
def divideByPower (x : Binary64) (n : Nat) : Option Binary64 :=
  if n ≤ greatestPower then x.div? (powerOfTen n)
  else if x.isZero then some x
  else do divideByPower (← x.div? (powerOfTen greatestPower)) (n - greatestPower)
termination_by n
decreasing_by simp_all [greatestPower]; omega

def scale? (significand : Nat) (exponent : Int) : Option Binary64 := do
  let x ← Binary64.ofNat? significand
  if exponent < 0 then divideByPower x (-exponent).toNat
  else if exponent.toNat ≤ greatestPower then x.mul? (powerOfTen exponent.toNat)
  else if x.isZero then some x
  else none

def Numeral.float? (n : Numeral) : Option Binary64 :=
  let (significand, wholeLeft) := gather 0 n.whole
  let fraction := n.fraction.getD []
  let (significand, fractionLeft) := gather significand fraction
  let places : Int := wholeLeft.length - (fraction.length - fractionLeft.length : Nat)
  let written := n.exponent.getD 0
  let magnitude :=
    if written.natAbs ≤ 0x7FFFFFFF then scale? significand (places + written)
    else if significand = 0 ∨ written < 0 then some (.zero false)
    else none
  magnitude.map fun x => if n.negative then x.neg else x

def Numeral.int? (n : Numeral) : Option Int :=
  if n.fraction.isSome ∨ n.exponent.isSome then none
  else
    let m := Text.ofDigits 10 n.whole
    if n.negative then if m = 0 ∨ 1 <<< 63 < m then none else some (-(m : Int))
    else if m ≤ maxUnsigned then some m else none

def ofNumber? (spelled : List Char) : Option Json :=
  let n := Numeral.ofChars spelled
  match n.int? with
  | some i => some (.int i)
  | none => n.float?.map .float

end TokenKeeper.Json
