/-!
# Binary floating point with 53 significant bits

A finite number of the 64-bit binary format is a sign, a significand below `2 ^ 53` and an exponent
of two from -1074 to 971. The significand is at least `2 ^ 52` unless the exponent is the least one,
so that each number has one representation; zero has two, one a sign. `roundRatio` rounds a quotient
of natural numbers to the nearest such number and a tie to the even significand; multiplication and
division round the exact result, and results past the largest number are none.
-/
namespace TokenKeeper

structure Binary64 where
  negative : Bool
  significand : Nat
  exponent : Int
  deriving DecidableEq, Repr

namespace Binary64

def leastExponent : Int := -1074

def greatestExponent : Int := 971

def zero (negative : Bool) : Binary64 := ⟨negative, 0, leastExponent⟩

def isZero (x : Binary64) : Bool := x.significand == 0

def scaleDown (num den : Nat) (e : Int) : Nat × Nat :=
  if 0 ≤ e then (num, den <<< e.toNat) else (num <<< (-e).toNat, den)

def roundHalfEven (num den : Nat) : Nat :=
  let q := num / den
  let r := num % den
  if 2 * r < den then q else if den < 2 * r then q + 1 else q + q % 2

/-- The exponent at which a positive quotient has a significand of 53 bits, or the least
exponent. -/
def exponentOf (num den : Nat) : Int :=
  let e : Int := (Nat.log2 num : Int) - Nat.log2 den - 52
  let (n, d) := scaleDown num den e
  max (if n < d <<< 52 then e - 1 else e) leastExponent

def roundRatio (num den : Nat) : Option (Nat × Int) :=
  if num = 0 then some (0, leastExponent)
  else
    let e := exponentOf num den
    let (n, d) := scaleDown num den e
    let m := roundHalfEven n d
    let (m, e) := if m = 1 <<< 53 then (1 <<< 52, e + 1) else (m, e)
    if e ≤ greatestExponent then some (m, e) else none

def ofRatio? (negative : Bool) (num den : Nat) : Option Binary64 :=
  (roundRatio num den).map fun (m, e) => ⟨negative, m, e⟩

def ofNat? (n : Nat) : Option Binary64 := ofRatio? false n 1

def ratio (x : Binary64) : Nat × Nat := scaleDown x.significand 1 (-x.exponent)

def neg (x : Binary64) : Binary64 := { x with negative := !x.negative }

def mul? (x y : Binary64) : Option Binary64 :=
  let (a, b) := x.ratio
  let (c, d) := y.ratio
  ofRatio? (x.negative != y.negative) (a * c) (b * d)

def div? (x y : Binary64) : Option Binary64 :=
  let (a, b) := x.ratio
  let (c, d) := y.ratio
  if c = 0 then none else ofRatio? (x.negative != y.negative) (a * d) (b * c)

def sameNumber (x y : Binary64) : Bool :=
  x == y || (x.isZero && y.isZero)

def equalsInt (x : Binary64) (n : Int) : Bool :=
  let (a, b) := x.ratio
  (if x.negative then -(a : Int) else a) == n * b

@[simp] theorem roundHalfEven_one (n : Nat) : roundHalfEven n 1 = n := by
  simp [roundHalfEven, Nat.mod_one]

end Binary64
end TokenKeeper
