import TokenKeeper.Decimal.Binary64

/-!
# The shortest decimal that reads back

The reals that round to a positive binary number form an interval around it, whose ends belong to it
when the significand is even. Of the decimals in that interval the shortest are those on the
coarsest decimal grid that meets it; `shortest` takes the one nearest to the number. Only the two
grid points around the number need to be looked at, for if any point of a grid lies in the interval,
so does one of these.

`text` is the number as it is written in documents: digits with a point when the first digit has a
decimal place from -5 to 15, and otherwise one digit, a fraction and an exponent of at least two
digits.
-/
namespace TokenKeeper

structure Decimal where
  digits : Nat
  exponent : Int
  deriving DecidableEq, Repr

namespace Decimal

def ratio (d : Decimal) : Nat × Nat :=
  if 0 ≤ d.exponent then (d.digits * Nat.pow 10 d.exponent.toNat, 1)
  else (d.digits, Nat.pow 10 (-d.exponent).toNat)

def strip : Nat → Decimal → Decimal
  | 0, d => d
  | n + 1, d =>
    if d.digits ≠ 0 ∧ d.digits % 10 = 0 then strip n ⟨d.digits / 10, d.exponent + 1⟩ else d

end Decimal

namespace Binary64

/-- The reals that round to a positive number, as three quotients over one denominator: lower end,
the number, upper end. Below a power of two the neighbour is only half as far away. -/
def interval (x : Binary64) : (Nat × Nat × Nat) × Nat :=
  let (num, den) := x.ratio
  let (unit, unitDen) := scaleDown 1 1 (-x.exponent)
  -- a quarter of the distance to the next number above, over the denominator `4 * den * unitDen`
  let quarter := unit * den
  let value := 4 * num * unitDen
  let below :=
    if x.significand = 1 <<< 52 ∧ leastExponent < x.exponent then quarter else 2 * quarter
  ((value - below, value, value + 2 * quarter), 4 * den * unitDen)

def decimalPlace (num den : Nat) : Int :=
  -- the quotient lies between `2 ^ (b - 1)` and `2 ^ (b + 1)`
  let b : Int := (Nat.log2 num : Int) - Nat.log2 den
  let p := Int.fdiv ((b - 1) * 30103) 100000
  let reaches (p : Int) : Bool :=
    if 0 ≤ p then den * Nat.pow 10 p.toNat ≤ num else den ≤ num * Nat.pow 10 (-p).toNat
  if reaches (p + 1) then p + 1 else if reaches p then p else p - 1

/-- The nearer of the two points of the grid `10 ^ exponent` around the number that lie in the
interval, if one does. A tie goes to the even one. -/
def onGrid? (x : Binary64) (exponent : Int) : Option Decimal :=
  let ((low, value, high), den) := x.interval
  -- everything in units of the grid: `k` stands for `k * unit / scale`
  let (unit, scale) :=
    if 0 ≤ exponent then (den * Nat.pow 10 exponent.toNat, 1)
    else (den, Nat.pow 10 (-exponent).toNat)
  let even := x.significand % 2 == 0
  let inside (k : Nat) : Bool :=
    let p := k * unit
    if even then low * scale ≤ p && p ≤ high * scale else low * scale < p && p < high * scale
  let q := value * scale / unit
  let r := value * scale % unit
  let nearer := if 2 * r < unit then q else if unit < 2 * r then q + 1 else q + q % 2
  match inside q, inside (q + 1) with
  | true, true => some ⟨nearer, exponent⟩
  | true, false => some ⟨q, exponent⟩
  | false, true => some ⟨q + 1, exponent⟩
  | false, false => none

def firstOnGrid (x : Binary64) (place : Int) : List Nat → Decimal
  | [] => ⟨0, 0⟩
  | n :: rest =>
    match x.onGrid? (place - n) with
    | some d => d
    | none => firstOnGrid x place rest

def shortest (x : Binary64) : Decimal :=
  if x.isZero then ⟨0, 0⟩
  else
    let (num, den) := x.ratio
    (firstOnGrid x (decimalPlace num den) (List.range 17)).strip 17

def leastPlainPlace : Int := -5

def greatestPlainPlace : Int := 15

def twoDigits (n : Nat) : String :=
  if n < 10 then s!"0{n}" else toString n

def text (x : Binary64) : String :=
  let d := x.shortest
  let digits := (Nat.repr d.digits).toList
  let place : Int := d.exponent + digits.length - 1
  let body :=
    if x.isZero then "0.0".toList
    else if place < leastPlainPlace ∨ greatestPlainPlace < place then
      let fraction := match digits with
        | first :: [] => [first]
        | first :: rest => first :: '.' :: rest
        | [] => []
      let sign := if place < 0 then "-" else "+"
      fraction ++ 'e' :: (sign ++ twoDigits place.natAbs).toList
    else if place < 0 then
      '0' :: '.' :: List.replicate (-place - 1).toNat '0' ++ digits
    else
      let whole := place.toNat + 1
      let padded := digits ++ List.replicate (whole - digits.length) '0'
      let fraction := padded.drop whole
      padded.take whole ++ '.' :: (if fraction.isEmpty then ['0'] else fraction)
  String.ofList (if x.negative then '-' :: body else body)

end Binary64
end TokenKeeper
