import TokenKeeper.Text.Blank
import TokenKeeper.Text.Digit
import TokenKeeper.Time.Calendar
import TokenKeeper.Time.Instant

/-!
# Timestamps

An instant is written as date, `T`, time of day and zone. The fraction has no digit, or three, six
or nine, as few as say it exactly. A year outside 0 to 9999 has a sign; a leap second is second 60.

The reader takes more than the writer writes: blanks around the parts, signed years, fields of one
digit, a blank or a small `t` before the time, any count of fraction digits (those after the ninth
are dropped), and any zone that is less than a day off. `read?` is none where the text is no
timestamp, and where the instant or its local date lies outside the range.
-/
namespace TokenKeeper.Timestamp

open Text

/-! ### Writing -/

def yearChars (y : Int) : List Char :=
  if 0 ≤ y ∧ y ≤ 9999 then padded 4 y.toNat
  else (if y < 0 then '-' else '+') :: padded 4 y.natAbs

def fractionChars (nanos : Nat) : List Char :=
  if nanos = 0 then []
  else if nanos % 1000000 = 0 then '.' :: padded 3 (nanos / 1000000)
  else if nanos % 1000 = 0 then '.' :: padded 6 (nanos / 1000)
  else '.' :: padded 9 nanos

def dateChars (d : Date) : List Char :=
  yearChars d.year ++ '-' :: padded 2 d.month ++ '-' :: padded 2 d.day

def timeChars (secondOfDay : Nat) (nanos : Nat) : List Char :=
  let leap := if nanosPerSecond ≤ nanos then 1 else 0
  padded 2 (secondOfDay / 3600) ++ ':' :: padded 2 (secondOfDay / 60 % 60)
    ++ ':' :: padded 2 (secondOfDay % 60 + leap) ++ fractionChars (nanos % nanosPerSecond)

def secondsPerDay : Int := 86400

def localChars (t : Instant) : List Char :=
  dateChars (Date.ofDayNumber (t.seconds / secondsPerDay + Date.epochDay))
    ++ 'T' :: timeChars (t.seconds % secondsPerDay).toNat t.nanos

def text (t : Instant) : String := String.ofList (localChars t ++ ['Z'])

def offsetText (t : Instant) : String := String.ofList (localChars t ++ "+00:00".toList)

/-! ### Reading -/

def skipBlanks (cs : List Char) : List Char := cs.dropWhile isBlank

def digitsUpTo (width : Nat) (cs : List Char) : Option (Nat × List Char) :=
  let ds := (cs.take width).takeWhile isDigit
  if ds.isEmpty then none else some (decimal ds, cs.drop ds.length)

def field? (least greatest : Nat) (cs : List Char) : Option (Nat × List Char) := do
  let (n, rest) ← digitsUpTo 2 (skipBlanks cs)
  if least ≤ n ∧ n ≤ greatest then some (n, rest) else none

def drop? (c : Char) : List Char → Option (List Char)
  | d :: rest => if c = d then some rest else none
  | [] => none

def year? (cs : List Char) : Option (Int × List Char) :=
  match skipBlanks cs with
  | '-' :: cs => (digitsUpTo cs.length cs).map fun (n, rest) => (-(n : Int), rest)
  | '+' :: cs => (digitsUpTo cs.length cs).map fun (n, rest) => ((n : Int), rest)
  | cs => (digitsUpTo 4 cs).map fun (n, rest) => ((n : Int), rest)

def date? (cs : List Char) : Option (Date × List Char) := do
  let (year, cs) ← year? cs
  let (month, cs) ← field? 1 12 (← drop? '-' (skipBlanks cs))
  let (day, cs) ← field? 1 31 (← drop? '-' (skipBlanks cs))
  return (⟨year, month, day⟩, cs)

def fraction? : List Char → Option (Nat × List Char)
  | '.' :: cs =>
    let ds := cs.takeWhile isDigit
    if ds.isEmpty then none
    else
      let used := ds.take 9
      some (decimal used * Nat.pow 10 (9 - used.length), cs.drop ds.length)
  | cs => some (0, cs)

def time? (cs : List Char) : Option ((Nat × Nat) × List Char) := do
  let (hour, cs) ← field? 0 23 cs
  let (minute, cs) ← field? 0 59 (← drop? ':' (skipBlanks cs))
  let (second, cs) ← field? 0 60 (← drop? ':' (skipBlanks cs))
  let (nanos, cs) ← fraction? cs
  let whole := hour * 3600 + minute * 60
  return (if second = 60 then (whole + 59, nanos + nanosPerSecond) else (whole + second, nanos), cs)

def twoDigits? (greatestFirst : Nat) : List Char → Option (Nat × List Char)
  | a :: b :: rest => do
    let x ← digit? a
    let y ← digit? b
    if x ≤ greatestFirst then some (x * 10 + y, rest) else none
  | _ => none

def offset? (cs : List Char) : Option (Nat × List Char) := do
  let (hours, cs) ← twoDigits? 9 cs
  let (minutes, cs) ← twoDigits? 5 (cs.dropWhile fun c => c == ':' || isBlank c)
  return (hours * 3600 + minutes * 60, cs)

def zone? (cs : List Char) : Option (Int × List Char) :=
  match cs with
  | 'Z' :: rest => some (0, rest)
  | 'z' :: rest => some (0, rest)
  | '+' :: rest => (offset? rest).map fun (n, rest) => ((n : Int), rest)
  | '-' :: rest => (offset? rest).map fun (n, rest) => (-(n : Int), rest)
  | '\u2212' :: rest => (offset? rest).map fun (n, rest) => (-(n : Int), rest)
  | u :: t :: c :: rest =>
    if u.toUpper = 'U' ∧ t.toUpper = 'T' ∧ c.toUpper = 'C' then some (0, rest) else none
  | _ => none

def isYearInRange (y : Int) : Bool := -262143 ≤ y && y ≤ 262142

def read? (s : String) : Option Instant := do
  let (date, cs) ← date? s.toList
  let cs ← match cs with
    | c :: rest => if c = 'T' ∨ c = 't' ∨ c = ' ' then some rest else none
    | [] => none
  let ((secondOfDay, nanos), cs) ← time? cs
  let (offset, cs) ← zone? (skipBlanks cs)
  if (skipBlanks cs).isEmpty ∧ offset.natAbs < 86400 ∧ date.isValid ∧ isYearInRange date.year then
    Instant.of? ((date.dayNumber - Date.epochDay) * secondsPerDay + secondOfDay - offset) nanos
  else none

end TokenKeeper.Timestamp
