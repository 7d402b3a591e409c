/-!
# Instants

An instant is a count of seconds from the start of 1970 and of nanoseconds within the second, in
UTC. The years run from -262143 to 262142. A leap second is the last second of a minute with a
thousand million nanoseconds or more. Instants are ordered by second and then by nanosecond.

`add?` moves an instant by nanoseconds and has no result past the ends of the range. What a move is
made by is a `Shift`, and not every number of seconds is one.
-/
namespace TokenKeeper

abbrev nanosPerSecond : Nat := 1000000000

abbrev leastSecond : Int := -8334601228800

abbrev greatestSecond : Int := 8210266876799

structure Instant where
  seconds : Int
  nanos : Nat
  seconds_ge : leastSecond ≤ seconds
  seconds_le : seconds ≤ greatestSecond
  nanos_lt : nanos < 2 * nanosPerSecond
  leap_last : nanosPerSecond ≤ nanos → seconds % 60 = 59
  deriving DecidableEq

structure Span where
  seconds : Nat
  nanos : Nat
  deriving DecidableEq, Repr

def Span.zero : Span := ⟨0, 0⟩

def Span.total (s : Span) : Nat := nanosPerSecond * s.seconds + s.nanos

/-- Nanoseconds of the longest shift, which is `2 ^ 63 - 1` milliseconds. -/
abbrev longestShift : Nat := 9223372036854775807000000

structure Shift where
  nanos : Int
  natAbs_le : nanos.natAbs ≤ longestShift
  deriving DecidableEq

namespace Shift

def of? (nanos : Int) : Option Shift :=
  if h : nanos.natAbs ≤ longestShift then some ⟨nanos, h⟩ else none

def ofSeconds? (n : Int64) : Option Shift := of? (n.toInt * nanosPerSecond)

def ofSpan? (s : Span) : Option Shift := of? s.total

end Shift

namespace Instant

def of? (seconds : Int) (nanos : Nat) : Option Instant :=
  if h : leastSecond ≤ seconds ∧ seconds ≤ greatestSecond ∧ nanos < 2 * nanosPerSecond
      ∧ (nanosPerSecond ≤ nanos → seconds % 60 = 59) then
    some ⟨seconds, nanos, h.1, h.2.1, h.2.2.1, h.2.2.2⟩
  else none

def epoch : Instant := ⟨0, 0, by decide, by decide, by decide, by decide⟩

def total (t : Instant) : Int := t.seconds * nanosPerSecond + t.nanos

def ofTotal? (n : Int) : Option Instant :=
  of? (n / nanosPerSecond) (n % nanosPerSecond).toNat

def isLeap (t : Instant) : Bool := nanosPerSecond ≤ t.nanos

/-- The instant so many nanoseconds later or earlier. From a leap second the move goes within it,
or from the second before it forwards, or from the second after it back. -/
def add? (t : Instant) (delta : Int) : Option Instant :=
  if t.isLeap = false ∨ delta ≤ -(nanosPerSecond : Int) then ofTotal? (t.total + delta)
  else if t.nanos + delta < 2 * nanosPerSecond then of? t.seconds (t.nanos + delta).toNat
  else ofTotal? (t.total + delta - nanosPerSecond)

def addSeconds? (t : Instant) (n : Int) : Option Instant := t.add? (n * nanosPerSecond)

def shift? (t : Instant) (s : Shift) : Option Instant := t.add? s.nanos

def before (t u : Instant) : Bool :=
  t.seconds < u.seconds || (t.seconds == u.seconds && t.nanos < u.nanos)

theorem ext_iff_fields {t u : Instant} :
    t = u ↔ t.seconds = u.seconds ∧ t.nanos = u.nanos := by
  cases t; cases u; simp

theorem before_irrefl (t : Instant) : t.before t = false := by simp [before]

theorem before_iff {t u : Instant} :
    t.before u = true ↔ t.seconds < u.seconds ∨ (t.seconds = u.seconds ∧ t.nanos < u.nanos) := by
  simp [before]

theorem of?_self (t : Instant) : of? t.seconds t.nanos = some t := by
  have h : leastSecond ≤ t.seconds ∧ t.seconds ≤ greatestSecond ∧ t.nanos < 2 * nanosPerSecond
      ∧ (nanosPerSecond ≤ t.nanos → t.seconds % 60 = 59) :=
    ⟨t.seconds_ge, t.seconds_le, t.nanos_lt, t.leap_last⟩
  unfold of?
  rw [dif_pos h]

end Instant
end TokenKeeper
