import TokenKeeper.Time.Calendar

/-!
# The date of a day

`Date.ofDayNumber` finds a date that exists, and the days before it are those it was found by. The
guess from the mean length of a year is wrong by at most one year, because the leap days before a
year differ from their mean by less than two days.
-/
namespace TokenKeeper.Date

theorem daysBeforeYear_le {y z : Int} (h : y ≤ z) : daysBeforeYear y ≤ daysBeforeYear z := by
  unfold daysBeforeYear
  by_cases he : y = z
  · subst he; omega
  · omega

theorem yearOf_bounds (n : Int) :
    daysBeforeYear (yearOf n) ≤ n ∧ n < daysBeforeYear (yearOf n + 1) := by
  have hguess : 146097 * (n * 400 / 146097) ≤ 400 * n ∧
      400 * n < 146097 * (n * 400 / 146097) + 146097 := by omega
  unfold yearOf
  generalize n * 400 / 146097 = y at hguess
  have hlow : daysBeforeYear (y - 1) ≤ n := by unfold daysBeforeYear; omega
  have hhigh : n < daysBeforeYear (y + 2) := by unfold daysBeforeYear; omega
  simp only []
  split
  · next h =>
    rw [Int.sub_add_cancel]
    exact ⟨hlow, h⟩
  · split
    · next h h' =>
      have : y + 1 + 1 = y + 2 := by omega
      rw [this]
      exact ⟨h', hhigh⟩
    · next h h' => exact ⟨by omega, by omega⟩

theorem dayOfYear_lt (n : Int) :
    (n - daysBeforeYear (yearOf n)).toNat < if isLeapYear (yearOf n) then 366 else 365 := by
  obtain ⟨hlow, hhigh⟩ := yearOf_bounds n
  rw [daysBeforeYear_succ] at hhigh
  split
  · next h => rw [if_pos h] at hhigh; omega
  · next h => rw [if_neg h] at hhigh; omega

def FallsIn (leap : Bool) (d month : Nat) : Prop :=
  1 ≤ month ∧ month ≤ 12 ∧ daysBeforeMonth leap month ≤ d ∧ d < daysBeforeMonth leap (month + 1)

theorem fallsIn_ite {leap : Bool} {d m rest : Nat} (hm : 1 ≤ m ∧ m ≤ 12)
    (hfirst : daysBeforeMonth leap m ≤ d)
    (hrest : daysBeforeMonth leap (m + 1) ≤ d → FallsIn leap d rest) :
    FallsIn leap d (if d < daysBeforeMonth leap (m + 1) then m else rest) := by
  by_cases hd : d < daysBeforeMonth leap (m + 1)
  · rw [if_pos hd]
    exact ⟨hm.1, hm.2, hfirst, hd⟩
  · rw [if_neg hd]
    exact hrest (Nat.not_lt.mp hd)

theorem monthOf_bounds {leap : Bool} {d : Nat} (h : d < if leap then 366 else 365) :
    FallsIn leap d (monthOf leap d) := by
  have hend : d < daysBeforeMonth leap 13 := by
    cases leap <;> simp only [daysBeforeMonth] at h ⊢ <;> simpa using h
  unfold monthOf
  apply fallsIn_ite (by decide) (Nat.zero_le d)
  intro h2
  apply fallsIn_ite (by decide) h2
  intro h3
  apply fallsIn_ite (by decide) h3
  intro h4
  apply fallsIn_ite (by decide) h4
  intro h5
  apply fallsIn_ite (by decide) h5
  intro h6
  apply fallsIn_ite (by decide) h6
  intro h7
  apply fallsIn_ite (by decide) h7
  intro h8
  apply fallsIn_ite (by decide) h8
  intro h9
  apply fallsIn_ite (by decide) h9
  intro h10
  apply fallsIn_ite (by decide) h10
  intro h11
  apply fallsIn_ite (by decide) h11
  intro h12
  exact ⟨by decide, by decide, h12, hend⟩

theorem daysInMonth_le (leap : Bool) {month : Nat} (h1 : 1 ≤ month) (h12 : month ≤ 12) :
    daysInMonth leap month ≤ 31 := by
  have hall : ∀ leap : Bool, ∀ m < 13, 1 ≤ m → daysInMonth leap m ≤ 31 := by decide
  exact hall leap month (by omega) h1

theorem dayNumber_ofDayNumber (n : Int) : dayNumber (ofDayNumber n) = n := by
  obtain ⟨hlow, hhigh⟩ := yearOf_bounds n
  obtain ⟨h1, h12, hm, hm'⟩ := monthOf_bounds (dayOfYear_lt n)
  unfold ofDayNumber dayNumber
  simp only []
  omega

theorem isValid_ofDayNumber (n : Int) : (ofDayNumber n).isValid = true := by
  obtain ⟨h1, h12, hm, hm'⟩ := monthOf_bounds (dayOfYear_lt n)
  unfold ofDayNumber isValid daysInMonth
  simp only [Bool.and_eq_true, decide_eq_true_eq]
  omega

theorem year_ofDayNumber {n first last : Int} (hfirst : daysBeforeYear first ≤ n)
    (hlast : n < daysBeforeYear (last + 1)) :
    first ≤ (ofDayNumber n).year ∧ (ofDayNumber n).year ≤ last := by
  obtain ⟨hlow, hhigh⟩ := yearOf_bounds n
  show first ≤ yearOf n ∧ yearOf n ≤ last
  constructor
  · apply Int.not_lt.mp
    intro h
    have := daysBeforeYear_le (show yearOf n + 1 ≤ first by omega)
    omega
  · apply Int.not_lt.mp
    intro h
    have := daysBeforeYear_le (show last + 1 ≤ yearOf n by omega)
    omega

end TokenKeeper.Date
