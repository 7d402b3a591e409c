import TokenKeeper.Proofs.Calendar
import TokenKeeper.Proofs.Digits
import TokenKeeper.Time.Timestamp

/-!
# Timestamps read back

Every instant of the range, leap seconds included, is written as a text that is read as the same
instant. Each field is a run of digits with something else behind it, so its reader takes exactly
the run; the fraction has as many digits as say it exactly.
-/
namespace TokenKeeper.Timestamp

open Text

theorem skipBlanks_of_not {c : Char} (h : isBlank c = false) (cs : List Char) :
    skipBlanks (c :: cs) = c :: cs := List.dropWhile_cons_of_neg (by simp [h])

theorem isBlank_of_isDigit {c : Char} (h : isDigit c = true) : isBlank c = false := by
  have hc := Char.isDigit_iff_toNat.mp (isDigit_iff.mp h)
  have h0 : '0'.toNat = 48 := rfl
  have h9 : '9'.toNat = 57 := rfl
  unfold isBlank
  simp only [Bool.or_eq_false_iff, Bool.and_eq_false_iff, decide_eq_false_iff_not,
    beq_eq_false_iff_ne]
  omega

theorem skipBlanks_padded (width n : Nat) (rest : List Char) :
    skipBlanks (padded width n ++ rest) = padded width n ++ rest := by
  cases h : padded width n with
  | nil => exact absurd h (padded_ne_nil width n)
  | cons c cs =>
    have hc : isDigit c = true := allDigits_padded width n c (h ▸ List.mem_cons_self)
    exact skipBlanks_of_not (isBlank_of_isDigit hc) _

theorem digitsUpTo_append {width : Nat} {ds rest : List Char} (hd : AllDigits ds) (hne : ds ≠ [])
    (hlen : ds.length ≤ width) (hr : NoDigit rest) :
    digitsUpTo width (ds ++ rest) = some (decimal ds, rest) := by
  have htake : (ds ++ rest).take width = ds ++ rest.take (width - ds.length) := by
    rw [List.take_append, List.take_of_length_le hlen]
  have hr' : NoDigit (rest.take (width - ds.length)) := by
    intro c more h
    cases rest with
    | nil => simp at h
    | cons d rest =>
      cases hw : width - ds.length with
      | zero => rw [hw] at h; cases h
      | succ n =>
        rw [hw, List.take_succ_cons] at h
        have he : d = c := (List.cons.inj h).1
        exact he ▸ hr d rest rfl
  have hempty : ds.isEmpty = false := by
    cases ds with
    | nil => exact absurd rfl hne
    | cons d ds => rfl
  unfold digitsUpTo
  rw [htake, takeWhile_digits hd hr']
  simp only [hempty, Bool.false_eq_true, if_false, List.drop_left]

theorem digitsUpTo_padded {width n : Nat} (hw : 0 < width) (h : n < Nat.pow 10 width)
    {rest : List Char} (hr : NoDigit rest) :
    digitsUpTo width (padded width n ++ rest) = some (n, rest) := by
  rw [digitsUpTo_append (allDigits_padded width n) (padded_ne_nil width n)
    (Nat.le_of_eq (length_padded hw h)) hr, decimal_padded]

theorem field?_padded {least greatest n : Nat} (h : least ≤ n ∧ n ≤ greatest) (hn : n < 100)
    {rest : List Char} (hr : NoDigit rest) :
    field? least greatest (padded 2 n ++ rest) = some (n, rest) := by
  unfold field?
  rw [skipBlanks_padded, digitsUpTo_padded (by decide) hn hr]
  exact if_pos h

theorem drop?_separator {c : Char} (h : isBlank c = false) (cs : List Char) :
    drop? c (skipBlanks (c :: cs)) = some cs := by
  rw [skipBlanks_of_not h]
  exact if_pos rfl

/-! ### The date -/

theorem year?_yearChars (y : Int) {rest : List Char} (hr : NoDigit rest) :
    year? (yearChars y ++ rest) = some (y, rest) := by
  have hsigned : ∀ n : Nat,
      digitsUpTo (padded 4 n ++ rest).length (padded 4 n ++ rest) = some (n, rest) := by
    intro n
    rw [digitsUpTo_append (allDigits_padded 4 n) (padded_ne_nil 4 n) (by simp) hr, decimal_padded]
  unfold yearChars
  split
  · next h =>
    have hread := digitsUpTo_padded (show 0 < 4 by decide)
      (show y.toNat < Nat.pow 10 4 by simp only [Nat.reducePow, Nat.pow_eq]; omega) hr
    unfold year?
    rw [skipBlanks_padded]
    have hcast : ((y.toNat : Nat) : Int) = y := by omega
    cases hp : padded 4 y.toNat with
    | nil => exact absurd hp (padded_ne_nil 4 _)
    | cons c cs =>
      have hc : isDigit c = true := allDigits_padded 4 y.toNat c (hp ▸ List.mem_cons_self)
      rw [hp] at hread
      simp only [List.cons_append] at hread ⊢
      split
      · next h1 => cases h1; exact absurd hc (by decide)
      · next h1 => cases h1; exact absurd hc (by decide)
      · rw [hread, Option.map_some, hcast]
  · next h =>
    rw [List.cons_append]
    split
    · next hneg =>
      have hcast : -((y.natAbs : Nat) : Int) = y := by omega
      unfold year?
      rw [skipBlanks_of_not (by decide)]
      simp only [hsigned, Option.map_some, hcast]
    · next hpos =>
      have hcast : ((y.natAbs : Nat) : Int) = y := by omega
      unfold year?
      rw [skipBlanks_of_not (by decide)]
      simp only [hsigned, Option.map_some, hcast]

theorem date?_dateChars {d : Date} (h : d.isValid = true) {rest : List Char} (hr : NoDigit rest) :
    date? (dateChars d ++ rest) = some (d, rest) := by
  simp only [Date.isValid, Bool.and_eq_true, decide_eq_true_eq] at h
  obtain ⟨⟨⟨hm1, hm12⟩, hd1⟩, hday⟩ := h
  have hd31 : d.day ≤ 31 := Nat.le_trans hday (Date.daysInMonth_le _ hm1 hm12)
  have hminus : ∀ cs, NoDigit ('-' :: cs) := fun cs => noDigit_cons (by decide)
  unfold date? dateChars
  simp only [List.append_assoc, List.cons_append]
  rw [year?_yearChars _ (hminus _)]
  simp only [Option.bind_eq_bind, Option.bind_some]
  rw [drop?_separator (by decide), Option.bind_some,
    field?_padded ⟨hm1, hm12⟩ (by omega) (hminus _), Option.bind_some,
    drop?_separator (by decide), Option.bind_some, field?_padded ⟨hd1, hd31⟩ (by omega) hr]
  rfl

/-! ### The time of day -/

theorem fraction?_digits {ds rest : List Char} (hd : AllDigits ds) (hne : ds ≠ [])
    (hlen : ds.length ≤ 9) (hr : NoDigit rest) :
    fraction? ('.' :: ds ++ rest) = some (decimal ds * Nat.pow 10 (9 - ds.length), rest) := by
  have hempty : ds.isEmpty = false := by
    cases ds with
    | nil => exact absurd rfl hne
    | cons d ds => rfl
  unfold fraction?
  simp only [List.cons_append]
  rw [takeWhile_digits hd hr]
  simp only [hempty, Bool.false_eq_true, if_false, List.take_of_length_le hlen, List.drop_left]

theorem fraction?_fractionChars {nanos : Nat} (h : nanos < nanosPerSecond) {rest : List Char}
    (hr : NoDigit rest) (hdot : ∀ cs, rest ≠ '.' :: cs) :
    fraction? (fractionChars nanos ++ rest) = some (nanos, rest) := by
  have hlt : nanos < 1000000000 := h
  have hread : ∀ width n : Nat, 0 < width → width ≤ 9 → n < Nat.pow 10 width →
      fraction? ('.' :: padded width n ++ rest) = some (n * Nat.pow 10 (9 - width), rest) := by
    intro width n hw h9 hn
    have hlen := length_padded hw hn
    rw [fraction?_digits (allDigits_padded width n) (padded_ne_nil width n) (by omega) hr,
      decimal_padded, hlen]
  unfold fractionChars
  split
  · next hzero =>
    rw [List.nil_append, hzero]
    unfold fraction?
    split
    · next cs => exact absurd rfl (hdot cs)
    · rfl
  split
  · next hzero h3 =>
    rw [hread 3 (nanos / 1000000) (by decide) (by decide)
      (show nanos / 1000000 < 1000 by omega)]
    exact congrArg (fun n => some (n, rest)) (show nanos / 1000000 * 1000000 = nanos by omega)
  split
  · next hzero h3 h6 =>
    rw [hread 6 (nanos / 1000) (by decide) (by decide)
      (show nanos / 1000 < 1000000 by omega)]
    exact congrArg (fun n => some (n, rest)) (show nanos / 1000 * 1000 = nanos by omega)
  · next hzero h3 h6 =>
    rw [hread 9 nanos (by decide) (by decide) hlt]
    exact congrArg (fun n => some (n, rest)) (Nat.mul_one nanos)

theorem noDigit_fractionChars (nanos : Nat) {rest : List Char} (hr : NoDigit rest) :
    NoDigit (fractionChars nanos ++ rest) := by
  unfold fractionChars
  split
  · exact hr
  split
  · exact noDigit_cons (by decide)
  split
  · exact noDigit_cons (by decide)
  · exact noDigit_cons (by decide)

theorem time?_timeChars {secondOfDay nanos : Nat} (hs : secondOfDay < 86400)
    (hn : nanos < 2 * nanosPerSecond)
    (hleap : nanosPerSecond ≤ nanos → secondOfDay % 60 = 59) {rest : List Char}
    (hr : NoDigit rest) (hdot : ∀ cs, rest ≠ '.' :: cs) :
    time? (timeChars secondOfDay nanos ++ rest) = some ((secondOfDay, nanos), rest) := by
  have hcolon : ∀ cs, NoDigit (':' :: cs) := fun cs => noDigit_cons (by decide)
  have hfraction : nanos % nanosPerSecond < nanosPerSecond := Nat.mod_lt _ (by decide)
  have hsecond : secondOfDay % 60 + (if nanosPerSecond ≤ nanos then 1 else 0) ≤ 60 := by
    split <;> omega
  unfold time? timeChars
  simp only [List.append_assoc, List.cons_append, Option.bind_eq_bind]
  rw [field?_padded ⟨Nat.zero_le _, by omega⟩ (by omega) (hcolon _), Option.bind_some,
    drop?_separator (by decide), Option.bind_some,
    field?_padded ⟨Nat.zero_le _, by omega⟩ (by omega) (hcolon _), Option.bind_some,
    drop?_separator (by decide), Option.bind_some,
    field?_padded ⟨Nat.zero_le _, hsecond⟩ (by omega) (noDigit_fractionChars _ hr),
    Option.bind_some, fraction?_fractionChars hfraction hr hdot, Option.bind_some]
  by_cases hl : nanosPerSecond ≤ nanos
  · have h59 := hleap hl
    simp only [hl, if_true]
    rw [if_pos (by omega)]
    have h1 : secondOfDay / 3600 * 3600 + secondOfDay / 60 % 60 * 60 + 59 = secondOfDay := by omega
    have h2 : nanos % nanosPerSecond + nanosPerSecond = nanos := by
      simp only [nanosPerSecond] at hl hn ⊢
      omega
    rw [h1, h2]
    rfl
  · simp only [hl, if_false]
    rw [if_neg (by omega)]
    have h1 : secondOfDay / 3600 * 3600 + secondOfDay / 60 % 60 * 60 + (secondOfDay % 60 + 0) =
        secondOfDay := by omega
    have h2 : nanos % nanosPerSecond = nanos := by
      simp only [nanosPerSecond] at hl ⊢
      omega
    rw [h1, h2]
    rfl

/-! ### Instants -/

theorem isYearInRange_of_seconds (t : Instant) :
    isYearInRange (Date.ofDayNumber (t.seconds / secondsPerDay + Date.epochDay)).year = true := by
  have hge := t.seconds_ge
  have hle := t.seconds_le
  have hfrom : Date.daysBeforeYear (-262143) ≤ t.seconds / secondsPerDay + Date.epochDay := by
    simp only [Date.daysBeforeYear, secondsPerDay, Date.epochDay, leastSecond] at hge ⊢
    omega
  have hto : t.seconds / secondsPerDay + Date.epochDay < Date.daysBeforeYear (262142 + 1) := by
    simp only [Date.daysBeforeYear, secondsPerDay, Date.epochDay, greatestSecond] at hle ⊢
    omega
  obtain ⟨hfirst, hlast⟩ := Date.year_ofDayNumber hfrom hto
  simp only [isYearInRange, Bool.and_eq_true, decide_eq_true_eq]
  exact ⟨hfirst, hlast⟩

theorem read?_text (t : Instant) : read? (text t) = some t := by
  have hday : t.seconds / secondsPerDay * secondsPerDay + t.seconds % secondsPerDay =
      t.seconds := by
    unfold secondsPerDay
    omega
  have hmod : 0 ≤ t.seconds % secondsPerDay ∧ t.seconds % secondsPerDay < 86400 := by
    unfold secondsPerDay
    omega
  have hleap : nanosPerSecond ≤ t.nanos → (t.seconds % secondsPerDay).toNat % 60 = 59 := by
    intro h
    have := t.leap_last h
    unfold secondsPerDay at hmod ⊢
    omega
  have hvalid := Date.isValid_ofDayNumber (t.seconds / secondsPerDay + Date.epochDay)
  have hnumber := Date.dayNumber_ofDayNumber (t.seconds / secondsPerDay + Date.epochDay)
  have hrange := isYearInRange_of_seconds t
  have hsecond : (t.seconds % secondsPerDay).toNat < 86400 := by omega
  have hzone : NoDigit ['Z'] := noDigit_cons (by decide)
  have htime := time?_timeChars hsecond t.nanos_lt hleap hzone (by intro cs h; cases h)
  have hafter : NoDigit ('T' :: (timeChars (t.seconds % secondsPerDay).toNat t.nanos ++ ['Z'])) :=
    noDigit_cons (by decide)
  have hdate := date?_dateChars hvalid hafter
  unfold read? text localChars
  simp only [String.toList_ofList, List.append_assoc, List.cons_append, Option.bind_eq_bind]
  rw [hdate, Option.bind_some]
  simp only [true_or, if_true, Option.bind_some]
  rw [htime, Option.bind_some, show zone? (skipBlanks ['Z']) = some (0, []) from rfl,
    Option.bind_some, if_pos ⟨rfl, by decide, hvalid, hrange⟩, hnumber]
  have hseconds : (t.seconds / secondsPerDay + Date.epochDay - Date.epochDay) * secondsPerDay
      + ((t.seconds % secondsPerDay).toNat : Int) - 0 = t.seconds := by
    rw [Int.add_sub_cancel]
    omega
  rw [hseconds]
  exact Instant.of?_self t

end TokenKeeper.Timestamp
