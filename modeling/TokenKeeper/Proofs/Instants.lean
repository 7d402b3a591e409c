import TokenKeeper.Client

/-!
# Instants on one line

Seen from the clock, all instants lie on a line of nanoseconds: the leap second in which the clock
stands counts as a second of its own, and any other is passed in no time. On that line the moves of
the clock are additions: a move leads to the instant at the sum, if the sum is in the range, and the
bounds of shifts lie outside of it. So whether a pair is due is a comparison of numbers, also where
the horizon lies past the last instant.
-/
namespace TokenKeeper

namespace Instant

theorem ofTotal?_of_lt {n : Int} (hlow : leastSecond * nanosPerSecond ≤ n)
    (hhigh : n < (greatestSecond + 1) * nanosPerSecond) :
    ∃ t, ofTotal? n = some t ∧ t.isLeap = false ∧ t.total = n := by
  have hvalid : leastSecond ≤ n / nanosPerSecond ∧ n / nanosPerSecond ≤ greatestSecond ∧
      (n % nanosPerSecond).toNat < 2 * nanosPerSecond ∧
      (nanosPerSecond ≤ (n % nanosPerSecond).toNat → n / nanosPerSecond % 60 = 59) := by
    simp only [nanosPerSecond, leastSecond, greatestSecond] at hlow hhigh ⊢
    omega
  refine ⟨_, dif_pos hvalid, decide_eq_false ?_, ?_⟩
  · simp only [nanosPerSecond]
    omega
  · simp only [total, nanosPerSecond]
    omega

theorem ofTotal?_eq_some_iff {n : Int} {t : Instant} :
    ofTotal? n = some t ↔ t.isLeap = false ∧ t.total = n := by
  have hrange := t.seconds_ge
  have hhigh := t.seconds_le
  constructor
  · intro h
    unfold ofTotal? of? at h
    split at h
    · cases h
      refine ⟨decide_eq_false ?_, ?_⟩
      · simp only [nanosPerSecond]
        omega
      · simp only [total, nanosPerSecond]
        omega
    · cases h
  · rintro ⟨hleap, rfl⟩
    have hnanos := of_decide_eq_false hleap
    have hlow : leastSecond * nanosPerSecond ≤ t.total := by
      simp only [total, nanosPerSecond, leastSecond] at hrange ⊢
      omega
    have hless : t.total < (greatestSecond + 1) * nanosPerSecond := by
      simp only [total, nanosPerSecond, greatestSecond] at hhigh hnanos ⊢
      omega
    obtain ⟨u, hsome, huleap, hutotal⟩ := ofTotal?_of_lt hlow hless
    have hunanos := of_decide_eq_false huleap
    rw [hsome, Option.some.injEq, ext_iff_fields]
    simp only [total, nanosPerSecond] at hutotal hnanos hunanos
    omega

theorem ofTotal?_of_ge {n : Int} (h : (greatestSecond + 1) * nanosPerSecond ≤ n) :
    ofTotal? n = none := by
  refine dif_neg fun hvalid => ?_
  simp only [nanosPerSecond, greatestSecond] at h hvalid
  omega

/-- Where an instant lies on the line of a clock that stands at `now`. -/
def position (now t : Instant) : Int :=
  if now.isLeap = true ∧ t.seconds = now.seconds then t.total
  else
    t.seconds * nanosPerSecond + min t.nanos nanosPerSecond +
      if now.isLeap = true ∧ now.seconds < t.seconds then nanosPerSecond else 0

theorem position_of_regular {now t : Instant} (hnow : now.isLeap = false)
    (ht : t.isLeap = false) : now.position t = t.total := by
  have hnanos := of_decide_eq_false ht
  simp only [position, hnow, Bool.false_eq_true, false_and, if_false, total]
  omega

theorem position_of_leap {now t : Instant} (hnow : now.isLeap = true)
    (ht : t.isLeap = true → t.seconds = now.seconds) : now.position t =
      t.total + if now.seconds < t.seconds then (nanosPerSecond : Int) else 0 := by
  unfold position
  by_cases hsame : t.seconds = now.seconds
  · rw [if_pos ⟨hnow, hsame⟩, if_neg (by omega), Int.add_zero]
  · have hregular : t.isLeap = false := by
      rw [Bool.eq_false_iff]
      exact fun hleap => hsame (ht hleap)
    have hnanos := of_decide_eq_false hregular
    have hmin : min t.nanos nanosPerSecond = t.nanos := by omega
    rw [if_neg (fun h => hsame h.2), total, hmin]
    simp only [hnow, true_and]
    split <;> rfl

/-- The instant at a place on the line of a clock. A leap second other than that of the clock takes
up no time, and is at no place. -/
def LiesAt (now : Instant) (n : Int) (t : Instant) : Prop :=
  now.position t = n ∧ (t.isLeap = true → now.isLeap = true ∧ t.seconds = now.seconds)

theorem liesAt_of_regular {now t : Instant} (hnow : now.isLeap = false) {n : Int} :
    now.LiesAt n t ↔ t.isLeap = false ∧ t.total = n := by
  unfold LiesAt
  cases ht : t.isLeap with
  | false => simp [position_of_regular hnow ht]
  | true => simp [hnow]

theorem liesAt_of_leap {now t : Instant} (hnow : now.isLeap = true) {n : Int} :
    now.LiesAt n t ↔ (t.isLeap = true → t.seconds = now.seconds) ∧
      t.total + (if now.seconds < t.seconds then (nanosPerSecond : Int) else 0) = n := by
  unfold LiesAt
  constructor
  · rintro ⟨hposition, hleap⟩
    exact ⟨fun h => (hleap h).2, (position_of_leap hnow fun h => (hleap h).2).symm.trans hposition⟩
  · rintro ⟨hleap, htotal⟩
    exact ⟨(position_of_leap hnow hleap).trans htotal, fun h => ⟨hnow, hleap h⟩⟩

theorem position_le_of_before {now t : Instant} (h : t.before now = true) :
    now.position t ≤ now.total := by
  rw [before_iff] at h
  simp only [position, total, nanosPerSecond]
  split
  · omega
  · next hsame =>
    have hpast : ¬ (now.isLeap = true ∧ now.seconds < t.seconds) := fun hlater => by omega
    rw [if_neg hpast]
    omega

theorem before_of_regular {t u : Instant} (ht : t.isLeap = false) :
    t.before u = false ↔ u.seconds * nanosPerSecond + min u.nanos nanosPerSecond ≤ t.total := by
  have hnanos := of_decide_eq_false ht
  have hlt := u.nanos_lt
  rw [Bool.eq_false_iff, ne_eq, before_iff, total]
  simp only [nanosPerSecond] at hnanos hlt ⊢
  omega

theorem ofTotal?_reaches (t : Instant) {n : Int} (hlow : leastSecond * nanosPerSecond ≤ n) :
    (match ofTotal? n with
      | some reached => reached.before t = false
      | none => True) ↔ t.seconds * nanosPerSecond + min t.nanos nanosPerSecond ≤ n := by
  have hhigh := t.seconds_le
  by_cases hin : n < (greatestSecond + 1) * nanosPerSecond
  · obtain ⟨reached, hsome, hleap, rfl⟩ := ofTotal?_of_lt hlow hin
    rw [hsome]
    exact before_of_regular hleap
  · rw [ofTotal?_of_ge (Int.not_lt.mp hin)]
    refine iff_of_true trivial ?_
    simp only [nanosPerSecond, greatestSecond] at hin hhigh ⊢
    omega

theorem add?_reaches (now : Instant) (n : Nat) (t : Instant) :
    (match now.add? n with
      | some reached => reached.before t = false
      | none => True) ↔ now.position t ≤ now.total + n := by
  have hlow := now.seconds_ge
  have hnanos := t.nanos_lt
  cases hleap : now.isLeap with
  | false =>
    have hposition : now.position t =
        t.seconds * nanosPerSecond + min t.nanos nanosPerSecond := by
      simp [position, hleap]
    rw [add?, if_pos (Or.inl hleap), hposition]
    apply ofTotal?_reaches
    simp only [total, nanosPerSecond, leastSecond] at hlow ⊢
    omega
  | true =>
    have hlate := of_decide_eq_true hleap
    have hforwards : ¬ (now.isLeap = false ∨ (n : Int) ≤ -(nanosPerSecond : Int)) := by
      simp only [hleap, Bool.true_eq_false, false_or, nanosPerSecond]
      omega
    rw [add?, if_neg hforwards]
    by_cases hinside : now.nanos + (n : Int) < 2 * nanosPerSecond
    · -- The move stays within the leap second.
      have hvalid : leastSecond ≤ now.seconds ∧ now.seconds ≤ greatestSecond ∧
          (now.nanos + (n : Int)).toNat < 2 * nanosPerSecond ∧
          (nanosPerSecond ≤ (now.nanos + (n : Int)).toNat → now.seconds % 60 = 59) :=
        ⟨hlow, now.seconds_le, by omega, fun _ => now.leap_last hlate⟩
      rw [if_pos hinside, of?, dif_pos hvalid]
      simp only [Bool.eq_false_iff, ne_eq, before_iff, position, hleap, true_and, total]
      simp only [nanosPerSecond] at hinside hlate hnanos ⊢
      split
      · omega
      · split <;> omega
    · -- The move leaves the leap second, which takes up a second of it.
      have hposition : now.position t ≤ now.total + n ↔
          t.seconds * nanosPerSecond + min t.nanos nanosPerSecond ≤
            now.total + n - nanosPerSecond := by
        simp only [position, hleap, true_and, total]
        simp only [nanosPerSecond] at hinside hlate hnanos ⊢
        split
        · omega
        · split <;> omega
      rw [if_neg hinside, hposition]
      apply ofTotal?_reaches
      simp only [total, nanosPerSecond, leastSecond] at hlow hinside ⊢
      omega

theorem add?_eq_some_iff {now t : Instant} {n : Int} :
    now.add? n = some t ↔ now.LiesAt (now.total + n) t := by
  have hnanos := now.nanos_lt
  have htnanos := t.nanos_lt
  cases hleap : now.isLeap with
  | false => rw [add?, if_pos (Or.inl hleap), ofTotal?_eq_some_iff, liesAt_of_regular hleap]
  | true =>
    have hlate := of_decide_eq_true hleap
    have hregular : t.isLeap = false ↔ t.nanos < nanosPerSecond := by simp [isLeap]
    have hirregular : t.isLeap = true ↔ nanosPerSecond ≤ t.nanos := by simp [isLeap]
    rw [liesAt_of_leap hleap, hirregular]
    unfold add?
    by_cases hback : n ≤ -(nanosPerSecond : Int)
    · -- The move leads out of the leap second, to a second before it or to its own first half.
      rw [if_pos (Or.inr hback), ofTotal?_eq_some_iff, hregular]
      simp only [total, nanosPerSecond] at hback hlate hnanos htnanos ⊢
      split <;> omega
    · rw [if_neg (not_or.mpr ⟨by simp [hleap], hback⟩)]
      by_cases hinside : now.nanos + n < 2 * nanosPerSecond
      · have hvalid : leastSecond ≤ now.seconds ∧ now.seconds ≤ greatestSecond ∧
            (now.nanos + n).toNat < 2 * nanosPerSecond ∧
            (nanosPerSecond ≤ (now.nanos + n).toNat → now.seconds % 60 = 59) :=
          ⟨now.seconds_ge, now.seconds_le, by omega, fun _ => now.leap_last hlate⟩
        rw [if_pos hinside, of?, dif_pos hvalid, Option.some.injEq, ext_iff_fields]
        simp only [total, nanosPerSecond] at hback hinside hlate htnanos ⊢
        split <;> omega
      · rw [if_neg hinside, ofTotal?_eq_some_iff, hregular]
        simp only [total, nanosPerSecond] at hinside hlate hnanos htnanos ⊢
        split <;> omega

def HasPlace (now : Instant) (n : Int) : Prop :=
  leastSecond * nanosPerSecond ≤ n ∧
    n < (greatestSecond + 1) * nanosPerSecond +
      if now.isLeap = true then (nanosPerSecond : Int) else 0

theorem LiesAt.hasPlace {now t : Instant} {n : Int} (h : now.LiesAt n t) : now.HasPlace n := by
  have hlow := t.seconds_ge
  have hhigh := t.seconds_le
  unfold HasPlace
  cases hnow : now.isLeap with
  | false =>
    obtain ⟨ht, rfl⟩ := (liesAt_of_regular hnow).mp h
    have hnanos := of_decide_eq_false ht
    simp only [total, nanosPerSecond, leastSecond, greatestSecond, Bool.false_eq_true,
      if_false] at hlow hhigh hnanos ⊢
    omega
  | true =>
    obtain ⟨ht, rfl⟩ := (liesAt_of_leap hnow).mp h
    have hnanos := t.nanos_lt
    have hlast := now.seconds_le
    have hregular : t.seconds = now.seconds ∨ t.nanos < nanosPerSecond := by
      by_cases hleap : t.isLeap = true
      · exact Or.inl (ht hleap)
      · exact Or.inr (by simpa [isLeap] using hleap)
    simp only [total, nanosPerSecond, leastSecond, greatestSecond, if_true] at *
    split <;> omega

theorem exists_liesAt {now : Instant} {n : Int} (h : now.HasPlace n) : ∃ t, now.LiesAt n t := by
  obtain ⟨hlow, hhigh⟩ := h
  cases hnow : now.isLeap with
  | false =>
    rw [hnow, if_neg (by decide), Int.add_zero] at hhigh
    obtain ⟨t, -, ht, htotal⟩ := ofTotal?_of_lt hlow hhigh
    exact ⟨t, (liesAt_of_regular hnow).mpr ⟨ht, htotal⟩⟩
  | true =>
    rw [hnow, if_pos rfl] at hhigh
    have hlast := now.seconds_le
    have hlate := of_decide_eq_true hnow
    by_cases hbefore : n < (now.seconds + 1) * nanosPerSecond
    · have hless : n < (greatestSecond + 1) * nanosPerSecond := by
        simp only [nanosPerSecond, greatestSecond] at hlast hbefore ⊢
        omega
      obtain ⟨t, -, ht, rfl⟩ := ofTotal?_of_lt hlow hless
      refine ⟨t, (liesAt_of_leap hnow).mpr ⟨fun h => absurd (ht.symm.trans h) (by decide), ?_⟩⟩
      rw [if_neg ?_, Int.add_zero]
      simp only [total, nanosPerSecond] at hbefore
      omega
    by_cases hinside : n < (now.seconds + 2) * nanosPerSecond
    · -- The place is within the leap second of the clock.
      have hnanos : (n - now.seconds * nanosPerSecond).toNat < 2 * nanosPerSecond := by
        simp only [nanosPerSecond] at hinside ⊢
        omega
      refine ⟨⟨now.seconds, (n - now.seconds * nanosPerSecond).toNat, now.seconds_ge, hlast, hnanos,
        fun _ => now.leap_last hlate⟩, (liesAt_of_leap hnow).mpr ⟨fun _ => rfl, ?_⟩⟩
      simp only [total, nanosPerSecond] at hbefore ⊢
      omega
    · have hstart : leastSecond * nanosPerSecond ≤ n - nanosPerSecond := by
        have hfirst := now.seconds_ge
        simp only [nanosPerSecond, leastSecond] at hfirst hinside ⊢
        omega
      obtain ⟨t, -, ht, htotal⟩ := ofTotal?_of_lt hstart (by omega)
      refine ⟨t, (liesAt_of_leap hnow).mpr ⟨fun h => absurd (ht.symm.trans h) (by decide), ?_⟩⟩
      have hnanos := of_decide_eq_false ht
      rw [if_pos ?_, htotal, Int.sub_add_cancel]
      simp only [total, nanosPerSecond] at htotal hinside hnanos
      omega

theorem exists_liesAt_iff {now : Instant} {n : Int} : (∃ t, now.LiesAt n t) ↔ now.HasPlace n :=
  ⟨fun ⟨_, h⟩ => h.hasPlace, exists_liesAt⟩

theorem bind_shift? (t : Instant) (n : Int) : (Shift.of? n).bind t.shift? = t.add? n := by
  unfold Shift.of?
  by_cases h : n.natAbs ≤ longestShift
  · rw [dif_pos h]
    rfl
  · rw [dif_neg h, Option.bind_none]
    symm
    rw [Option.eq_none_iff_forall_ne_some]
    intro u hu
    obtain ⟨hlow, hhigh⟩ := (add?_eq_some_iff.mp hu).hasPlace
    have hfirst := t.seconds_ge
    have hlast := t.seconds_le
    have hnanos := t.nanos_lt
    simp only [total, nanosPerSecond, leastSecond, greatestSecond, longestShift] at *
    split at hhigh <;> omega

theorem before_addSeconds? {now t : Instant} {n : Int} (h : now.addSeconds? n = some t) :
    t.before now = true ↔ n < 0 := by
  have hnow := now.nanos_lt
  have htotal : ∀ {m : Int}, ofTotal? m = some t →
      t.seconds = m / nanosPerSecond ∧ (t.nanos : Int) = m % nanosPerSecond := by
    intro m hm
    unfold ofTotal? of? at hm
    split at hm
    · cases hm
      exact ⟨rfl, Int.toNat_of_nonneg (Int.emod_nonneg m (by decide))⟩
    · cases hm
  rw [before_iff]
  unfold addSeconds? add? at h
  split at h
  · next hcase =>
    obtain ⟨hseconds, hnanos⟩ := htotal h
    rw [hseconds]
    rcases hcase with hleap | hback
    · have hregular := of_decide_eq_false hleap
      simp only [total, nanosPerSecond] at hregular hnow hnanos ⊢
      omega
    · simp only [total, nanosPerSecond] at hback hnow hnanos ⊢
      omega
  · next hcase =>
    obtain ⟨hleap, hforwards⟩ := not_or.mp hcase
    have hlate := of_decide_eq_true ((Bool.not_eq_false _).mp hleap)
    split at h
    · next hinside =>
      unfold of? at h
      split at h
      · cases h
        simp only [nanosPerSecond] at hforwards hlate hinside ⊢
        omega
      · cases h
    · next houtside =>
      obtain ⟨hseconds, hnanos⟩ := htotal h
      rw [hseconds]
      simp only [total, nanosPerSecond] at hforwards hlate houtside hnow hnanos ⊢
      omega

end Instant

/-- A pair is due when its expiry is not past the skew on the line of the clock. -/
theorem Client.needsRefresh_iff (client : Client) (now expiresAt : Instant) :
    client.needsRefresh now expiresAt = true ↔
      now.position expiresAt ≤ now.total + client.skew.total := by
  have hreach : (Shift.ofSpan? client.skew).bind now.shift? = now.add? client.skew.total :=
    Instant.bind_shift? now _
  rw [← Instant.add?_reaches, needsRefresh, hreach]
  cases now.add? client.skew.total <;> simp

/-- The bounds of the steps take nothing away: what they refuse is out of range in any case. -/
theorem Tokens.expiry?_eq (tokens : Tokens) (now : Instant) :
    tokens.expiry? now = now.addSeconds? (tokens.expiresIn.toInt - expiryMargin) := by
  unfold expiry? usableFor?
  by_cases h : Int64.minValue.toInt ≤ tokens.expiresIn.toInt - expiryMargin ∧
      tokens.expiresIn.toInt - expiryMargin ≤ Int64.maxValue.toInt
  · have hleft := Int64.toInt_ofInt_of_le h.1 (Int.lt_add_one_of_le h.2)
    simp only [if_pos h, Option.bind_eq_bind, Option.bind_some, Shift.ofSeconds?, hleft]
    exact Instant.bind_shift? now _
  · simp only [if_neg h, Option.bind_eq_bind, Option.bind_none]
    symm
    rw [Option.eq_none_iff_forall_ne_some]
    intro t ht
    obtain ⟨hlow, hhigh⟩ := (Instant.add?_eq_some_iff.mp ht).hasPlace
    have hfirst := now.seconds_ge
    have hlast := now.seconds_le
    have hnanos := now.nanos_lt
    have hmin : Int64.minValue.toInt = -9223372036854775808 := rfl
    have hmax : Int64.maxValue.toInt = 9223372036854775807 := rfl
    rw [hmin, hmax] at h
    simp only [Instant.total, nanosPerSecond, leastSecond, greatestSecond] at *
    split at hhigh <;> omega

theorem Tokens.expiresAt?_eq_ok_iff {tokens : Tokens} {now expiresAt : Instant} :
    tokens.expiresAt? now = .ok expiresAt ↔
      now.addSeconds? (tokens.expiresIn.toInt - expiryMargin) = some expiresAt := by
  rw [← expiry?_eq]
  unfold expiresAt?
  cases tokens.expiry? now <;> simp

theorem Tokens.addSeconds?_of_expiresAt? {tokens : Tokens} {now expiresAt : Instant}
    (h : tokens.expiresAt? now = .ok expiresAt) :
    now.addSeconds? (tokens.expiresIn.toInt - expiryMargin) = some expiresAt :=
  expiresAt?_eq_ok_iff.mp h

theorem Tokens.before_expiresAt? {tokens : Tokens} {now expiresAt : Instant}
    (h : tokens.expiresAt? now = .ok expiresAt) :
    expiresAt.before now = true ↔ tokens.expiresIn.toInt < expiryMargin := by
  rw [Instant.before_addSeconds? (addSeconds?_of_expiresAt? h)]
  omega

end TokenKeeper
