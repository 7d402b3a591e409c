import TokenKeeper.Decimal.Shortest
import TokenKeeper.Proofs.Json.Number

/-!
# How floating-point numbers are spelled

The shortest decimal of a number that is not zero has a digit above zero in front, so it is spelled
without a needless zero: with a point, or with an exponent. Hence every floating-point number is
spelled as a number of JSON.
-/
namespace TokenKeeper

open Json (IsWhole IsFraction IsExponent IsMagnitude)
open Text (AllDigits)

/-! ### The first digit -/

theorem Decimal.digits_strip {d : Decimal} (n : Nat) (h : 0 < d.digits) :
    0 < (d.strip n).digits := by
  induction n generalizing d with
  | zero => exact h
  | succ n ih =>
    rw [strip]
    split
    · next hzero =>
      exact ih (Nat.div_pos (Nat.le_of_dvd h (Nat.dvd_of_mod_eq_zero hzero.2)) (by decide))
    · exact h

namespace Binary64

theorem interval_low {x : Binary64} (h : x.isZero = false) : 0 < x.interval.1.1 := by
  have hsig : 0 < x.significand := Nat.pos_of_ne_zero (beq_eq_false_iff_ne.mp h)
  obtain ⟨unit, unitDen, hunit, hden, hratio, hscale⟩ : ∃ unit unitDen, 0 < unit ∧ 0 < unitDen ∧
      x.ratio = (x.significand * unit, unitDen) ∧
      scaleDown 1 1 (-x.exponent) = (unit, unitDen) := by
    unfold ratio scaleDown
    split
    · exact ⟨1, _, Nat.one_pos, Nat.one_shiftLeft _ ▸ Nat.two_pow_pos _, by simp, rfl⟩
    · exact ⟨_, 1, Nat.one_shiftLeft _ ▸ Nat.two_pow_pos _,
        Nat.one_pos, by simp [Nat.shiftLeft_eq], rfl⟩
  have hquarter : 0 < unit * unitDen := Nat.mul_pos hunit hden
  have hvalue : 4 * (unit * unitDen) ≤ 4 * (x.significand * unit) * unitDen := by
    rw [Nat.mul_assoc 4, Nat.mul_assoc x.significand]
    exact Nat.mul_le_mul_left 4 (Nat.le_mul_of_pos_left _ hsig)
  unfold interval
  simp only [hratio, hscale]
  split <;> omega

theorem onGrid?_digits {x : Binary64} (h : x.isZero = false) {exponent : Int} {d : Decimal}
    (hd : x.onGrid? exponent = some d) : 0 < d.digits := by
  have hlow := interval_low h
  obtain ⟨unit, scale, hscale, hgrid⟩ : ∃ unit scale, 0 < scale ∧
      (if 0 ≤ exponent then (x.interval.2 * Nat.pow 10 exponent.toNat, 1)
        else (x.interval.2, Nat.pow 10 (-exponent).toNat)) = (unit, scale) := by
    split
    · exact ⟨_, 1, Nat.one_pos, rfl⟩
    · exact ⟨_, _, Nat.pow_pos (by decide), rfl⟩
  have hends : 0 < x.interval.1.1 * scale := Nat.mul_pos hlow hscale
  unfold onGrid? at hd
  simp only [hgrid, Nat.add_mul, Nat.one_mul] at hd
  generalize x.interval.1.2.1 * scale / unit = q at hd
  -- Zero is no point of the grid inside the interval.
  have hzero : q = 0 → (if (x.significand % 2 == 0) = true then
      decide (x.interval.1.1 * scale ≤ q * unit) && decide (q * unit ≤ x.interval.1.2.2 * scale)
      else decide (x.interval.1.1 * scale < q * unit) &&
        decide (q * unit < x.interval.1.2.2 * scale)) = false := by
    rintro rfl
    rw [Nat.zero_mul]
    split
    · simp
      omega
    · simp
  split at hd
  · next hq _ =>
    cases hd
    have hpos : 0 < q := Nat.pos_of_ne_zero fun he => absurd hq (by rw [hzero he]; decide)
    dsimp only
    split
    · exact hpos
    · split <;> omega
  · next hq _ =>
    cases hd
    exact Nat.pos_of_ne_zero fun he => absurd hq (by rw [hzero he]; decide)
  · cases hd
    exact Nat.succ_pos q
  · cases hd

theorem firstOnGrid_digits {x : Binary64} (h : x.isZero = false) (place : Int) (ns : List Nat) :
    x.firstOnGrid place ns = ⟨0, 0⟩ ∨ 0 < (x.firstOnGrid place ns).digits := by
  induction ns with
  | nil => exact .inl rfl
  | cons n ns ih =>
    rw [firstOnGrid]
    split
    · next d hd => exact .inr (onGrid?_digits h hd)
    · exact ih

theorem shortest_digits (x : Binary64) : x.shortest = ⟨0, 0⟩ ∨ 0 < x.shortest.digits := by
  unfold shortest
  split
  · exact .inl rfl
  · next hzero =>
    rcases firstOnGrid_digits (Bool.eq_false_iff.mpr hzero)
      (decimalPlace x.ratio.1 x.ratio.2) (List.range 17) with h | h
    · left
      change (x.firstOnGrid (decimalPlace x.ratio.1 x.ratio.2) (List.range 17)).strip 17 = _
      rw [h]
      rfl
    · exact .inr (Decimal.digits_strip 17 h)

/-! ### The text -/

theorem allDigits_replicate (n : Nat) : AllDigits (List.replicate n '0') := by
  intro c hc
  rw [(List.mem_replicate.mp hc).2]
  decide

theorem allDigits_append {as bs : List Char} (ha : AllDigits as) (hb : AllDigits bs) :
    AllDigits (as ++ bs) := by
  intro c hc
  exact (List.mem_append.mp hc).elim (ha c) (hb c)

theorem repr_toList (n : Nat) : (Nat.repr n).toList = Text.natChars n := by
  rw [Nat.repr, String.toList_ofList]
  rfl

theorem twoDigits_toList (n : Nat) :
    AllDigits (twoDigits n).toList ∧ (twoDigits n).toList ≠ [] := by
  have hrepr : (toString n).toList = Text.natChars n := repr_toList n
  unfold twoDigits
  split
  · have hpad : (toString "0" ++ toString n).toList = '0' :: Text.natChars n := by
      rw [String.toList_append, hrepr]
      rfl
    rw [hpad]
    exact ⟨List.forall_mem_cons.mpr ⟨by decide, Text.allDigits_natChars n⟩, List.cons_ne_nil _ _⟩
  · rw [hrepr]
    exact ⟨Text.allDigits_natChars n, Text.natChars_ne_nil n⟩

theorem isWhole_digit {c : Char} (h : Text.isDigit c = true) : IsWhole [c] :=
  ⟨List.forall_mem_singleton.mpr h, List.cons_ne_nil _ _, fun hc => by
    rw [List.head?_cons, Option.some.injEq] at hc
    rw [hc]⟩

theorem isMagnitude_scientific (digits : List Char) (place : Int) :
    AllDigits digits → digits ≠ [] → IsMagnitude ((match digits with
        | first :: [] => [first]
        | first :: rest => first :: '.' :: rest
        | [] => []) ++
      'e' :: ((if place < 0 then "-" else "+") ++ twoDigits place.natAbs).toList) := by
  intro hd hne
  obtain ⟨first, rest, rfl⟩ := List.exists_cons_of_ne_nil hne
  obtain ⟨hfirst, hrest⟩ := List.forall_mem_cons.mp hd
  obtain ⟨htwo, hsome⟩ := twoDigits_toList place.natAbs
  have hexponent :
      IsExponent ('e' :: ((if place < 0 then "-" else "+") ++ twoDigits place.natAbs).toList) := by
    rw [String.toList_append]
    split
    · exact .power (.inl rfl) (.inr (.inr rfl)) htwo hsome
    · exact .power (.inl rfl) (.inr (.inl rfl)) htwo hsome
  cases rest with
  | nil => exact .parts (isWhole_digit hfirst) .none hexponent
  | cons c cs =>
    exact .parts (isWhole_digit hfirst) (.point hrest (List.cons_ne_nil c cs)) hexponent

theorem isMagnitude_fraction {digits : List Char} (hd : AllDigits digits) (hne : digits ≠ [])
    (n : Nat) : IsMagnitude ('0' :: '.' :: List.replicate n '0' ++ digits) := by
  have hdigits := allDigits_append (allDigits_replicate n) hd
  have hsome : List.replicate n '0' ++ digits ≠ [] := fun he => hne (List.append_eq_nil_iff.mp he).2
  have h := IsMagnitude.parts (isWhole_digit (c := '0') (by decide)) (.point hdigits hsome) .none
  rwa [List.append_nil] at h

theorem isMagnitude_positional {digits : List Char} (hd : AllDigits digits) (whole : Nat)
    (hwhole : IsWhole ((digits ++ List.replicate (whole - digits.length) '0').take whole)) :
    IsMagnitude ((digits ++ List.replicate (whole - digits.length) '0').take whole ++
      '.' :: (if ((digits ++ List.replicate (whole - digits.length) '0').drop whole).isEmpty
        then ['0'] else (digits ++ List.replicate (whole - digits.length) '0').drop whole)) := by
  have hpadded := allDigits_append hd (allDigits_replicate (whole - digits.length))
  generalize digits ++ List.replicate (whole - digits.length) '0' = padded at hwhole hpadded
  have hfraction : IsFraction ('.' :: (if (padded.drop whole).isEmpty then ['0']
      else padded.drop whole)) := by
    split
    · exact .point (allDigits_replicate 1) (by decide)
    · next hsome =>
      exact .point (fun c hc => hpadded c (List.mem_of_mem_drop hc)) fun he =>
        hsome (List.isEmpty_iff.mpr he)
  have h := IsMagnitude.parts hwhole hfraction .none
  rwa [List.append_nil] at h

theorem isWhole_take {d : Decimal} (h : d = ⟨0, 0⟩ ∨ 0 < d.digits) {whole : Nat}
    (hw : (whole : Int) = d.exponent + (Text.natChars d.digits).length) (hpos : 0 < whole) :
    IsWhole ((Text.natChars d.digits ++
      List.replicate (whole - (Text.natChars d.digits).length) '0').take whole) := by
  have hdigits := allDigits_append (Text.allDigits_natChars d.digits)
    (allDigits_replicate (whole - (Text.natChars d.digits).length))
  rcases h with rfl | h
  · have hone : (whole : Int) = 0 + (1 : Nat) := hw
    have hwhole : whole = 1 := by omega
    subst hwhole
    exact isWhole_digit (c := '0') (by decide)
  · obtain ⟨c, cs, hc, hne⟩ := Text.natChars_of_pos h
    obtain ⟨n, rfl⟩ := Nat.exists_eq_add_of_le' hpos
    refine ⟨fun c hm => hdigits c (List.mem_of_mem_take hm), ?_, fun hzero => ?_⟩
    · rw [hc]
      exact List.cons_ne_nil _ _
    · rw [hc] at hzero
      exact absurd (Option.some.inj hzero) hne

theorem isMagnitude_text (x : Binary64) : ∃ m, IsMagnitude m ∧
    x.text.toList = if x.negative then '-' :: m else m := by
  have hdigits := Text.allDigits_natChars x.shortest.digits
  have hsome := Text.natChars_ne_nil x.shortest.digits
  have hshort := shortest_digits x
  unfold text
  simp only [repr_toList, String.toList_ofList]
  generalize hd : x.shortest = d at *
  refine ⟨_, ?_, rfl⟩
  split
  · exact .parts (isWhole_digit (c := '0') (by decide))
      (.point (allDigits_replicate 1) (by decide)) .none
  · split
    · exact isMagnitude_scientific _ _ hdigits hsome
    · split
      · exact isMagnitude_fraction hdigits hsome _
      · next hplace =>
        refine isMagnitude_positional hdigits _ (isWhole_take hshort ?_ (Nat.succ_pos _))
        omega

end Binary64
end TokenKeeper
