import TokenKeeper.Json.Loose
import TokenKeeper.Proofs.Digits

/-!
# How numbers are spelled

A number without its sign is a whole part that starts with no needless zero, perhaps a fraction, and
perhaps an exponent. The strict reader takes nothing else. Both readers take such a number off the
front of what follows it, provided something follows that is no part of a number.
-/
namespace TokenKeeper.Json

open Text (AllDigits NoDigit)

structure IsWhole (cs : List Char) : Prop where
  digits : AllDigits cs
  nonempty : cs ≠ []
  unpadded : cs.head? = some '0' → cs = ['0']

inductive IsFraction : List Char → Prop
  | none : IsFraction []
  | point {ds : List Char} (hd : AllDigits ds) (hne : ds ≠ []) : IsFraction ('.' :: ds)

inductive IsExponent : List Char → Prop
  | none : IsExponent []
  | power {c : Char} {sign ds : List Char} (hc : c = 'e' ∨ c = 'E')
    (hsign : sign = [] ∨ sign = ['+'] ∨ sign = ['-']) (hd : AllDigits ds) (hne : ds ≠ []) :
    IsExponent (c :: sign ++ ds)

inductive IsMagnitude : List Char → Prop
  | parts {w f e : List Char} (hw : IsWhole w) (hf : IsFraction f) (he : IsExponent e) :
    IsMagnitude (w ++ f ++ e)

theorem isWhole_natChars (n : Nat) : IsWhole (Text.natChars n) := by
  refine ⟨Text.allDigits_natChars n, Text.natChars_ne_nil n, fun hzero => ?_⟩
  rcases Nat.eq_zero_or_pos n with rfl | hn
  · rfl
  · obtain ⟨c, cs, hc, hne⟩ := Text.natChars_of_pos hn
    rw [hc, List.head?_cons] at hzero
    exact absurd (Option.some.inj hzero) hne

theorem isMagnitude_natChars (n : Nat) : IsMagnitude (Text.natChars n) := by
  have h := IsMagnitude.parts (isWhole_natChars n) .none .none
  rwa [List.append_nil, List.append_nil] at h

/-! ### What may follow -/

def HeadIn (allowed cs : List Char) : Prop := ∀ c rest, cs = c :: rest → c ∈ allowed

def separators : List Char := [',', ']', '\x7d', ' ', '\n', '\r', '\t']

abbrev Apart (cs : List Char) : Prop := HeadIn separators cs

section

variable {allowed as bs cs : List Char}

theorem headIn_nil (allowed : List Char) : HeadIn allowed [] := by
  intro c rest h
  cases h

theorem headIn_cons {c : Char} (h : c ∈ allowed) : HeadIn allowed (c :: cs) := by
  intro d rest he
  cases he
  exact h

theorem HeadIn.mono (h : HeadIn as cs) (hsub : as ⊆ bs) : HeadIn bs cs :=
  fun c rest hc => hsub (h c rest hc)

theorem HeadIn.noDigit (h : HeadIn allowed cs) (hallowed : allowed.any Text.isDigit = false) :
    NoDigit cs :=
  fun c rest hc => Bool.eq_false_iff.mpr (List.any_eq_false.mp hallowed c (h c rest hc))

theorem HeadIn.head_ne (h : HeadIn allowed cs) {c : Char} (hc : c ∉ allowed) (rest : List Char) :
    cs ≠ c :: rest :=
  fun he => hc (h c rest he)

end

def afterFraction : List Char := 'e' :: 'E' :: separators

def afterWhole : List Char := '.' :: afterFraction

theorem IsExponent.headIn {e rest : List Char} (h : IsExponent e) (hrest : Apart rest) :
    HeadIn afterFraction (e ++ rest) := by
  cases h with
  | none => exact hrest.mono (by decide)
  | power hc => exact headIn_cons (by rcases hc with rfl | rfl <;> decide)

theorem IsFraction.headIn {f rest : List Char} (h : IsFraction f)
    (hrest : HeadIn afterFraction rest) : HeadIn afterWhole (f ++ rest) := by
  cases h with
  | none => exact hrest.mono (by decide)
  | point => exact headIn_cons (by decide)

/-! ### The strict reader -/

theorem digits_append {ds rest : List Char} (hd : AllDigits ds) (hr : NoDigit rest) :
    digits ((ds ++ rest).map some) = (ds, rest.map some) := by
  induction ds with
  | nil =>
    cases rest with
    | nil => rfl
    | cons c rest =>
      rw [List.nil_append, List.map_cons, digits, hr c rest rfl]
      rfl
  | cons d ds ih =>
    have hds : AllDigits ds := fun c hc => hd c (List.mem_cons_of_mem _ hc)
    rw [List.cons_append, List.map_cons, digits, if_pos (hd d List.mem_cons_self), ih hds]

theorem IsWhole.strict {w rest : List Char} (h : IsWhole w) (hr : NoDigit rest) :
    wholePart? ((w ++ rest).map some) = some (w, rest.map some) := by
  obtain ⟨c, cs, rfl⟩ := List.exists_cons_of_ne_nil h.nonempty
  rw [wholePart?, digits_append h.digits hr]
  by_cases hc : c = '0'
  · subst hc
    rw [h.unpadded rfl]
    rfl
  · split
    · next heq => cases heq; exact absurd rfl hc
    · next heq => cases heq; exact absurd rfl hc
    · next heq => cases heq
    · next heq => cases heq; rfl

theorem IsFraction.strict {f rest : List Char} (h : IsFraction f)
    (hrest : HeadIn afterFraction rest) :
    fractionPart? ((f ++ rest).map some) = some (f, rest.map some) := by
  cases h with
  | none =>
    cases rest with
    | nil => rfl
    | cons c rest =>
      have hc : c ≠ '.' := by
        rintro rfl
        exact hrest.head_ne (by decide) rest rfl
      rw [List.nil_append, List.map_cons, fractionPart?]
      exact fun rest he => hc (Option.some.inj (List.cons.inj he).1)
  | @point ds hd hne =>
    have hdigits := digits_append hd (hrest.noDigit (by decide))
    rw [List.cons_append, List.map_cons, fractionPart?, hdigits]
    obtain ⟨d, ds, rfl⟩ := List.exists_cons_of_ne_nil hne
    rfl

theorem IsExponent.strict {e rest : List Char} (h : IsExponent e) (hrest : Apart rest) :
    exponentPart? ((e ++ rest).map some) = some (e, rest.map some) := by
  cases h with
  | none =>
    cases rest with
    | nil => rfl
    | cons c rest =>
      have hc : ¬ (c = 'e' ∨ c = 'E') := by
        rintro (rfl | rfl) <;> exact hrest.head_ne (by decide) rest rfl
      rw [List.nil_append, List.map_cons, exponentPart?.eq_def]
      simp only [hc, if_false]
  | @power c sign ds hc hsign hd hne =>
    have hdigits := digits_append hd (hrest.noDigit (by decide))
    obtain ⟨d, ds, rfl⟩ := List.exists_cons_of_ne_nil hne
    have hd0 : Text.isDigit d = true := hd d List.mem_cons_self
    have hplus : d ≠ '+' := by rintro rfl; exact absurd hd0 (by decide)
    have hminus : d ≠ '-' := by rintro rfl; exact absurd hd0 (by decide)
    simp only [List.map_append, List.cons_append, List.map_cons] at hdigits
    rcases hsign with rfl | rfl | rfl <;>
      simp [exponentPart?, hc, hdigits, hplus, hminus]

theorem IsMagnitude.strict {m rest : List Char} (h : IsMagnitude m) (hrest : Apart rest) :
    magnitude? ((m ++ rest).map some) = some (m, rest.map some) := by
  cases h with
  | @parts w f e hw hf he =>
    have hexponent := he.headIn hrest
    have hfraction := hf.headIn hexponent
    have hwhole := hw.strict (hfraction.noDigit (by decide))
    rw [List.append_assoc, List.append_assoc]
    simp only [magnitude?, hwhole, hf.strict hexponent, he.strict hrest, Option.bind_eq_bind,
      Option.bind_some, Option.pure_def, List.append_assoc]

/-! ### What the strict reader takes -/

theorem digits_sound {gs rest : List Glyph} {ds : List Char} (h : digits gs = (ds, rest)) :
    AllDigits ds ∧ gs = ds.map some ++ rest := by
  have hnone : AllDigits [] := fun _ hc => absurd hc List.not_mem_nil
  fun_induction digits gs generalizing ds rest with
  | case1 c tail hc ds' rest' heq ih =>
    cases h
    obtain ⟨hds, rfl⟩ := ih heq
    exact ⟨List.forall_mem_cons.mpr ⟨hc, hds⟩, rfl⟩
  | case2 c tail hc =>
    cases h
    exact ⟨hnone, rfl⟩
  | case3 gs hgs =>
    cases h
    exact ⟨hnone, rfl⟩

theorem isWhole_of_wholePart? {gs rest : List Glyph} {w : List Char}
    (h : wholePart? gs = some (w, rest)) : IsWhole w ∧ gs = w.map some ++ rest := by
  unfold wholePart? at h
  split at h
  · next heq =>
    cases h
    obtain ⟨hd, hgs⟩ := digits_sound heq
    exact ⟨⟨hd, by decide, fun _ => rfl⟩, hgs⟩
  · cases h
  · cases h
  · next hpadded hnone heq =>
    cases h
    obtain ⟨hd, hgs⟩ := digits_sound heq
    refine ⟨⟨hd, hnone, fun hzero => ?_⟩, hgs⟩
    obtain ⟨cs, rfl⟩ := List.head?_eq_some_iff.mp hzero
    exact absurd rfl (hpadded cs)

theorem isFraction_of_fractionPart? {gs rest : List Glyph} {f : List Char}
    (h : fractionPart? gs = some (f, rest)) : IsFraction f ∧ gs = f.map some ++ rest := by
  unfold fractionPart? at h
  split at h
  · split at h
    · cases h
    · next hsome heq =>
      cases h
      obtain ⟨hd, hgs⟩ := digits_sound heq
      exact ⟨.point hd hsome, by rw [hgs]; rfl⟩
  · cases h
    exact ⟨.none, rfl⟩

theorem isExponent_of_exponentPart? {gs rest : List Glyph} {e : List Char}
    (h : exponentPart? gs = some (e, rest)) : IsExponent e ∧ gs = e.map some ++ rest := by
  unfold exponentPart? at h
  split at h
  · next c tail =>
    split at h
    · next hc =>
      split at h
      next sign after hsign =>
      split at h
      · cases h
      · next hsome hdigits =>
        cases h
        obtain ⟨hd, rfl⟩ := digits_sound hdigits
        split at hsign <;> cases hsign
        · exact ⟨.power hc (.inr (.inl rfl)) hd hsome, rfl⟩
        · exact ⟨.power hc (.inr (.inr rfl)) hd hsome, rfl⟩
        · exact ⟨.power hc (.inl rfl) hd hsome, rfl⟩
    · cases h
      exact ⟨.none, rfl⟩
  · cases h
    exact ⟨.none, rfl⟩

theorem isMagnitude_of_magnitude? {gs rest : List Glyph} {m : List Char}
    (h : magnitude? gs = some (m, rest)) : IsMagnitude m ∧ gs = m.map some ++ rest := by
  obtain ⟨⟨w, gs₁⟩, hw, h⟩ := Option.bind_eq_some_iff.mp h
  obtain ⟨⟨f, gs₂⟩, hf, h⟩ := Option.bind_eq_some_iff.mp h
  obtain ⟨⟨e, gs₃⟩, he, ⟨⟩⟩ := Option.bind_eq_some_iff.mp h
  obtain ⟨hwhole, rfl⟩ := isWhole_of_wholePart? hw
  obtain ⟨hfraction, rfl⟩ := isFraction_of_fractionPart? hf
  obtain ⟨hexponent, rfl⟩ := isExponent_of_exponentPart? he
  refine ⟨.parts hwhole hfraction hexponent, ?_⟩
  simp only [List.map_append, List.append_assoc]

/-! ### The loose reader -/

theorem IsExponent.loose {e rest : List Char} (h : IsExponent e) (hrest : Apart rest) :
    LooseToken.exponent? (e ++ rest) = some (e, rest) := by
  cases h with
  | none =>
    cases rest with
    | nil => rfl
    | cons c rest =>
      have hc : ¬ (c = 'e' ∨ c = 'E') := by
        rintro (rfl | rfl) <;> exact hrest.head_ne (by decide) rest rfl
      rw [List.nil_append, LooseToken.exponent?, if_neg hc]
  | @power c sign ds hc hsign hd hne =>
    have htake := Text.takeWhile_digits hd (hrest.noDigit (by decide))
    have hdrop := Text.dropWhile_digits hd (hrest.noDigit (by decide))
    have hcut : (((sign ++ (ds ++ rest)).take 1).filter fun c => c == '+' || c == '-') = sign := by
      obtain ⟨d, ds, rfl⟩ := List.exists_cons_of_ne_nil hne
      have hdigit : Text.isDigit d = true := hd d List.mem_cons_self
      have hplus : d ≠ '+' := by rintro rfl; exact absurd hdigit (by decide)
      have hminus : d ≠ '-' := by rintro rfl; exact absurd hdigit (by decide)
      rcases hsign with rfl | rfl | rfl
      · simp [hplus, hminus]
      · rfl
      · rfl
    have hempty : ds.isEmpty = false := List.isEmpty_eq_false_iff.mpr hne
    rw [List.cons_append, List.cons_append, List.append_assoc, LooseToken.exponent?, if_pos hc]
    simp only [hcut, List.drop_left, htake, hdrop, hempty, Bool.false_eq_true, if_false]
    rfl

theorem looseDecimal?_parts {w f e rest : List Char} (hw : IsWhole w) (hf : IsFraction f)
    (he : IsExponent e) (hrest : Apart rest) :
    LooseToken.decimal? (w ++ (f ++ (e ++ rest))) = some (w ++ (f ++ e), rest) := by
  have hexponent := he.headIn hrest
  have hfraction := hf.headIn hexponent
  have htake := Text.takeWhile_digits hw.digits (hfraction.noDigit (by decide))
  have hdrop := Text.dropWhile_digits hw.digits (hfraction.noDigit (by decide))
  have hzeros : ¬ (w.length > 1 ∧ w.head? = some '0') := by
    rintro ⟨hlong, hzero⟩
    rw [hw.unpadded hzero] at hlong
    exact absurd hlong (by decide)
  have hsome : w.isEmpty = false := List.isEmpty_eq_false_iff.mpr hw.nonempty
  unfold LooseToken.decimal?
  simp only [htake, hdrop, hzeros, hsome, if_false]
  cases hf with
  | none =>
    have hpoint : ∀ tail, e ++ rest ≠ '.' :: tail := hexponent.head_ne (by decide)
    rw [List.nil_append]
    split
    · next tail heq => exact absurd heq (hpoint tail)
    · simp [he.loose hrest]
  | @point ds hd hne =>
    have hsome : ds.isEmpty = false := List.isEmpty_eq_false_iff.mpr hne
    have htake := Text.takeWhile_digits hd (hexponent.noDigit (by decide))
    have hdrop := Text.dropWhile_digits hd (hexponent.noDigit (by decide))
    simp [htake, hdrop, hsome, he.loose hrest]

theorem IsMagnitude.loose {m rest : List Char} (h : IsMagnitude m) (hrest : Apart rest) :
    LooseToken.magnitude? (m ++ rest) = some (m, rest) := by
  cases h with
  | @parts w f e hw hf he =>
    have hfollow := hf.headIn (he.headIn hrest)
    have hdecimal := looseDecimal?_parts hw hf he hrest
    simp only [List.append_assoc]
    rw [← hdecimal]
    unfold LooseToken.magnitude?
    split
    · next x d cs hcs =>
      -- A zero in front is the whole part, and no `x` may follow it.
      have hzero : w.head? = some '0' := by
        obtain ⟨c, tail, rfl⟩ := List.exists_cons_of_ne_nil hw.nonempty
        rw [List.cons_append, List.cons.injEq] at hcs
        rw [hcs.1, List.head?_cons]
      rw [hw.unpadded hzero, List.cons_append, List.nil_append, List.cons.injEq] at hcs
      have hx : ¬ ((x = 'x' ∨ x = 'X') ∧ LooseToken.isHexDigit d = true) := by
        rintro ⟨rfl | rfl, -⟩ <;> exact hfollow.head_ne (by decide) _ hcs.2
      rw [if_neg hx, hw.unpadded hzero, hcs.2]
      rfl
    · rfl

end TokenKeeper.Json
