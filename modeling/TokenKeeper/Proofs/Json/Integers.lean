import Mathlib.Data.List.Induction
import TokenKeeper.Proofs.Json.Agreement
import TokenKeeper.Proofs.Json.Record

/-!
# The one spelling of an integer

A number is read as an integer only if it has neither fraction nor exponent. Its whole part starts
with no needless zero and minus zero is no integer, so the digits are those that are printed for the
integer. Hence an integer of 64 bits has a single spelling.
-/
namespace TokenKeeper

namespace Text

theorem natChars_digit {c : Char} (h : isDigit c = true) : natChars (c.toNat - 48) = [c] := by
  have hall : ∀ n < 58, 48 ≤ n → natChars (n - 48) = [Char.ofNat n] := by decide
  obtain ⟨hlow, hhigh⟩ := bounds_of_isDigit h
  have hdigit := hall c.toNat (Nat.lt_succ_of_le hhigh) hlow
  rwa [Char.ofNat_toNat] at hdigit

theorem decimal_concat {ds : List Char} {d : Char} (h : AllDigits (ds ++ [d])) :
    decimal (ds ++ [d]) = 10 * decimal ds + (d.toNat - 48) := by
  have hds : AllDigits ds := fun c hc => h c (List.mem_append_left _ hc)
  rw [decimal_eq_ofDigitChars h, decimal_eq_ofDigitChars hds, Nat.ofDigitChars_append,
    Nat.ofDigitChars_cons, Nat.ofDigitChars_nil]
  rfl

theorem natChars_decimal_of_head {ds : List Char} (h : AllDigits ds) (hne : ds ≠ [])
    (hzero : ds.head? ≠ some '0') : natChars (decimal ds) = ds := by
  induction ds using List.reverseRecOn with
  | nil => exact absurd rfl hne
  | append_singleton ds d ih =>
    have hd : isDigit d = true := h d (List.mem_append_right _ List.mem_cons_self)
    have hlast := natChars_digit hd
    by_cases hds : ds = []
    · subst hds
      rw [decimal_concat h]
      exact (congrArg natChars (Nat.zero_add _)).trans hlast
    · have hhead : ds.head? ≠ some '0' := by
        obtain ⟨c, cs, rfl⟩ := List.exists_cons_of_ne_nil hds
        exact hzero
      have hfirst := ih (fun c hc => h c (List.mem_append_left _ hc)) hds hhead
      have hpos : 0 < decimal ds := by
        refine Nat.pos_of_ne_zero fun h0 => hhead ?_
        rw [← hfirst, h0]
        rfl
      have hbounds : d.toNat - 48 < 10 := by
        have hhigh := (bounds_of_isDigit hd).2
        omega
      calc natChars (decimal (ds ++ [d]))
          = natChars (10 * decimal ds + (d.toNat - 48)) := by rw [decimal_concat h]
        _ = natChars (decimal ds) ++ natChars (d.toNat - 48) :=
            (Nat.toDigits_append_toDigits (by decide) hpos hbounds).symm
        _ = ds ++ [d] := by rw [hfirst, hlast]

end Text

namespace Json

theorem IsWhole.natChars_decimal {w : List Char} (h : IsWhole w) :
    Text.natChars (Text.decimal w) = w := by
  by_cases hzero : w.head? = some '0'
  · rw [h.unpadded hzero]
    rfl
  · exact Text.natChars_decimal_of_head h.digits h.nonempty hzero

/-! ### Numbers without fraction and exponent -/

theorem IsMagnitude.unsigned {m : List Char} (h : IsMagnitude m) :
    (m.head? == some '-') = false := by
  obtain ⟨c, cs, rfl, hc⟩ := h.head
  rw [List.head?_cons, beq_eq_false_iff_ne]
  rintro ⟨⟩
  exact absurd hc (by decide)

theorem ofChars_minus {m : List Char} (h : IsMagnitude m) :
    Numeral.ofChars ('-' :: m) = { Numeral.ofChars m with negative := true } := by
  unfold Numeral.ofChars
  simp only [h.unsigned]
  rfl

theorem isWhole_of_ofChars {m : List Char} (h : IsMagnitude m)
    (hfraction : (Numeral.ofChars m).fraction = none)
    (hexponent : (Numeral.ofChars m).exponent = none) : IsWhole m := by
  have hsign := h.unsigned
  cases h with
  | @parts w f e hw hf he =>
    have hfollow := hf.headIn (he.headIn (headIn_nil _))
    have hdrop := Text.dropWhile_digits hw.digits (hfollow.noDigit (by decide))
    rw [List.append_nil, ← List.append_assoc] at hdrop
    unfold Numeral.ofChars at hfraction hexponent
    simp only [hsign, Bool.false_eq_true, if_false, hdrop] at hfraction hexponent
    cases hf with
    | none =>
      cases he with
      | none => rwa [List.append_nil, List.append_nil]
      | power hletter =>
        rcases hletter with rfl | rfl <;> cases hexponent
    | point => cases hfraction

theorem plain_of_int? {m : Numeral} {n : Int} (h : m.int? = some n) :
    m.fraction = none ∧ m.exponent = none := by
  unfold Numeral.int? at h
  split at h
  · cases h
  · next hparts =>
    rw [not_or, Option.not_isSome_iff_eq_none, Option.not_isSome_iff_eq_none] at hparts
    exact hparts

theorem eq_intChars_of_int? {spelled : List Char} {n : Int} (h : IsNumber spelled)
    (hn : (Numeral.ofChars spelled).int? = some n) : spelled = Text.intChars n := by
  cases h with
  | magnitude hm =>
    obtain ⟨hfraction, hexponent⟩ := plain_of_int? hn
    have hw := isWhole_of_ofChars hm hfraction hexponent
    rw [ofChars_digits hw.digits, int?_digits, if_neg Bool.false_ne_true,
      Option.ite_none_right_eq_some] at hn
    obtain ⟨-, ⟨⟩⟩ := hn
    exact hw.natChars_decimal.symm
  | @minus m hm =>
    rw [ofChars_minus hm] at hn
    obtain ⟨hfraction, hexponent⟩ := plain_of_int? hn
    have hw := isWhole_of_ofChars hm hfraction hexponent
    rw [ofChars_digits hw.digits, int?_digits, if_pos rfl, Option.ite_none_left_eq_some] at hn
    obtain ⟨hrange, ⟨⟩⟩ := hn
    obtain ⟨k, hk⟩ := Nat.exists_eq_succ_of_ne_zero fun h0 => hrange (.inl h0)
    have hdigits := hw.natChars_decimal
    rw [hk] at hdigits ⊢
    rw [← hdigits]
    rfl

namespace Spelling

theorem int64?_eq_some_iff {s : Spelling} (h : s.Printed) {n : Int64} :
    s.int64? = some n ↔ s = (Json.int n.toInt).spelling := by
  refine ⟨fun hn => ?_, fun hs => hs ▸ int64?_spelling n⟩
  cases s with
  | num spelled =>
    have hnumber : IsNumber spelled := Token.reads_iff.mp (h (.num spelled) List.mem_cons_self)
    obtain ⟨i, hi, hn⟩ := Option.bind_eq_some_iff.mp hn
    split at hn
    · next hrange =>
      cases hn
      have hmin : Int64.minValue.toInt = -9223372036854775808 := by decide
      have hmax : Int64.maxValue.toInt = 9223372036854775807 := by decide
      rw [Int64.toInt_ofInt_of_le (by omega) (by omega), eq_intChars_of_int? hnumber hi]
      rfl
    · cases hn
  | _ => cases hn

end Spelling
end Json
end TokenKeeper
