import TokenKeeper.Json.Record
import TokenKeeper.Proofs.Dict
import TokenKeeper.Proofs.Json.Printed

/-!
# Records read back

The fields of a record are found by their names in the tree of an object whose members have
different names. A text is read from its quoted form, and an integer of 64 bits from its digits.
-/
namespace TokenKeeper.Json

/-! ### Numbers -/

theorem ofChars_digits {ds : List Char} (hd : Text.AllDigits ds) :
    Numeral.ofChars ds = ⟨false, digitValues ds, none, none⟩ := by
  have hsign : (ds.head? == some '-') = false := by
    cases ds with
    | nil => rfl
    | cons c cs =>
      rw [List.head?_cons, beq_eq_false_iff_ne]
      intro he
      cases he
      exact absurd (hd '-' List.mem_cons_self) (by decide)
  have htake := Text.takeWhile_digits hd Text.noDigit_nil
  have hdrop := Text.dropWhile_digits hd Text.noDigit_nil
  rw [List.append_nil] at htake hdrop
  unfold Numeral.ofChars
  simp only [hsign, Bool.false_eq_true, if_false, htake, hdrop, Option.map_none]

theorem ofChars_minus_digits {ds : List Char} (hd : Text.AllDigits ds) :
    Numeral.ofChars ('-' :: ds) = ⟨true, digitValues ds, none, none⟩ := by
  have hsign : ((('-' :: ds).head?) == some '-') = true := rfl
  have htake := Text.takeWhile_digits hd Text.noDigit_nil
  have hdrop := Text.dropWhile_digits hd Text.noDigit_nil
  rw [List.append_nil] at htake hdrop
  unfold Numeral.ofChars
  simp only [hsign, if_true, List.tail_cons, htake, hdrop, Option.map_none]

theorem int?_digits (negative : Bool) (ds : List Char) :
    (Numeral.mk negative (digitValues ds) none none).int? =
      if negative then
        if Text.decimal ds = 0 ∨ 1 <<< 63 < Text.decimal ds then none
        else some (-(Text.decimal ds : Int))
      else if Text.decimal ds ≤ maxUnsigned then some (Text.decimal ds : Int) else none := rfl

theorem int?_intChars {n : Int} (hlow : -9223372036854775808 ≤ n)
    (hhigh : n ≤ 18446744073709551615) : (Numeral.ofChars (Text.intChars n)).int? = some n := by
  cases n with
  | ofNat m =>
    have hm : m ≤ maxUnsigned := by
      have : (m : Int) ≤ 18446744073709551615 := hhigh
      unfold maxUnsigned
      omega
    rw [Text.intChars, ofChars_digits (Text.allDigits_natChars m), int?_digits,
      if_neg Bool.false_ne_true, Text.decimal_natChars, if_pos hm]
    rfl
  | negSucc m =>
    have hm : ¬ (m + 1 = 0 ∨ 1 <<< 63 < m + 1) := by
      have : (1 <<< 63 : Nat) = 9223372036854775808 := by decide
      rw [this]
      omega
    rw [Text.intChars, ofChars_minus_digits (Text.allDigits_natChars (m + 1)), int?_digits,
      if_pos rfl, Text.decimal_natChars, if_neg hm]
    rfl

namespace Spelling

theorem int64?_spelling (n : Int64) : (Json.int n.toInt).spelling.int64? = some n := by
  have hlow := n.minValue_le_toInt
  have hhigh := n.toInt_le
  have hmin : Int64.minValue.toInt = -9223372036854775808 := by decide
  have hmax : Int64.maxValue.toInt = 9223372036854775807 := by decide
  have hread := int?_intChars (n := n.toInt) (by omega) (by omega)
  have hrange : Int64.minValue.toInt ≤ n.toInt ∧ n.toInt ≤ Int64.maxValue.toInt := by
    constructor <;> omega
  rw [Json.spelling, int64?]
  simp only [hread, Option.bind_eq_bind, Option.bind_some, if_pos hrange, Int64.ofInt_toInt]

theorem string?_spelling (s : String) : (Json.str s).spelling.string? = some s :=
  text?_escaped s

/-! ### Fields by their names -/

theorem namedMembers?_spelling (ms : List (String × Json)) :
    namedMembers? (memberSpellings ms) = some (ms.map fun m => (m.1, m.2.spelling)) := by
  unfold namedMembers?
  induction ms with
  | nil => rfl
  | cons m rest ih =>
    obtain ⟨k, v⟩ := m
    rw [memberSpellings, List.mapM_cons, ih]
    simp only [text?_escaped]
    rfl

theorem field?_of_nodup {ms : List (String × Spelling)} (h : (Dict.keys ms).Nodup)
    (name : String) : field? ms name = some (Dict.get? ms name) := by
  have hfilter : ms.filter (·.1 == name) =
      ((Dict.get? ms name).map fun v => (name, v)).toList := by
    induction ms with
    | nil => rfl
    | cons m rest ih =>
      obtain ⟨k, v⟩ := m
      obtain ⟨hnew, hrest⟩ := List.nodup_cons.mp h
      rw [List.filter_cons, ih hrest, Dict.get?]
      by_cases hk : k = name
      · subst hk
        have hnone : Dict.get? rest k = none := Dict.get?_eq_none_of_notMem hnew
        rw [if_pos (beq_self_eq_true k), if_pos rfl, hnone]
        rfl
      · rw [if_neg (by rw [beq_iff_eq]; exact hk), if_neg hk]
  rw [field?, hfilter]
  cases Dict.get? ms name <;> rfl

theorem record?_spelling (ms : List (String × Json)) (h : (Dict.keys ms).Nodup)
    (names : List String) :
    (Json.obj ms).spelling.record? names =
      some (names.map fun name => (Dict.get? ms name).map Json.spelling) := by
  have hkeys : (Dict.keys (ms.map fun m => (m.1, m.2.spelling))).Nodup := by
    rw [Dict.keys, List.map_map]
    exact h
  have hget : ∀ name, Dict.get? (ms.map fun m => (m.1, m.2.spelling)) name =
      (Dict.get? ms name).map Json.spelling := fun name => Dict.get?_map ms Json.spelling name
  rw [Json.spelling, record?, namedMembers?_spelling]
  simp only [Option.bind_eq_bind, Option.bind_some]
  induction names with
  | nil => rfl
  | cons name names ih =>
    rw [List.mapM_cons, field?_of_nodup hkeys, hget, ih]
    rfl

end Spelling
end TokenKeeper.Json
