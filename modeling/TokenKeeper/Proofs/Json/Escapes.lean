import TokenKeeper.Proofs.Json.Merge

/-!
# What a spelled string stands for

A character between quotes is written as it is, by a short escape, or by its number as one 16-bit
unit or as two surrogates. The parts of a string spell a text exactly if the string is a row of such
spellings, one for each character. So a text has many spellings, and a spelling stands for one text.
-/
namespace TokenKeeper.Json

inductive WritesChar : Char → List Char → Prop
  | plain {c : Char} (hquote : c ≠ '"') (hescape : c ≠ '\\') (hc : ¬ c < ' ') : WritesChar c [c]
  | short {e : Char} (he : isShortEscape e = true) :
    WritesChar (Spelling.shortEscape e) ['\\', e]
  | unit {c p q r s : Char} (hunit : Text.hexadecimal? [p, q, r, s] = some c.toNat) :
    WritesChar c ['\\', 'u', p, q, r, s]
  | pair {c p q r s t v w x : Char} {high low : Nat}
    (hhigh : Text.hexadecimal? [p, q, r, s] = some (0xD800 + high)) (hh : high < 0x400)
    (hlow : Text.hexadecimal? [t, v, w, x] = some (0xDC00 + low)) (hl : low < 0x400)
    (hc : c.toNat = 0x10000 + high * 0x400 + low) :
    WritesChar c ['\\', 'u', p, q, r, s, '\\', 'u', t, v, w, x]

inductive WritesText : List Char → List Char → Prop
  | nil : WritesText [] []
  | cons {c : Char} {cs b rest : List Char} (hc : WritesChar c b) :
    WritesText cs rest → WritesText (c :: cs) (b ++ rest)

/-! ### Units -/

theorem hexadecimal?_eq_some_iff {p q r s : Char} {n : Nat} :
    Text.hexadecimal? [p, q, r, s] = some n ↔
      (∀ c ∈ [p, q, r, s], LooseToken.isHexDigit c = true) ∧
        Spelling.hexOf [some p, some q, some r, some s] = n := by
  unfold Text.hexadecimal? Spelling.hexOf LooseToken.isHexDigit
  cases hp : Text.hexDigit? p <;> cases hq : Text.hexDigit? q <;>
    cases hr : Text.hexDigit? r <;> cases hs : Text.hexDigit? s <;>
      simp [hp, hq, hr, hs]

theorem lt_of_hexadecimal? {p q r s : Char} {n : Nat}
    (h : Text.hexadecimal? [p, q, r, s] = some n) : n < 0x10000 := by
  obtain ⟨-, rfl⟩ := hexadecimal?_eq_some_iff.mp h
  exact Spelling.hexOf_lt (some p) (some q) (some r) (some s)

namespace Spelling

/-! ### The parts of a string -/

theorem pieces_plain {c : Char} (h : c ≠ '\\') (rest : List Char) :
    pieces ((c :: rest).map some) = .char c :: pieces (rest.map some) := by
  rw [List.map_cons, pieces.eq_def]
  simp only [h, if_false]

theorem pieces_short {e : Char} (h : isShortEscape e = true) (rest : List Char) :
    pieces (('\\' :: e :: rest).map some) = .char (shortEscape e) :: pieces (rest.map some) := by
  have hu : e ≠ 'u' := isShortEscape_ne h rfl
  rw [List.map_cons, List.map_cons, pieces.eq_4 _ e _ fun _ _ _ _ _ _ h => hu h, if_pos rfl]

theorem pieces_unit (p q r s : Char) (rest : List Char) :
    pieces (('\\' :: 'u' :: p :: q :: r :: s :: rest).map some) =
      .unit (hexOf [some p, some q, some r, some s]) :: pieces (rest.map some) := by
  simp only [List.map_cons]
  rw [pieces.eq_3, if_pos rfl]

theorem characters?_unit {n : Nat} (hhigh : ¬ isHighSurrogate n = true)
    (hlow : ¬ isLowSurrogate n = true) (rest : List Piece) :
    characters? (.unit n :: rest) = (characters? rest).map (Char.ofNat n :: ·) := by
  rw [characters?.eq_def]
  simp only [if_neg hhigh, if_neg hlow]

theorem characters?_pair {n m : Nat} (hhigh : isHighSurrogate n = true)
    (hlow : isLowSurrogate m = true) (rest : List Piece) :
    characters? (.unit n :: .unit m :: rest) =
      (characters? rest).map
        (Char.ofNat (0x10000 + (n - 0xD800) * 0x400 + (m - 0xDC00)) :: ·) := by
  rw [characters?.eq_def]
  simp only [if_pos hhigh, if_pos hlow]

theorem not_surrogate (c : Char) :
    ¬ isHighSurrogate c.toNat = true ∧ ¬ isLowSurrogate c.toNat = true := by
  rw [isHighSurrogate_iff, isLowSurrogate_iff]
  have hvalid : c.toNat < 0xD800 ∨ 0xDFFF < c.toNat ∧ c.toNat < 0x110000 := c.valid
  omega

theorem characters?_of_writesChar {c : Char} {b : List Char} (h : WritesChar c b)
    (rest : List Char) :
    characters? (pieces ((b ++ rest).map some)) =
      (characters? (pieces (rest.map some))).map (c :: ·) := by
  cases h with
  | plain _ hescape =>
    rw [List.cons_append, List.nil_append, pieces_plain hescape, characters?]
  | short he =>
    rw [List.cons_append, List.cons_append, List.nil_append, pieces_short he, characters?]
  | unit hunit =>
    obtain ⟨-, hn⟩ := hexadecimal?_eq_some_iff.mp hunit
    obtain ⟨hhigh, hlow⟩ := not_surrogate c
    simp only [List.cons_append, List.nil_append]
    rw [pieces_unit, hn, characters?_unit hhigh hlow, Char.ofNat_toNat]
  | @pair _ _ _ _ _ _ _ _ _ high low hhigh hh hlow hl hc =>
    obtain ⟨-, hn⟩ := hexadecimal?_eq_some_iff.mp hhigh
    obtain ⟨-, hm⟩ := hexadecimal?_eq_some_iff.mp hlow
    have hcode : 0x10000 + (0xD800 + high - 0xD800) * 0x400 + (0xDC00 + low - 0xDC00) =
        c.toNat := by
      omega
    simp only [List.cons_append, List.nil_append]
    rw [pieces_unit, pieces_unit, hn, hm,
      characters?_pair (isHighSurrogate_iff.mpr (by omega)) (isLowSurrogate_iff.mpr (by omega)),
      hcode, Char.ofNat_toNat]

theorem characters?_of_writesText {cs b : List Char} (h : WritesText cs b) :
    characters? (pieces (b.map some)) = some cs := by
  induction h with
  | nil => rfl
  | cons hc _ ih => rw [characters?_of_writesChar hc, ih, Option.map_some]

/-! ### The spellings of a text -/

theorem exists_low_of_characters? {n : Nat} {rest : List Piece} {cs : List Char}
    (hhigh : isHighSurrogate n = true) (h : characters? (.unit n :: rest) = some cs) :
    ∃ m after, rest = .unit m :: after ∧ isLowSurrogate m = true := by
  rw [characters?.eq_def] at h
  simp only [if_pos hhigh] at h
  split at h
  · next m after =>
    split at h
    · next hlow => exact ⟨m, after, rfl, hlow⟩
    · cases h
  · cases h

theorem exists_of_pieces_unit {b : List Char} {n : Nat} {after : List Piece} (hb : IsBody b)
    (h : pieces (b.map some) = .unit n :: after) :
    ∃ p q r s rest, b = '\\' :: 'u' :: p :: q :: r :: s :: rest ∧
      Text.hexadecimal? [p, q, r, s] = some n ∧ IsBody rest ∧ after = pieces (rest.map some) := by
  cases hb with
  | nil => cases h
  | plain _ hescape =>
    rw [pieces_plain hescape] at h
    cases h
  | short he =>
    rw [pieces_short he] at h
    cases h
  | @unit p q r s rest hex hrest =>
    rw [pieces_unit] at h
    cases h
    exact ⟨p, q, r, s, rest, rfl, hexadecimal?_eq_some_iff.mpr ⟨hex, rfl⟩, hrest, rfl⟩

theorem writesChar_unit {p q r s : Char} {n : Nat}
    (h : Text.hexadecimal? [p, q, r, s] = some n) (hhigh : ¬ isHighSurrogate n = true)
    (hlow : ¬ isLowSurrogate n = true) :
    WritesChar (Char.ofNat n) ['\\', 'u', p, q, r, s] := by
  have hlt := lt_of_hexadecimal? h
  have hvalid : n.isValidChar := by
    rw [isHighSurrogate_iff] at hhigh
    rw [isLowSurrogate_iff] at hlow
    unfold Nat.isValidChar
    omega
  refine .unit ?_
  rw [toNat_ofNat hvalid]
  exact h

theorem writesChar_pair {p q r s t v w x : Char} {n m : Nat}
    (hn : Text.hexadecimal? [p, q, r, s] = some n) (hhigh : isHighSurrogate n = true)
    (hm : Text.hexadecimal? [t, v, w, x] = some m) (hlow : isLowSurrogate m = true) :
    WritesChar (Char.ofNat (0x10000 + (n - 0xD800) * 0x400 + (m - 0xDC00)))
      ['\\', 'u', p, q, r, s, '\\', 'u', t, v, w, x] := by
  rw [isHighSurrogate_iff] at hhigh
  rw [isLowSurrogate_iff] at hlow
  rw [← Nat.add_sub_cancel' hhigh.1] at hn
  rw [← Nat.add_sub_cancel' hlow.1] at hm
  exact .pair hn (by omega) hm (by omega) (toNat_ofNat (.inr ⟨by omega, by omega⟩))

theorem writesText_of_characters? : ∀ {b : List Char}, IsBody b → ∀ {cs : List Char},
    characters? (pieces (b.map some)) = some cs → WritesText cs b
  | [], .nil, cs, h => by
    cases h
    exact .nil
  | _ :: rest, .plain hquote hescape hc hrest, cs, h => by
    rw [pieces_plain hescape, characters?] at h
    obtain ⟨tail, htail, rfl⟩ := Option.map_eq_some_iff.mp h
    exact .cons (.plain hquote hescape hc) (writesText_of_characters? hrest htail)
  | _ :: e :: rest, .short he hrest, cs, h => by
    rw [pieces_short he, characters?] at h
    obtain ⟨tail, htail, rfl⟩ := Option.map_eq_some_iff.mp h
    exact .cons (.short he) (writesText_of_characters? hrest htail)
  | _ :: _ :: p :: q :: r :: s :: rest, .unit hex hrest, cs, h => by
    have hn := hexadecimal?_eq_some_iff.mpr ⟨hex, rfl⟩
    rw [pieces_unit] at h
    by_cases hhigh : isHighSurrogate (hexOf [some p, some q, some r, some s]) = true
    · -- The second surrogate belongs to the same character, so the rest starts behind it.
      obtain ⟨m, _, hpieces, hlow⟩ := exists_low_of_characters? hhigh h
      obtain ⟨t, v, w, x, after, hb, hm, hafter, rfl⟩ := exists_of_pieces_unit hrest hpieces
      rw [hpieces, characters?_pair hhigh hlow] at h
      obtain ⟨tail, htail, rfl⟩ := Option.map_eq_some_iff.mp h
      rw [hb]
      exact .cons (writesChar_pair hn hhigh hm hlow) (writesText_of_characters? hafter htail)
    · by_cases hlow : isLowSurrogate (hexOf [some p, some q, some r, some s]) = true
      · rw [characters?.eq_def] at h
        simp only [if_neg hhigh, if_pos hlow] at h
        cases h
      · rw [characters?_unit hhigh hlow] at h
        obtain ⟨tail, htail, rfl⟩ := Option.map_eq_some_iff.mp h
        exact .cons (writesChar_unit hn hhigh hlow) (writesText_of_characters? hrest htail)
termination_by b => b.length
decreasing_by all_goals simp_all only [List.length_cons]; omega

theorem text?_eq_some_iff {b : List Char} (h : IsBody b) {x : String} :
    text? (b.map some) = some x ↔ WritesText x.toList b := by
  rw [text?, Option.map_eq_some_iff]
  constructor
  · rintro ⟨cs, hcs, rfl⟩
    rw [String.toList_ofList]
    exact writesText_of_characters? h hcs
  · intro hx
    exact ⟨x.toList, characters?_of_writesText hx, String.ofList_toList⟩

end Spelling
end TokenKeeper.Json
