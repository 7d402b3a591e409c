import TokenKeeper.Json.Label
import TokenKeeper.Json.Loose
import TokenKeeper.Json.Printer
import TokenKeeper.Proofs.Digits

/-!
# Quoted texts read back

A text inside quotes is the row of its characters, each as itself or as an escape. Both readers, the
strict one and the loose one, take exactly this row, and its parts spell the text again, character
by character. So two quoted texts have the same code points only if they are the same text.
-/
namespace TokenKeeper.Json

theorem escape_cases (c : Char) :
    (∃ e, escape c = ['\\', e] ∧ isShortEscape e = true ∧ e ≠ 'u' ∧ Spelling.shortEscape e = c) ∨
    (c.toNat < 32 ∧
      escape c =
        ['\\', 'u', '0', '0', Text.hexDigit (c.toNat / 16), Text.hexDigit (c.toNat % 16)]) ∨
    (escape c = [c] ∧ c ≠ '"' ∧ c ≠ '\\' ∧ ¬ c < ' ') := by
  by_cases h1 : c = '"'
  · subst h1; exact Or.inl ⟨'"', rfl, rfl, by decide, rfl⟩
  by_cases h2 : c = '\\'
  · subst h2; exact Or.inl ⟨'\\', rfl, rfl, by decide, rfl⟩
  by_cases h3 : c = '\x08'
  · subst h3; exact Or.inl ⟨'b', rfl, rfl, by decide, rfl⟩
  by_cases h4 : c = '\x0c'
  · subst h4; exact Or.inl ⟨'f', rfl, rfl, by decide, rfl⟩
  by_cases h5 : c = '\n'
  · subst h5; exact Or.inl ⟨'n', rfl, rfl, by decide, rfl⟩
  by_cases h6 : c = '\r'
  · subst h6; exact Or.inl ⟨'r', rfl, rfl, by decide, rfl⟩
  by_cases h7 : c = '\t'
  · subst h7; exact Or.inl ⟨'t', rfl, rfl, by decide, rfl⟩
  have hplain : escape c = if c < ' ' then
      ['\\', 'u', '0', '0', Text.hexDigit (c.toNat / 16), Text.hexDigit (c.toNat % 16)]
      else [c] := by
    unfold escape
    split <;> first | rfl | contradiction
  by_cases hlt : c < ' '
  · exact Or.inr (Or.inl ⟨hlt, by rw [hplain, if_pos hlt]⟩)
  · exact Or.inr (Or.inr ⟨by rw [hplain, if_neg hlt], h1, h2, hlt⟩)

def escapedChars (s : String) : List Char := s.toList.flatMap escape

def escaped (s : String) : List Glyph := (escapedChars s).map some

theorem quoted_eq (s : String) : quoted s = '"' :: escapedChars s ++ ['"'] := rfl

theorem stringChars_escaped (s : String) : Spelling.stringChars (escaped s) = quoted s := by
  unfold Spelling.stringChars Spelling.glyphChars escaped
  rw [List.map_map]
  simp [quoted_eq, Function.comp_def]

/-! ### What stands between quotes -/

inductive IsBody : List Char → Prop
  | nil : IsBody []
  | plain {c : Char} {cs : List Char} (hquote : c ≠ '"') (hescape : c ≠ '\\') (hc : ¬ c < ' ') :
    IsBody cs → IsBody (c :: cs)
  | short {e : Char} {cs : List Char} (he : isShortEscape e = true) :
    IsBody cs → IsBody ('\\' :: e :: cs)
  | unit {p q r s : Char} {cs : List Char}
    (hex : ∀ c ∈ [p, q, r, s], LooseToken.isHexDigit c = true) :
    IsBody cs → IsBody ('\\' :: 'u' :: p :: q :: r :: s :: cs)

theorem isHexDigit_hexDigit {n : Nat} (h : n < 16) :
    LooseToken.isHexDigit (Text.hexDigit n) = true := by
  rw [LooseToken.isHexDigit, Text.hexDigit?_hexDigit h]
  rfl

theorem isBody_escape (c : Char) {cs : List Char} (h : IsBody cs) : IsBody (escape c ++ cs) := by
  rcases escape_cases c with ⟨e, he, hshort, -, -⟩ | ⟨hlt, he⟩ | ⟨he, hquote, hescape, hc⟩
  · rw [he]
    exact .short hshort h
  · rw [he]
    refine .unit (fun d hd => ?_) h
    simp only [List.mem_cons, List.not_mem_nil, or_false] at hd
    rcases hd with rfl | rfl | rfl | rfl
    · rfl
    · rfl
    · exact isHexDigit_hexDigit (by omega)
    · exact isHexDigit_hexDigit (by omega)
  · rw [he]
    exact .plain hquote hescape hc h

theorem isBody_escapedChars (s : String) : IsBody (escapedChars s) := by
  unfold escapedChars
  induction s.toList with
  | nil => exact .nil
  | cons c cs ih =>
    rw [List.flatMap_cons]
    exact isBody_escape c ih

theorem isShortEscape_ne {e d : Char} (h : isShortEscape e = true) (hd : isShortEscape d = false) :
    e ≠ d := by
  rintro rfl
  cases h.symm.trans hd

theorem ge_of_isShortEscape {e : Char} (h : isShortEscape e = true) : ¬ e < ' ' := by
  intro hlt
  have hall : ∀ n < 32, isShortEscape (Char.ofNat n) = false := by decide
  have hno := hall e.toNat hlt
  rw [Char.ofNat_toNat, h] at hno
  cases hno

theorem ge_of_isHexDigit {c : Char} (h : LooseToken.isHexDigit c = true) : ¬ c < ' ' := by
  intro hlt
  have hall : ∀ n < 32, LooseToken.isHexDigit (Char.ofNat n) = false := by decide
  have hno := hall c.toNat hlt
  rw [Char.ofNat_toNat, h] at hno
  cases hno

theorem IsBody.ge {cs : List Char} (h : IsBody cs) : ∀ c ∈ cs, ¬ c < ' ' := by
  induction h with
  | nil => exact fun _ hc => absurd hc List.not_mem_nil
  | plain _ _ hc _ ih => exact List.forall_mem_cons.mpr ⟨hc, ih⟩
  | short he _ ih =>
    exact List.forall_mem_cons.mpr ⟨by decide,
      List.forall_mem_cons.mpr ⟨ge_of_isShortEscape he, ih⟩⟩
  | @unit p q r s cs hex _ ih =>
    have hdigits : ∀ c ∈ [p, q, r, s], ¬ c < ' ' := fun c hc => ge_of_isHexDigit (hex c hc)
    intro c hc
    simp only [List.mem_cons] at hc
    rcases hc with rfl | rfl | hc
    · decide
    · decide
    · rcases List.mem_append.mp (show c ∈ [p, q, r, s] ++ cs by simpa using hc) with hc | hc
      · exact hdigits c hc
      · exact ih c hc

/-! ### The strict reader -/

theorem isHexGlyph_some (c : Char) : isHexGlyph (some c) = LooseToken.isHexDigit c := rfl

theorem IsBody.strict {cs : List Char} (h : IsBody cs) (rest : List Glyph) :
    stringBody? (cs.map some ++ some '"' :: rest) = some (cs.map some, rest) := by
  induction h with
  | nil =>
    rw [List.map_nil, List.nil_append, stringBody?.eq_def]
    rfl
  | plain hquote hescape hc _ ih =>
    rw [List.map_cons, List.cons_append, stringBody?.eq_def]
    simp only [hquote, hescape, hc, if_false, ih]
    rfl
  | short he _ ih =>
    rw [List.map_cons, List.map_cons, List.cons_append, List.cons_append,
      stringBody?.eq_4 _ _ _ fun _ _ _ _ _ _ hu => isShortEscape_ne he rfl hu,
      if_neg (by decide), if_pos rfl, if_pos he, ih]
    rfl
  | @unit p q r s cs hex _ ih =>
    simp only [List.map_cons, List.cons_append]
    rw [stringBody?.eq_3, if_neg (by decide), if_pos rfl]
    simp only [isHexGlyph_some, hex p (by simp), hex q (by simp), hex r (by simp), hex s (by simp),
      Bool.and_self, if_true, ih]
    rfl

theorem isBody_of_stringBody? {cs : List Char} {body rest : List Glyph}
    (h : stringBody? (cs.map some) = some (body, rest)) :
    ∃ b r, IsBody b ∧ body = b.map some ∧ rest = r.map some ∧ cs = b ++ '"' :: r := by
  generalize hcs : cs.map some = gs at h
  fun_induction stringBody? gs generalizing cs body rest with
  | case1 | case5 | case7 | case8 | case9 => cases h
  | case2 tail _ =>
    obtain ⟨_, _, _, ⟨⟩, -⟩ := List.map_eq_cons_iff.mp hcs
  | case3 =>
    obtain ⟨_, cs, rfl, ⟨⟩, rfl⟩ := List.map_eq_cons_iff.mp hcs
    cases h
    exact ⟨[], cs, .nil, rfl, rfl, rfl⟩
  | case4 p q r s tail hex _ ih =>
    obtain ⟨⟨body, rest⟩, hbody, ⟨⟩⟩ := Option.bind_eq_some_iff.mp h
    simp only [List.map_eq_cons_iff] at hcs
    obtain ⟨_, _, rfl, ⟨⟩, _, _, rfl, ⟨⟩, hcs⟩ := hcs
    obtain ⟨p, _, rfl, rfl, q, _, rfl, rfl, hcs⟩ := hcs
    obtain ⟨r, _, rfl, rfl, s, cs, rfl, rfl, hcs⟩ := hcs
    obtain ⟨b, after, hb, rfl, rfl, rfl⟩ := ih hcs hbody
    refine ⟨'\\' :: 'u' :: p :: q :: r :: s :: b, after, .unit ?_ hb, rfl, rfl, rfl⟩
    simpa [isHexGlyph_some, and_assoc] using hex
  | case6 e tail _ he _ ih =>
    obtain ⟨⟨body, rest⟩, hbody, ⟨⟩⟩ := Option.bind_eq_some_iff.mp h
    simp only [List.map_eq_cons_iff] at hcs
    obtain ⟨_, _, rfl, ⟨⟩, _, cs, rfl, ⟨⟩, hcs⟩ := hcs
    obtain ⟨b, after, hb, rfl, rfl, rfl⟩ := ih hcs hbody
    exact ⟨'\\' :: e :: b, after, .short he hb, rfl, rfl, rfl⟩
  | case10 c tail hquote hescape hc ih =>
    obtain ⟨⟨body, rest⟩, hbody, ⟨⟩⟩ := Option.bind_eq_some_iff.mp h
    obtain ⟨_, cs, rfl, ⟨⟩, htail⟩ := List.map_eq_cons_iff.mp hcs
    obtain ⟨b, after, hb, rfl, rfl, rfl⟩ := ih htail hbody
    exact ⟨c :: b, after, .plain hquote hescape hc hb, rfl, rfl, rfl⟩

/-! ### The loose reader -/

theorem spell_plain {c : Char} (hq : c ≠ '"') (hc : ¬ c < ' ') : LooseToken.spell c = [c] := by
  have hne : ∀ d : Char, d < ' ' → c ≠ d := fun d hd he => hc (he ▸ hd)
  have h1 := hne '\x08' (by decide)
  have h2 := hne '\t' (by decide)
  have h3 := hne '\n' (by decide)
  have h4 := hne '\x0c' (by decide)
  have h5 := hne '\r' (by decide)
  unfold LooseToken.spell
  split
  case h_7 => exact if_neg hc
  all_goals contradiction

theorem IsBody.loose {cs : List Char} (h : IsBody cs) (rest : List Char) :
    LooseToken.stringBody? '"' (cs ++ '"' :: rest) = some (cs, rest) := by
  induction h with
  | nil =>
    rw [List.nil_append, LooseToken.stringBody?.eq_def]
    rfl
  | plain hquote hescape hc _ ih =>
    rw [List.cons_append, LooseToken.stringBody?.eq_def]
    simp only [hquote, hescape, if_false, spell_plain hquote hc, ih]
    rfl
  | @short e cs he _ ih =>
    rw [List.cons_append, List.cons_append, LooseToken.stringBody?.eq_5 _ _ e _
      (fun _ _ _ _ _ hu _ => isShortEscape_ne he rfl hu)
      (fun _ _ _ hx _ => isShortEscape_ne he rfl hx) (fun _ hr _ => isShortEscape_ne he rfl hr),
      if_neg (by decide), if_pos rfl, LooseToken.shortEscape?, if_pos he]
    simp only [ih]
    rfl
  | @unit p q r s cs hex _ ih =>
    have hall : [p, q, r, s].all LooseToken.isHexDigit = true := List.all_eq_true.mpr hex
    simp only [List.cons_append]
    rw [LooseToken.stringBody?.eq_2, if_neg (by decide), if_pos rfl, if_pos hall, ih]
    rfl

/-! ### What a quoted text spells -/

namespace Spelling

theorem hexOf_low {c : Char} (h : c.toNat < 32) :
    hexOf [some '0', some '0', some (Text.hexDigit (c.toNat / 16)),
      some (Text.hexDigit (c.toNat % 16))] = c.toNat := by
  have h1 := Text.hexDigit?_hexDigit (n := c.toNat / 16) (by omega)
  have h2 := Text.hexDigit?_hexDigit (n := c.toNat % 16) (by omega)
  have h0 : Text.hexDigit? '0' = some 0 := rfl
  simp only [hexOf, Text.ofDigits, List.map_cons, List.map_nil, Option.bind_some, h0, h1, h2,
    Option.getD_some, List.foldl_cons, List.foldl_nil]
  omega

theorem pieces_escape (c : Char) (rest : List Glyph) :
    pieces ((escape c).map some ++ rest) = .char c :: pieces rest ∨
    c.toNat < 32 ∧ pieces ((escape c).map some ++ rest) = .unit c.toNat :: pieces rest := by
  rcases escape_cases c with ⟨e, he, -, hu, hshort⟩ | ⟨hlt, he⟩ | ⟨he, -, hb, -⟩
  · left
    rw [he]
    simp only [List.map_cons, List.map_nil, List.cons_append, List.nil_append]
    rw [pieces.eq_4 _ e rest fun _ _ _ _ _ _ h => hu h, if_pos rfl, hshort]
  · refine Or.inr ⟨hlt, ?_⟩
    rw [he]
    simp only [List.map_cons, List.map_nil, List.cons_append, List.nil_append]
    rw [pieces.eq_3, if_pos rfl, hexOf_low hlt]
  · left
    rw [he]
    simp only [List.map_cons, List.map_nil, List.cons_append, List.nil_append]
    rw [pieces.eq_def]
    simp only [hb, if_false]

theorem isHighSurrogate_iff {n : Nat} : isHighSurrogate n = true ↔ 0xD800 ≤ n ∧ n ≤ 0xDBFF := by
  rw [isHighSurrogate, Bool.and_eq_true, decide_eq_true_eq, decide_eq_true_eq]

theorem isLowSurrogate_iff {n : Nat} : isLowSurrogate n = true ↔ 0xDC00 ≤ n ∧ n ≤ 0xDFFF := by
  rw [isLowSurrogate, Bool.and_eq_true, decide_eq_true_eq, decide_eq_true_eq]

theorem codePoints_of_not_high {n : Nat} (h : ¬ isHighSurrogate n = true) (rest : List Piece) :
    codePoints (.unit n :: rest) = n :: codePoints rest := by
  rw [codePoints.eq_def]
  split <;> simp_all

theorem not_high_of_low {n : Nat} (h : n < 32) : ¬ isHighSurrogate n = true := by
  rw [isHighSurrogate_iff]
  omega

theorem characters?_low {n : Nat} (h : n < 32) (rest : List Piece) :
    characters? (.unit n :: rest) = (characters? rest).map (Char.ofNat n :: ·) := by
  have hlow : ¬ isLowSurrogate n = true := by
    rw [isLowSurrogate_iff]
    omega
  rw [characters?.eq_def]
  simp only [if_neg (not_high_of_low h), if_neg hlow]

theorem text?_escaped (s : String) : text? (escaped s) = some s := by
  have hchars : characters? (pieces (escaped s)) = some s.toList := by
    unfold escaped escapedChars
    induction s.toList with
    | nil => rfl
    | cons c cs ih =>
      rw [List.flatMap_cons, List.map_append]
      rcases pieces_escape c ((cs.flatMap escape).map some) with h | ⟨hlt, h⟩
      · rw [h, characters?, ih]
        rfl
      · rw [h, characters?_low hlt, ih, Char.ofNat_toNat]
        rfl
  rw [text?, hchars, Option.map_some, String.ofList_toList]

theorem label_escaped (s : String) : label (escaped s) = s.toList.map Char.toNat := by
  unfold label escaped escapedChars
  induction s.toList with
  | nil => rfl
  | cons c cs ih =>
    rw [List.flatMap_cons, List.map_append]
    rcases pieces_escape c ((cs.flatMap escape).map some) with h | ⟨hlt, h⟩
    · rw [h, codePoints, ih]
      rfl
    · rw [h, codePoints_of_not_high (not_high_of_low hlt), ih]
      rfl

theorem codePoints_inj {s t : String} (h : s.toList.map Char.toNat = t.toList.map Char.toNat) :
    s = t := by
  have hinj : ∀ as bs : List Char, as.map Char.toNat = bs.map Char.toNat → as = bs := by
    intro as
    induction as with
    | nil =>
      intro bs hb
      cases bs with
      | nil => rfl
      | cons b bs => cases hb
    | cons a as ih =>
      intro bs hb
      cases bs with
      | nil => cases hb
      | cons b bs =>
        obtain ⟨hhead, htail⟩ := List.cons.inj hb
        have hab : a = b := Char.toNat_inj.mp hhead
        rw [hab, ih bs htail]
  exact String.toList_inj.mp (hinj _ _ h)

def NulFree (s : String) : Prop := '\x00' ∉ s.toList

instance (s : String) : Decidable (NulFree s) := inferInstanceAs (Decidable ('\x00' ∉ s.toList))

theorem labelKey_of_nulFree {s : String} (h : NulFree s) :
    labelKey (s.toList.map Char.toNat) = s.toList.map Char.toNat := by
  have hall : ∀ n ∈ s.toList.map Char.toNat, (n != 0) = true := by
    intro n hn
    obtain ⟨c, hc, rfl⟩ := List.mem_map.mp hn
    rw [bne_iff_ne]
    intro h0
    have hc0 : c = '\x00' := Char.toNat_inj.mp h0
    exact h (hc0 ▸ hc)
  exact Text.takeWhile_all hall

theorem sameLabel_escaped {s t : String} (hs : NulFree s) (ht : NulFree t) :
    sameLabel (escaped s) (escaped t) = decide (s = t) := by
  rw [sameLabel, label_escaped, label_escaped, labelKey_of_nulFree hs, labelKey_of_nulFree ht]
  by_cases h : s = t
  · rw [h, decide_eq_true rfl]
    exact beq_self_eq_true _
  · rw [decide_eq_false h, beq_eq_false_iff_ne]
    exact fun he => h (codePoints_inj he)

end Spelling
end TokenKeeper.Json
