import TokenKeeper.Proofs.Json.Decimal
import TokenKeeper.Proofs.Json.Quoted

/-!
# Printed tokens

A text is a row of tokens with blanks between them, in which a comma, a closing bracket, a blank or
the end follows every word and number. Both readers split such a text into its tokens.
-/
namespace TokenKeeper.Json

def Token.chars : Token → List Char
  | .openList => ['[']
  | .closeList => [']']
  | .openMembers => ['\x7b']
  | .closeMembers => ['\x7d']
  | .comma => [',']
  | .colon => [':']
  | .null => "null".toList
  | .bool true => "true".toList
  | .bool false => "false".toList
  | .num spelled => spelled
  | .str spelled => Spelling.stringChars spelled

def Token.isOpenEnded : Token → Bool
  | .null | .bool _ | .num _ => true
  | _ => false

structure Token.Reads (t : Token) : Prop where
  nulFree : '\x00' ∉ t.chars
  start : ∀ rest, (t.isOpenEnded = true → Apart rest) →
    ∃ c cs, t.chars = c :: cs ∧ isSpace c = false ∧
      Token.start? c ((cs ++ rest).map some) = some (t, rest.map some) ∧
      LooseToken.start? c (cs ++ rest) = some (some (.json t), rest)

/-! ### Brackets, words and strings -/

theorem reads_openList : Token.openList.Reads :=
  ⟨by decide, fun _ _ => ⟨'[', [], rfl, rfl, rfl, rfl⟩⟩

theorem reads_closeList : Token.closeList.Reads :=
  ⟨by decide, fun _ _ => ⟨']', [], rfl, rfl, rfl, rfl⟩⟩

theorem reads_openMembers : Token.openMembers.Reads :=
  ⟨by decide, fun _ _ => ⟨'\x7b', [], rfl, rfl, rfl, rfl⟩⟩

theorem reads_closeMembers : Token.closeMembers.Reads :=
  ⟨by decide, fun _ _ => ⟨'\x7d', [], rfl, rfl, rfl, rfl⟩⟩

theorem reads_comma : Token.comma.Reads :=
  ⟨by decide, fun _ _ => ⟨',', [], rfl, rfl, rfl, rfl⟩⟩

theorem reads_colon : Token.colon.Reads :=
  ⟨by decide, fun _ _ => ⟨':', [], rfl, rfl, rfl, rfl⟩⟩

theorem separator_cases {c : Char} (h : c ∈ separators) :
    c = ',' ∨ c = ']' ∨ c = '\x7d' ∨ c = ' ' ∨ c = '\n' ∨ c = '\r' ∨ c = '\t' := by
  simpa [separators] using h

theorem reads_null : Token.null.Reads := by
  refine ⟨by decide, fun rest h => ⟨'n', ['u', 'l', 'l'], rfl, rfl, rfl, ?_⟩⟩
  cases rest with
  | nil => rfl
  | cons c rest =>
    rcases separator_cases (h rfl c rest rfl) with rfl | rfl | rfl | rfl | rfl | rfl | rfl <;> rfl

theorem reads_bool (b : Bool) : (Token.bool b).Reads := by
  cases b with
  | false =>
    refine ⟨by decide, fun rest h => ⟨'f', ['a', 'l', 's', 'e'], rfl, rfl, rfl, ?_⟩⟩
    cases rest with
    | nil => rfl
    | cons c rest =>
      rcases separator_cases (h rfl c rest rfl) with rfl | rfl | rfl | rfl | rfl | rfl | rfl <;> rfl
  | true =>
    refine ⟨by decide, fun rest h => ⟨'t', ['r', 'u', 'e'], rfl, rfl, rfl, ?_⟩⟩
    cases rest with
    | nil => rfl
    | cons c rest =>
      rcases separator_cases (h rfl c rest rfl) with rfl | rfl | rfl | rfl | rfl | rfl | rfl <;> rfl

theorem chars_str (b : List Char) : (Token.str (b.map some)).chars = '"' :: (b ++ ['"']) := by
  rw [Token.chars, Spelling.stringChars, Spelling.glyphChars, List.map_map]
  simp [Function.comp_def]

theorem reads_body {b : List Char} (h : IsBody b) : (Token.str (b.map some)).Reads := by
  have hnul : '\x00' ∉ (Token.str (b.map some)).chars := by
    rw [chars_str, List.mem_cons, List.mem_append, List.mem_singleton]
    rintro (hc | hc | hc)
    · exact absurd hc (by decide)
    · exact h.ge _ hc (by decide)
    · exact absurd hc (by decide)
  refine ⟨hnul, fun rest _ => ⟨'"', b ++ ['"'], chars_str b, rfl, ?_, ?_⟩⟩
  · have hbody := h.strict (rest.map some)
    rw [List.append_assoc, List.map_append]
    change (stringBody? (b.map some ++ some '"' :: rest.map some)).map _ = _
    rw [hbody]
    rfl
  · have hbody := h.loose rest
    rw [List.append_assoc]
    change (LooseToken.stringBody? '"' (b ++ '"' :: rest)).map _ = _
    rw [hbody]
    rfl

theorem reads_str (s : String) : (Token.str (escaped s)).Reads :=
  reads_body (isBody_escapedChars s)

/-! ### Numbers -/

theorem digit_cases {c : Char} (h : Text.isDigit c = true) :
    c ∈ ['0', '1', '2', '3', '4', '5', '6', '7', '8', '9'] := by
  obtain ⟨hlow, hhigh⟩ := Text.bounds_of_isDigit h
  have hall : ∀ n < 58, 48 ≤ n →
      Char.ofNat n ∈ ['0', '1', '2', '3', '4', '5', '6', '7', '8', '9'] := by decide
  have := hall c.toNat (Nat.lt_succ_of_le hhigh) hlow
  rwa [Char.ofNat_toNat] at this

theorem start?_digit {c : Char} (h : Text.isDigit c = true) :
    isSpace c = false ∧
    (∀ rest, Token.start? c rest = (magnitude? (some c :: rest)).map fun r => (.num r.1, r.2)) ∧
    (∀ cs, LooseToken.start? c cs =
      (LooseToken.magnitude? (c :: cs)).map fun r => (some (.json (.num r.1)), r.2)) ∧
    ∀ cs, LooseToken.signed? (c :: cs) = LooseToken.magnitude? (c :: cs) := by
  have hc := digit_cases h
  simp only [List.mem_cons, List.not_mem_nil, or_false] at hc
  rcases hc with rfl | rfl | rfl | rfl | rfl | rfl | rfl | rfl | rfl | rfl <;>
    exact ⟨rfl, fun _ => rfl, fun _ => rfl, fun _ => rfl⟩

theorem IsMagnitude.nulFree {m : List Char} (h : IsMagnitude m) : '\x00' ∉ m := by
  have hdigits : ∀ {ds : List Char}, Text.AllDigits ds → '\x00' ∉ ds :=
    fun hd hm => absurd (hd _ hm) (by decide)
  cases h with
  | parts hw hf he =>
    rw [List.mem_append, List.mem_append]
    rintro ((hm | hm) | hm)
    · exact hdigits hw.digits hm
    · cases hf with
      | none => cases hm
      | point hd => exact (List.mem_cons.mp hm).elim (by decide) (hdigits hd)
    · cases he with
      | none => cases hm
      | power hc hsign hd =>
        rcases List.mem_append.mp hm with hm | hm
        · rcases hc with rfl | rfl <;> rcases hsign with rfl | rfl | rfl <;>
            exact absurd hm (by decide)
        · exact hdigits hd hm

theorem IsMagnitude.head {m : List Char} (h : IsMagnitude m) :
    ∃ c cs, m = c :: cs ∧ Text.isDigit c = true := by
  cases h with
  | parts hw =>
    obtain ⟨c, cs, rfl⟩ := List.exists_cons_of_ne_nil hw.nonempty
    exact ⟨c, _, rfl, hw.digits c List.mem_cons_self⟩

theorem reads_magnitude {m : List Char} (h : IsMagnitude m) : (Token.num m).Reads := by
  obtain ⟨c, cs, rfl, hdigit⟩ := h.head
  obtain ⟨hspace, hstart, hloose, -⟩ := start?_digit hdigit
  refine ⟨h.nulFree, fun rest hrest => ⟨c, cs, rfl, hspace, ?_, ?_⟩⟩
  · rw [hstart, ← List.map_cons (f := some), ← List.cons_append, h.strict (hrest rfl)]
    rfl
  · rw [hloose, ← List.cons_append, h.loose (hrest rfl)]
    rfl

theorem reads_minus {m : List Char} (h : IsMagnitude m) : (Token.num ('-' :: m)).Reads := by
  obtain ⟨c, cs, rfl, hdigit⟩ := h.head
  obtain ⟨-, -, -, hsigned⟩ := start?_digit hdigit
  have hnul : '\x00' ∉ (Token.num ('-' :: c :: cs)).chars :=
    fun hm => (List.mem_cons.mp hm).elim (by decide) h.nulFree
  refine ⟨hnul, fun rest hrest => ⟨'-', c :: cs, rfl, rfl, ?_, ?_⟩⟩
  · change (magnitude? ((c :: cs ++ rest).map some)).map _ = _
    rw [h.strict (hrest rfl)]
    rfl
  · change (LooseToken.signed? (c :: cs ++ rest)).map _ = _
    rw [List.cons_append, hsigned, ← List.cons_append, h.loose (hrest rfl)]
    rfl

theorem reads_int (n : Int) : (Token.num (Text.intChars n)).Reads :=
  match n with
  | .ofNat n => reads_magnitude (isMagnitude_natChars n)
  | .negSucc n => reads_minus (isMagnitude_natChars (n + 1))

theorem reads_float (x : Binary64) : (Token.num x.text.toList).Reads := by
  obtain ⟨m, hm, htext⟩ := x.isMagnitude_text
  rw [htext]
  split
  · exact reads_minus hm
  · exact reads_magnitude hm

/-! ### Tokens of the grammar -/

inductive IsNumber : List Char → Prop
  | magnitude {m : List Char} (h : IsMagnitude m) : IsNumber m
  | minus {m : List Char} (h : IsMagnitude m) : IsNumber ('-' :: m)

def Token.IsGrammatical : Token → Prop
  | .num spelled => IsNumber spelled
  | .str spelled => ∃ b, spelled = b.map some ∧ IsBody b
  | _ => True

theorem Token.IsGrammatical.reads {t : Token} (h : t.IsGrammatical) : t.Reads := by
  cases t with
  | openList => exact reads_openList
  | closeList => exact reads_closeList
  | openMembers => exact reads_openMembers
  | closeMembers => exact reads_closeMembers
  | comma => exact reads_comma
  | colon => exact reads_colon
  | null => exact reads_null
  | bool b => exact reads_bool b
  | num spelled =>
    cases h with
    | magnitude h => exact reads_magnitude h
    | minus h => exact reads_minus h
  | str spelled =>
    obtain ⟨b, rfl, hb⟩ := h
    exact reads_body hb

/-! ### Rows of tokens -/

theorem isSpace_cases {c : Char} (h : isSpace c = true) :
    c = ' ' ∨ c = '\n' ∨ c = '\r' ∨ c = '\t' := by
  simpa [isSpace, or_assoc] using h

theorem looseStart?_blank {c : Char} (h : isSpace c = true) (cs : List Char) :
    LooseToken.start? c cs = some (none, cs) := by
  rcases isSpace_cases h with rfl | rfl | rfl | rfl <;> rfl

/-- A text in which these tokens stand in a row, with blanks between them. -/
inductive Layout : List Token → List Char → Prop
  | nil : Layout [] []
  | blank {ts : List Token} {cs : List Char} (c : Char) (hc : isSpace c = true) :
      Layout ts cs → Layout ts (c :: cs)
  | token {ts : List Token} {cs : List Char} {t : Token} (ht : t.Reads)
      (hend : t.isOpenEnded = true → Apart cs) : Layout ts cs → Layout (t :: ts) (t.chars ++ cs)

theorem Layout.nulFree {ts : List Token} {cs : List Char} (h : Layout ts cs) : '\x00' ∉ cs := by
  induction h with
  | nil => exact List.not_mem_nil
  | blank c hc _ ih =>
    intro hm
    rcases List.mem_cons.mp hm with hm | hm
    · rw [← hm] at hc
      exact absurd hc (by decide)
    · exact ih hm
  | token ht _ _ ih =>
    intro hm
    rcases List.mem_append.mp hm with hm | hm
    · exact ht.nulFree hm
    · exact ih hm

/-- A database, which ends a text before its first NUL, reads all of it. -/
theorem Layout.takeWhile_eq {ts : List Token} {cs : List Char} (h : Layout ts cs) :
    cs.takeWhile (· != '\x00') = cs := by
  refine Text.takeWhile_all fun c hc => ?_
  rw [bne_iff_ne]
  exact fun he => h.nulFree (he ▸ hc)

theorem Layout.scanUpTo {ts : List Token} {cs : List Char} (h : Layout ts cs) {fuel : Nat}
    (hf : cs.length ≤ fuel) : Token.scanUpTo fuel (cs.map some) = some ts := by
  induction h generalizing fuel with
  | nil =>
    rw [List.map_nil, Token.scanUpTo]
  | blank c hc _ ih =>
    obtain ⟨fuel, rfl⟩ := Nat.exists_eq_add_of_le' (Nat.lt_of_lt_of_le (Nat.zero_lt_succ _) hf)
    rw [List.map_cons, Token.scanUpTo, if_pos hc]
    exact ih (Nat.le_of_succ_le_succ hf)
  | @token ts cs t ht hend _ ih =>
    obtain ⟨c, body, hchars, hspace, hstart, -⟩ := ht.start cs hend
    rw [hchars, List.cons_append, List.length_cons, List.length_append] at hf
    obtain ⟨fuel, rfl⟩ := Nat.exists_eq_add_of_le' (Nat.lt_of_lt_of_le (Nat.zero_lt_succ _) hf)
    rw [hchars, List.cons_append, List.map_cons, Token.scanUpTo, if_neg (by rw [hspace]; decide),
      hstart]
    simp only [Option.bind_eq_bind, Option.bind_some, ih (show cs.length ≤ fuel by omega)]
    rfl

theorem Layout.looseScanUpTo {ts : List Token} {cs : List Char} (h : Layout ts cs) {fuel : Nat}
    (hf : cs.length ≤ fuel) : LooseToken.scanUpTo fuel cs = some (ts.map .json) := by
  induction h generalizing fuel with
  | nil => rw [LooseToken.scanUpTo, List.map_nil]
  | @blank ts cs c hc _ ih =>
    obtain ⟨fuel, rfl⟩ := Nat.exists_eq_add_of_le' (Nat.lt_of_lt_of_le (Nat.zero_lt_succ _) hf)
    rw [LooseToken.scanUpTo, looseStart?_blank hc]
    simp only [Option.bind_eq_bind, Option.bind_some, ih (Nat.le_of_succ_le_succ hf)]
    rfl
  | @token ts cs t ht hend _ ih =>
    obtain ⟨c, body, hchars, -, -, hstart⟩ := ht.start cs hend
    rw [hchars, List.cons_append, List.length_cons, List.length_append] at hf
    obtain ⟨fuel, rfl⟩ := Nat.exists_eq_add_of_le' (Nat.lt_of_lt_of_le (Nat.zero_lt_succ _) hf)
    rw [hchars, List.cons_append, LooseToken.scanUpTo, hstart]
    simp only [Option.bind_eq_bind, Option.bind_some, ih (show cs.length ≤ fuel by omega)]
    rfl

end TokenKeeper.Json
