import TokenKeeper.Text.Digit

/-!
# Written numbers read back

The digits of a number stand for it, with zeros in front or without, and a run of digits ends where
something else stands. Hexadecimal digits are read as they were written.
-/
namespace TokenKeeper.Text

def NoDigit (cs : List Char) : Prop := ∀ c rest, cs = c :: rest → isDigit c = false

theorem noDigit_nil : NoDigit [] := by
  intro c rest h
  cases h

theorem noDigit_cons {c : Char} {cs : List Char} (h : isDigit c = false) : NoDigit (c :: cs) := by
  intro d rest he
  cases he
  exact h

theorem isDigit_iff {c : Char} : isDigit c = true ↔ c.isDigit = true := by
  rw [isDigit, digit?, Char.isDigit, Bool.and_eq_true, decide_eq_true_eq, decide_eq_true_eq]
  split
  · next h => exact ⟨fun _ => h, fun _ => rfl⟩
  · next h => exact ⟨fun hf => absurd hf (by simp), fun hc => absurd hc h⟩

theorem bounds_of_isDigit {c : Char} (h : isDigit c = true) : 48 ≤ c.toNat ∧ c.toNat ≤ 57 := by
  rw [isDigit_iff, Char.isDigit, Bool.and_eq_true, decide_eq_true_eq, decide_eq_true_eq] at h
  exact h

theorem digit?_of_isDigit {c : Char} (h : isDigit c = true) : digit? c = some (c.toNat - 48) := by
  unfold isDigit digit? at h
  unfold digit?
  split
  · rfl
  · next hc => rw [if_neg hc] at h; cases h

def AllDigits (cs : List Char) : Prop := ∀ c ∈ cs, isDigit c = true

theorem allDigits_natChars (n : Nat) : AllDigits (natChars n) := fun _ hc =>
  isDigit_iff.mpr (Nat.isDigit_of_mem_toDigits (by decide) (by decide) hc)

theorem allDigits_padded (width n : Nat) : AllDigits (padded width n) := by
  intro c hc
  rcases List.mem_append.mp hc with hc | hc
  · rw [(List.mem_replicate.mp hc).2]
    decide
  · exact allDigits_natChars n c hc

theorem decimal_eq_ofDigitChars {cs : List Char} (h : AllDigits cs) :
    decimal cs = Nat.ofDigitChars 10 cs 0 := by
  have hstep : ∀ start, (cs.map fun c => (digit? c).getD 0).foldl (fun n d => n * 10 + d) start =
      Nat.ofDigitChars 10 cs start := by
    induction cs with
    | nil => intro start; rfl
    | cons c cs ih =>
      intro start
      rw [List.map_cons, List.foldl_cons, Nat.ofDigitChars_cons,
        digit?_of_isDigit (h c List.mem_cons_self), Nat.mul_comm start]
      exact ih (fun d hd => h d (List.mem_cons_of_mem _ hd)) _
  exact hstep 0

theorem decimal_natChars (n : Nat) : decimal (natChars n) = n := by
  rw [decimal_eq_ofDigitChars (allDigits_natChars n)]
  exact Nat.ofDigitChars_ten_toDigits

theorem decimal_padded (width n : Nat) : decimal (padded width n) = n := by
  rw [decimal_eq_ofDigitChars (allDigits_padded width n), padded, Nat.ofDigitChars_append,
    Nat.ofDigitChars_replicate_zero, Nat.mul_zero]
  exact Nat.ofDigitChars_ten_toDigits

theorem natChars_ne_nil (n : Nat) : natChars n ≠ [] := Nat.toDigits_ne_nil

theorem natChars_of_pos {n : Nat} (h : 0 < n) : ∃ c cs, natChars n = c :: cs ∧ c ≠ '0' := by
  induction n using Nat.strongRecOn with
  | ind n ih =>
    by_cases hn : n < 10
    · have hdigit : ∀ k < 10, 0 < k → Nat.digitChar k ≠ '0' := by decide
      exact ⟨_, [], Nat.toDigits_of_lt_base hn, hdigit n hn h⟩
    · obtain ⟨c, cs, hc, hne⟩ := ih (n / 10) (by omega) (by omega)
      refine ⟨c, cs ++ [Nat.digitChar (n % 10)], ?_, hne⟩
      rw [natChars, Nat.toDigits_of_base_le (by decide) (by omega), ← natChars, hc]
      rfl

theorem length_padded {width n : Nat} (hw : 0 < width) (h : n < Nat.pow 10 width) :
    (padded width n).length = width := by
  have hlen : (natChars n).length ≤ width :=
    (Nat.length_toDigits_le_iff (by decide) hw).mpr h
  rw [padded, List.length_append, List.length_replicate]
  omega

theorem padded_ne_nil (width n : Nat) : padded width n ≠ [] := by
  intro h
  exact natChars_ne_nil n (List.append_eq_nil_iff.mp h).2

/-! ### Runs of digits -/

theorem takeWhile_all {α : Type} {p : α → Bool} {cs : List α} (h : ∀ c ∈ cs, p c = true) :
    cs.takeWhile p = cs := by
  have htake : (cs ++ []).takeWhile p = cs ++ [].takeWhile p := List.takeWhile_append_of_pos h
  rwa [List.append_nil, List.takeWhile_nil, List.append_nil] at htake

theorem takeWhile_digits {ds rest : List Char} (hd : AllDigits ds) (hr : NoDigit rest) :
    (ds ++ rest).takeWhile isDigit = ds := by
  rw [List.takeWhile_append_of_pos hd]
  cases rest with
  | nil => simp
  | cons c rest => rw [List.takeWhile_cons_of_neg (by simp [hr c rest rfl]), List.append_nil]

theorem dropWhile_digits {ds rest : List Char} (hd : AllDigits ds) (hr : NoDigit rest) :
    (ds ++ rest).dropWhile isDigit = rest := by
  rw [List.dropWhile_append_of_pos hd]
  cases rest with
  | nil => rfl
  | cons c rest => rw [List.dropWhile_cons_of_neg (by simp [hr c rest rfl])]

/-! ### Hexadecimal digits -/

theorem hexDigit?_hexDigit {n : Nat} (h : n < 16) : hexDigit? (hexDigit n) = some n := by
  revert n
  decide

end TokenKeeper.Text
