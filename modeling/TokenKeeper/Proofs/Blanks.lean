import TokenKeeper.Proofs.RDropWhile
import TokenKeeper.Text.Blank

/-!
# What trimming leaves

A trimmed text stands between blanks and has none at its own ends. There is one such text in every
text, and trimming finds it (`trim_eq_iff`).
-/
namespace TokenKeeper.Text

/-- What is left of a text without the blanks at both ends. -/
structure Trimmed (raw text : String) : Prop where
  between : ∃ front back, raw.toList = front ++ (text.toList ++ back) ∧
    (∀ c ∈ front, isBlank c = true) ∧ ∀ c ∈ back, isBlank c = true
  first : ∀ c ∈ text.toList.head?, isBlank c = false
  last : ∀ c ∈ text.toList.getLast?, isBlank c = false

theorem trimEnd_eq (cs : List Char) : trimEnd cs = cs.rdropWhile isBlank := rfl

theorem trimChars_between {front back text : List Char} (hfront : ∀ c ∈ front, isBlank c = true)
    (hback : ∀ c ∈ back, isBlank c = true) (hfirst : ∀ c ∈ text.head?, isBlank c = false)
    (hlast : ∀ c ∈ text.getLast?, isBlank c = false) :
    trimChars (front ++ (text ++ back)) = text := by
  rw [trimChars, List.dropWhile_append_of_pos hfront]
  cases text with
  | nil => rw [List.nil_append, List.dropWhile_eq_nil_iff.mpr hback, trimEnd_nil]
  | cons c text =>
    have hc : isBlank c = false := hfirst c rfl
    rw [List.cons_append, List.dropWhile_cons_of_neg (by simp [hc]), ← List.cons_append,
      trimEnd_eq, rdropWhile_append hback, rdropWhile_of_last hlast]

theorem trimmed_trim (raw : String) : Trimmed raw (trim raw) := by
  have htoList : (trim raw).toList = (raw.toList.dropWhile isBlank).rdropWhile isBlank := by
    rw [trim, String.toList_ofList]
    rfl
  obtain ⟨back, hcut, hback⟩ := exists_append_rdropWhile isBlank (raw.toList.dropWhile isBlank)
  constructor
  · refine ⟨raw.toList.takeWhile isBlank, back, ?_, fun c => List.mem_takeWhile_imp, hback⟩
    rw [htoList, ← hcut, List.takeWhile_append_dropWhile]
  · intro c hc
    rw [htoList] at hc
    have hhead : (raw.toList.dropWhile isBlank).head? = some c := by
      rw [hcut, List.head?_append, Option.mem_def.mp hc]
      rfl
    have hnot := List.head?_dropWhile_not isBlank raw.toList
    rwa [hhead] at hnot
  · intro c hc
    rw [htoList] at hc
    exact last_of_rdropWhile hc

theorem trim_eq_iff {raw text : String} : trim raw = text ↔ Trimmed raw text := by
  refine ⟨fun h => h ▸ trimmed_trim raw, fun h => ?_⟩
  obtain ⟨⟨front, back, hraw, hfront, hback⟩, hfirst, hlast⟩ := h
  rw [trim, hraw, trimChars_between hfront hback hfirst hlast, String.ofList_toList]

end TokenKeeper.Text
