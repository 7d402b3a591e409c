import Mathlib.Data.List.DropRight

/-!
# The ends of lists

What is left of a list without the elements of a kind at its end.
-/
namespace TokenKeeper

variable {α : Type} {p : α → Bool} {l : List α}

theorem rdropWhile_append {back : List α} (h : ∀ x ∈ back, p x = true) (l : List α) :
    (l ++ back).rdropWhile p = l.rdropWhile p := by
  have hback : ∀ x ∈ back.reverse, p x = true := fun x hx => h x (List.mem_reverse.mp hx)
  rw [List.rdropWhile, List.reverse_append, List.dropWhile_append_of_pos hback, List.rdropWhile]

theorem rdropWhile_of_last (h : ∀ x ∈ l.getLast?, p x = false) : l.rdropWhile p = l := by
  rw [List.rdropWhile_eq_self_iff]
  intro hne hlast
  exact Bool.false_ne_true ((h _ (List.getLast?_eq_some_getLast hne)).symm.trans hlast)

theorem last_of_rdropWhile {x : α} (h : x ∈ (l.rdropWhile p).getLast?) : p x = false := by
  obtain ⟨hne, rfl⟩ := List.mem_getLast?_eq_getLast h
  exact Bool.eq_false_iff.mpr (List.rdropWhile_last_not p l hne)

theorem exists_append_rdropWhile (p : α → Bool) (l : List α) :
    ∃ back, l = l.rdropWhile p ++ back ∧ ∀ x ∈ back, p x = true :=
  ⟨l.rtakeWhile p, (List.rdropWhile_append_rtakeWhile ..).symm, fun _ => List.mem_rtakeWhile_imp⟩

end TokenKeeper
