import TokenKeeper.Proofs.Json.Agreement

/-!
# The grammar of a text

A tree is read from a text exactly if the text is a row of the tokens of the tree, each spelled as
the grammar has it, with blanks between them. Layouts say the same by what the readers take; here it
is said without them.
-/
namespace TokenKeeper.Json

/-- The texts of these tokens in a row. A comma, a closing bracket, a blank or the end follows every
word and number. -/
inductive TextOf : List Token → List Char → Prop
  | nil : TextOf [] []
  | blank {ts : List Token} {cs : List Char} {c : Char} (hc : isSpace c = true) :
    TextOf ts cs → TextOf ts (c :: cs)
  | token {ts : List Token} {cs : List Char} {t : Token} (ht : t.IsGrammatical)
    (hend : t.isOpenEnded = true → Apart cs) : TextOf ts cs → TextOf (t :: ts) (t.chars ++ cs)

theorem textOf_iff_layout {ts : List Token} {cs : List Char} : TextOf ts cs ↔ Layout ts cs := by
  constructor
  · intro h
    induction h with
    | nil => exact .nil
    | blank hc _ ih => exact .blank _ hc ih
    | token ht hend _ ih => exact .token ht.reads hend ih
  · intro h
    induction h with
    | nil => exact .nil
    | blank _ hc _ ih => exact .blank hc ih
    | token ht hend _ ih => exact .token (Token.reads_iff.mp ht) hend ih

namespace Spelling

theorem ofText?_eq_some_iff {text : String} {s : Spelling} :
    ofText? text = some s ↔ TextOf s.tokens text.toList := by
  rw [textOf_iff_layout]
  refine ⟨layout_of_ofText?, fun h => ?_⟩
  rw [← String.ofList_toList (s := text)]
  exact ofText?_of_layout h

end Spelling
end TokenKeeper.Json
