import TokenKeeper.Text.Blank

/-!
# Secrets

A secret is a text that is kept apart from other texts so that it is never shown.
-/
namespace TokenKeeper

structure Secret where
  text : String
  deriving DecidableEq

def Secret.ofText? (text : String) : Option Secret :=
  let trimmed := Text.trim text
  if trimmed = "" then none else some ⟨trimmed⟩

end TokenKeeper
