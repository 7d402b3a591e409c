import TokenKeeper.Proofs.Json.Printed

/-!
# Pretty texts

A pretty text is a layout of the same tokens as the compact text, with a line break and blanks
before every item, member and closing bracket. So the strict reader gives back the same tree.
-/
namespace TokenKeeper.Json

open Spelling (layout_closed)

theorem layout_newLine (level : Nat) {ts : List Token} {cs : List Char} (h : Layout ts cs) :
    Layout ts (newLine level ++ cs) := by
  have hblanks : ∀ n, Layout ts (List.replicate n ' ' ++ cs) := by
    intro n
    induction n with
    | zero => simpa using h
    | succ n ih => simpa [List.replicate_succ] using Layout.blank ' ' rfl ih
  exact Layout.blank '\n' rfl (hblanks (2 * level))

theorem apart_prettyItems (level : Nat) (rest : List Json) (cs : List Char) :
    Apart (prettyItems level rest ++ cs) := by
  cases rest with
  | nil => exact headIn_cons (by decide)
  | cons x rest => exact headIn_cons (by decide)

theorem apart_prettyMembers (level : Nat) (rest : List (String × Json)) (cs : List Char) :
    Apart (prettyMembers level rest ++ cs) := by
  cases rest with
  | nil => exact headIn_cons (by decide)
  | cons m rest => exact headIn_cons (by decide)

theorem layout_quoted (k : String) {ts : List Token} {cs : List Char} (h : Layout ts cs) :
    Layout (.str (escaped k) :: ts) (quoted k ++ cs) := by
  have hkey := layout_closed (reads_str k) rfl h
  rwa [Token.chars, stringChars_escaped] at hkey

mutual

theorem layout_prettyChars : ∀ (j : Json) (level : Nat) {ts : List Token} {cs : List Char},
    Apart cs → Layout ts cs →
      Layout (j.spelling.tokens ++ ts) (prettyChars level j ++ cs)
  | .null, _, _, _, ha, h => Layout.token reads_null (fun _ => ha) h
  | .bool true, _, _, _, ha, h => Layout.token (reads_bool true) (fun _ => ha) h
  | .bool false, _, _, _, ha, h => Layout.token (reads_bool false) (fun _ => ha) h
  | .int n, _, _, _, ha, h => Layout.token (reads_int n) (fun _ => ha) h
  | .float x, _, _, _, ha, h => Layout.token (reads_float x) (fun _ => ha) h
  | .str s, _, _, _, _, h => layout_quoted s h
  | .arr [], _, _, _, _, h =>
    layout_closed reads_openList rfl (layout_closed reads_closeList rfl h)
  | .arr (x :: rest), level, ts, cs, _, h => by
    have hitems := layout_prettyItems rest level h
    have hvalue := layout_prettyChars x (level + 1) (apart_prettyItems level rest cs) hitems
    have hall := layout_closed reads_openList rfl (layout_newLine (level + 1) hvalue)
    simpa [spelling, itemSpellings, Spelling.tokens, prettyChars, Token.chars] using hall
  | .obj [], _, _, _, _, h =>
    layout_closed reads_openMembers rfl (layout_closed reads_closeMembers rfl h)
  | .obj ((k, x) :: rest), level, ts, cs, _, h => by
    have hmembers := layout_prettyMembers rest level h
    have hvalue := layout_prettyChars x (level + 1) (apart_prettyMembers level rest cs) hmembers
    have hpair := layout_quoted k (layout_closed reads_colon rfl (.blank ' ' rfl hvalue))
    have hall := layout_closed reads_openMembers rfl (layout_newLine (level + 1) hpair)
    simpa [spelling, memberSpellings, Spelling.tokens, prettyChars, Token.chars] using hall

theorem layout_prettyItems : ∀ (rest : List Json) (level : Nat) {ts : List Token}
    {cs : List Char}, Layout ts cs →
      Layout (Spelling.itemTokens (itemSpellings rest) ++ ts) (prettyItems level rest ++ cs)
  | [], level, ts, cs, h => by
    have hclose := layout_newLine level (layout_closed reads_closeList rfl h)
    simpa [itemSpellings, Spelling.itemTokens, prettyItems, Token.chars] using hclose
  | x :: rest, level, ts, cs, h => by
    have hitems := layout_prettyItems rest level h
    have hvalue := layout_prettyChars x (level + 1) (apart_prettyItems level rest cs) hitems
    have hall := layout_closed reads_comma rfl (layout_newLine (level + 1) hvalue)
    simpa [itemSpellings, Spelling.itemTokens, prettyItems, Token.chars] using hall

theorem layout_prettyMembers : ∀ (rest : List (String × Json)) (level : Nat) {ts : List Token}
    {cs : List Char}, Layout ts cs →
      Layout (Spelling.memberTokens (memberSpellings rest) ++ ts) (prettyMembers level rest ++ cs)
  | [], level, ts, cs, h => by
    have hclose := layout_newLine level (layout_closed reads_closeMembers rfl h)
    simpa [memberSpellings, Spelling.memberTokens, prettyMembers, Token.chars] using hclose
  | (k, x) :: rest, level, ts, cs, h => by
    have hmembers := layout_prettyMembers rest level h
    have hvalue := layout_prettyChars x (level + 1) (apart_prettyMembers level rest cs) hmembers
    have hpair := layout_quoted k (layout_closed reads_colon rfl (.blank ' ' rfl hvalue))
    have hall := layout_closed reads_comma rfl (layout_newLine (level + 1) hpair)
    simpa [memberSpellings, Spelling.memberTokens, prettyMembers, Token.chars] using hall

end

theorem ofText?_pretty (j : Json) : Spelling.ofText? j.pretty = some j.spelling := by
  have hlayout := layout_prettyChars j 0 (headIn_nil _) Layout.nil
  rw [List.append_nil, List.append_nil] at hlayout
  exact Spelling.ofText?_of_layout hlayout

end TokenKeeper.Json
