import TokenKeeper.Json.Printer
import TokenKeeper.Proofs.Json.Tree

/-!
# Printed values

The compact text of a value and the minified text of a tree are layouts of their tokens, so both
readers give the tree back. A value is spelled by tokens that read themselves.
-/
namespace TokenKeeper.Json

namespace Spelling

/-- Numbers and strings are spelled so that they are read as they are. -/
def Printed (s : Spelling) : Prop := ∀ t ∈ s.tokens, t.Reads

theorem apart_minifiedItems (rest : List Spelling) (cs : List Char) :
    Apart (minifiedItems rest ++ cs) := by
  cases rest with
  | nil => exact headIn_cons (by decide)
  | cons x rest => exact headIn_cons (by decide)

theorem apart_minifiedMembers (rest : List (List Glyph × Spelling)) (cs : List Char) :
    Apart (minifiedMembers rest ++ cs) := by
  cases rest with
  | nil => exact headIn_cons (by decide)
  | cons m rest => exact headIn_cons (by decide)

theorem layout_closed {t : Token} (ht : t.Reads) (hclosed : t.isOpenEnded = false)
    {ts : List Token} {cs : List Char} (h : Layout ts cs) : Layout (t :: ts) (t.chars ++ cs) :=
  Layout.token ht (fun he => absurd (hclosed.symm.trans he) (by decide)) h

theorem forall_mem_split {as bs : List Token} (h : ∀ t ∈ as ++ bs, t.Reads) :
    (∀ t ∈ as, t.Reads) ∧ ∀ t ∈ bs, t.Reads :=
  ⟨fun t ht => h t (List.mem_append_left _ ht), fun t ht => h t (List.mem_append_right _ ht)⟩

mutual

theorem layout_minifiedChars : ∀ (s : Spelling) {ts : List Token} {cs : List Char},
    (∀ t ∈ s.tokens, t.Reads) → Apart cs → Layout ts cs →
      Layout (s.tokens ++ ts) (minifiedChars s ++ cs)
  | .null, ts, cs, hr, ha, h => Layout.token (hr .null List.mem_cons_self) (fun _ => ha) h
  | .bool true, ts, cs, hr, ha, h =>
    Layout.token (hr (.bool true) List.mem_cons_self) (fun _ => ha) h
  | .bool false, ts, cs, hr, ha, h =>
    Layout.token (hr (.bool false) List.mem_cons_self) (fun _ => ha) h
  | .num spelled, ts, cs, hr, ha, h =>
    Layout.token (hr (.num spelled) List.mem_cons_self) (fun _ => ha) h
  | .str spelled, ts, cs, hr, _, h =>
    layout_closed (hr (.str spelled) List.mem_cons_self) rfl h
  | .arr [], ts, cs, _, _, h =>
    layout_closed reads_openList rfl (layout_closed reads_closeList rfl h)
  | .arr (x :: rest), ts, cs, hr, _, h => by
    rw [tokens, List.cons_append] at hr
    obtain ⟨hx, hrest⟩ := forall_mem_split fun t ht => hr t (List.mem_cons_of_mem _ ht)
    have hitems := layout_minifiedItems rest hrest h
    have hvalue := layout_minifiedChars x hx (apart_minifiedItems rest cs) hitems
    have hall := layout_closed reads_openList rfl hvalue
    simp only [tokens, minifiedChars, List.cons_append, List.append_assoc]
    exact hall
  | .obj [], ts, cs, _, _, h =>
    layout_closed reads_openMembers rfl (layout_closed reads_closeMembers rfl h)
  | .obj ((k, x) :: rest), ts, cs, hr, _, h => by
    rw [tokens, List.cons_append, List.cons_append, List.cons_append] at hr
    have hkey := hr (.str k) (List.mem_cons_of_mem _ List.mem_cons_self)
    obtain ⟨hx, hrest⟩ := forall_mem_split fun t ht =>
      hr t (List.mem_cons_of_mem _ (List.mem_cons_of_mem _ (List.mem_cons_of_mem _ ht)))
    have hmembers := layout_minifiedMembers rest hrest h
    have hvalue := layout_minifiedChars x hx (apart_minifiedMembers rest cs) hmembers
    have hpair := layout_closed hkey rfl (layout_closed reads_colon rfl hvalue)
    have hall := layout_closed reads_openMembers rfl hpair
    simp only [tokens, minifiedChars, List.cons_append, List.append_assoc]
    exact hall

theorem layout_minifiedItems : ∀ (rest : List Spelling) {ts : List Token} {cs : List Char},
    (∀ t ∈ itemTokens rest, t.Reads) → Layout ts cs →
      Layout (itemTokens rest ++ ts) (minifiedItems rest ++ cs)
  | [], ts, cs, _, h => layout_closed reads_closeList rfl h
  | x :: rest, ts, cs, hr, h => by
    rw [itemTokens, List.cons_append] at hr
    obtain ⟨hx, hrest⟩ := forall_mem_split fun t ht => hr t (List.mem_cons_of_mem _ ht)
    have hitems := layout_minifiedItems rest hrest h
    have hvalue := layout_minifiedChars x hx (apart_minifiedItems rest cs) hitems
    have hall := layout_closed reads_comma rfl hvalue
    simp only [itemTokens, minifiedItems, List.cons_append, List.append_assoc]
    exact hall

theorem layout_minifiedMembers : ∀ (rest : List (List Glyph × Spelling)) {ts : List Token}
    {cs : List Char}, (∀ t ∈ memberTokens rest, t.Reads) → Layout ts cs →
      Layout (memberTokens rest ++ ts) (minifiedMembers rest ++ cs)
  | [], ts, cs, _, h => layout_closed reads_closeMembers rfl h
  | (k, x) :: rest, ts, cs, hr, h => by
    rw [memberTokens, List.cons_append, List.cons_append, List.cons_append] at hr
    have hkey := hr (.str k) (List.mem_cons_of_mem _ List.mem_cons_self)
    obtain ⟨hx, hrest⟩ := forall_mem_split fun t ht =>
      hr t (List.mem_cons_of_mem _ (List.mem_cons_of_mem _ (List.mem_cons_of_mem _ ht)))
    have hmembers := layout_minifiedMembers rest hrest h
    have hvalue := layout_minifiedChars x hx (apart_minifiedMembers rest cs) hmembers
    have hpair := layout_closed hkey rfl (layout_closed reads_colon rfl hvalue)
    have hall := layout_closed reads_comma rfl hpair
    simp only [memberTokens, minifiedMembers, List.cons_append, List.append_assoc]
    exact hall

end

theorem layout_minified {s : Spelling} (h : s.Printed) : Layout s.tokens (minifiedChars s) := by
  have hlayout := layout_minifiedChars s h (headIn_nil _) Layout.nil
  rwa [List.append_nil, List.append_nil] at hlayout

theorem ofText?_minified {s : Spelling} (h : s.Printed) : ofText? s.minified = some s :=
  ofText?_of_layout (layout_minified h)

theorem ofLooseText?_minified {s : Spelling} (h : s.Printed) (hdepth : s.depth ≤ deepest) :
    ofLooseText? s.minified = some s :=
  ofLooseText?_of_layout (layout_minified h) hdepth

end Spelling

/-! ### Values as trees -/

mutual

def spelling : Json → Spelling
  | .null => .null
  | .bool b => .bool b
  | .int n => .num (Text.intChars n)
  | .float x => .num x.text.toList
  | .str s => .str (escaped s)
  | .arr items => .arr (itemSpellings items)
  | .obj members => .obj (memberSpellings members)

def itemSpellings : List Json → List Spelling
  | [] => []
  | x :: rest => spelling x :: itemSpellings rest

def memberSpellings : List (String × Json) → List (List Glyph × Spelling)
  | [] => []
  | (k, x) :: rest => (escaped k, spelling x) :: memberSpellings rest

end

theorem memberSpellings_eq (members : List (String × Json)) :
    memberSpellings members = members.map fun e => (escaped e.1, e.2.spelling) := by
  induction members with
  | nil => rfl
  | cons e rest ih => rw [memberSpellings, ih, List.map_cons]

mutual

theorem minifiedChars_spelling : ∀ j : Json, Spelling.minifiedChars j.spelling = compactChars j
  | .null => rfl
  | .bool true => rfl
  | .bool false => rfl
  | .int _ => rfl
  | .float _ => rfl
  | .str s => stringChars_escaped s
  | .arr [] => rfl
  | .arr (x :: rest) => by
    simp only [spelling, itemSpellings, Spelling.minifiedChars, compactChars,
      minifiedChars_spelling x, minifiedItems_spelling rest]
  | .obj [] => rfl
  | .obj ((k, x) :: rest) => by
    simp only [spelling, memberSpellings, Spelling.minifiedChars, compactChars,
      stringChars_escaped, minifiedChars_spelling x, minifiedMembers_spelling rest]

theorem minifiedItems_spelling : ∀ rest : List Json,
    Spelling.minifiedItems (itemSpellings rest) = compactItems rest
  | [] => rfl
  | x :: rest => by
    simp only [itemSpellings, Spelling.minifiedItems, compactItems, minifiedChars_spelling x,
      minifiedItems_spelling rest]

theorem minifiedMembers_spelling : ∀ rest : List (String × Json),
    Spelling.minifiedMembers (memberSpellings rest) = compactMembers rest
  | [] => rfl
  | (k, x) :: rest => by
    simp only [memberSpellings, Spelling.minifiedMembers, compactMembers, stringChars_escaped,
      minifiedChars_spelling x, minifiedMembers_spelling rest]

end

theorem minified_spelling (j : Json) : j.spelling.minified = j.compact := by
  rw [Spelling.minified, minifiedChars_spelling, compact]

theorem reads_cons {t : Token} {ts : List Token} (ht : t.Reads) (h : ∀ u ∈ ts, u.Reads) :
    ∀ u ∈ t :: ts, u.Reads := by
  intro u hu
  rcases List.mem_cons.mp hu with rfl | hu
  · exact ht
  · exact h u hu

theorem reads_append {as bs : List Token} (ha : ∀ t ∈ as, t.Reads) (hb : ∀ t ∈ bs, t.Reads) :
    ∀ t ∈ as ++ bs, t.Reads := by
  intro t ht
  rcases List.mem_append.mp ht with ht | ht
  · exact ha t ht
  · exact hb t ht

theorem reads_nil : ∀ t ∈ ([] : List Token), t.Reads := fun _ ht => absurd ht List.not_mem_nil

mutual

theorem printed_spelling : ∀ j : Json, j.spelling.Printed
  | .null => reads_cons reads_null reads_nil
  | .bool b => reads_cons (reads_bool b) reads_nil
  | .int n => reads_cons (reads_int n) reads_nil
  | .float x => reads_cons (reads_float x) reads_nil
  | .str s => reads_cons (reads_str s) reads_nil
  | .arr [] => reads_cons reads_openList (reads_cons reads_closeList reads_nil)
  | .arr (x :: rest) =>
    reads_cons reads_openList (reads_append (printed_spelling x) (printed_items rest))
  | .obj [] => reads_cons reads_openMembers (reads_cons reads_closeMembers reads_nil)
  | .obj ((k, x) :: rest) =>
    reads_cons reads_openMembers (reads_cons (reads_str k) (reads_cons reads_colon
      (reads_append (printed_spelling x) (printed_members rest))))

theorem printed_items : ∀ rest : List Json,
    ∀ t ∈ Spelling.itemTokens (itemSpellings rest), t.Reads
  | [] => reads_cons reads_closeList reads_nil
  | x :: rest => reads_cons reads_comma (reads_append (printed_spelling x) (printed_items rest))

theorem printed_members : ∀ rest : List (String × Json),
    ∀ t ∈ Spelling.memberTokens (memberSpellings rest), t.Reads
  | [] => reads_cons reads_closeMembers reads_nil
  | (k, x) :: rest =>
    reads_cons reads_comma (reads_cons (reads_str k) (reads_cons reads_colon
      (reads_append (printed_spelling x) (printed_members rest))))

end

theorem ofText?_compact (j : Json) : Spelling.ofText? j.compact = some j.spelling := by
  rw [← minified_spelling]
  exact Spelling.ofText?_minified j.printed_spelling

theorem ofLooseText?_compact {j : Json} (h : j.spelling.depth ≤ Spelling.deepest) :
    Spelling.ofLooseText? j.compact = some j.spelling := by
  rw [← minified_spelling]
  exact Spelling.ofLooseText?_minified j.printed_spelling h

theorem ofBytes?_compact (j : Json) :
    Spelling.ofBytes? (Utf8.encode j.compact) = some j.spelling := by
  rw [Spelling.ofBytes?, Utf8.glyphs_encode]
  exact ofText?_compact j

end TokenKeeper.Json
