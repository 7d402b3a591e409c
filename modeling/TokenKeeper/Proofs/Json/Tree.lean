import TokenKeeper.Json.Reader
import TokenKeeper.Proofs.Json.Layout

/-!
# Printed trees

The tokens of a tree in the order of its text, and the tree that both readers build of them. The
strict reader builds every tree; the loose one does as long as the tree is not too deep. Two texts
of a tree that differ in blanks only are read alike, so all that counts of a printer is its row of
tokens.
-/
namespace TokenKeeper.Json.Spelling

mutual

def tokens : Spelling → List Token
  | .null => [.null]
  | .bool b => [.bool b]
  | .num spelled => [.num spelled]
  | .str spelled => [.str spelled]
  | .arr [] => [.openList, .closeList]
  | .arr (x :: rest) => .openList :: tokens x ++ itemTokens rest
  | .obj [] => [.openMembers, .closeMembers]
  | .obj ((k, x) :: rest) => .openMembers :: .str k :: .colon :: tokens x ++ memberTokens rest

def itemTokens : List Spelling → List Token
  | [] => [.closeList]
  | x :: rest => .comma :: tokens x ++ itemTokens rest

def memberTokens : List (List Glyph × Spelling) → List Token
  | [] => [.closeMembers]
  | (k, x) :: rest => .comma :: .str k :: .colon :: tokens x ++ memberTokens rest

end

mutual

def depth : Spelling → Nat
  | .arr items => itemsDepth items + 1
  | .obj members => membersDepth members + 1
  | _ => 0

def itemsDepth : List Spelling → Nat
  | [] => 0
  | x :: rest => max (depth x) (itemsDepth rest)

def membersDepth : List (List Glyph × Spelling) → Nat
  | [] => 0
  | (_, x) :: rest => max (depth x) (membersDepth rest)

end

/-! ### The stages of a tree -/

def Stage.opened : Stage → Nat
  | .itemOrEnd stack | .keyOrEnd stack => stack.length + 1
  | _ => 0

/-- Going on like the strict reader while no more than so many brackets are open. -/
def Follows (step : Stage → Token → Option Stage) (limit : Nat) : Prop :=
  ∀ {stage t stage'}, Stage.next stage t = some stage' → stage'.opened ≤ limit →
    step stage t = some stage'

theorem follows_next (limit : Nat) : Follows Stage.next limit := fun h _ => h

theorem follows_nextLoose : Follows (fun stage t => stage.nextLoose (.json t)) deepest := by
  intro stage t stage' h hopened
  have hdeep : stage'.isTooDeep = false := by
    cases stage' with
    | itemOrEnd stack => exact decide_eq_false (by simp only [Stage.opened] at hopened; omega)
    | keyOrEnd stack => exact decide_eq_false (by simp only [Stage.opened] at hopened; omega)
    | value stack => rfl
    | key done stack => rfl
    | colon done key stack => rfl
    | after value stack => rfl
  have hfilter : (stage.next t).filter (fun s => !s.isTooDeep) = some stage' := by
    rw [h, Option.filter_some, hdeep]
    rfl
  change stage.nextLoose (.json t) = some stage'
  unfold Stage.nextLoose
  split
  · next heq => cases heq
  · next heq => cases heq
  · next heq => cases heq; cases h
  · next heq => cases heq; cases h
  · next heq => cases heq; exact hfilter
  · next heq => cases heq

def Stage.Begins (start : Stage) (stack : List Frame) : Prop :=
  ∀ t, t ≠ .closeList → start.next t = Stage.begin stack t

theorem begins_value (stack : List Frame) : Stage.Begins (.value stack) stack := fun _ _ => rfl

theorem begins_item (stack : List Frame) : Stage.Begins (.itemOrEnd stack) (.list [] :: stack) := by
  intro t ht
  cases t <;> first | rfl | contradiction

theorem foldlM_cons_of_step {step : Stage → Token → Option Stage} {stage stage' : Stage} {t : Token}
    (h : step stage t = some stage') (ts : List Token) :
    (t :: ts).foldlM step stage = ts.foldlM step stage' := by
  rw [List.foldlM_cons, h]
  rfl

theorem foldlM_append_of_fold {step : Stage → Token → Option Stage} {stage stage' : Stage}
    {as : List Token} (h : as.foldlM step stage = some stage') (bs : List Token) :
    (as ++ bs).foldlM step stage = bs.foldlM step stage' := by
  rw [List.foldlM_append, h]
  rfl

section

variable {step : Stage → Token → Option Stage} {limit : Nat} (hstep : Follows step limit)

include hstep

mutual

theorem foldlM_tokens : ∀ (s : Spelling) {start : Stage} {stack : List Frame},
    start.Begins stack → stack.length + s.depth ≤ limit →
      s.tokens.foldlM step start = some (.after s stack)
  | .null, start, stack, hb, _ =>
    foldlM_cons_of_step (hstep (hb .null (by decide)) (Nat.zero_le _)) []
  | .bool b, start, stack, hb, _ =>
    foldlM_cons_of_step (hstep (hb (.bool b) (by simp)) (Nat.zero_le _)) []
  | .num spelled, start, stack, hb, _ =>
    foldlM_cons_of_step (hstep (hb (.num spelled) (by simp)) (Nat.zero_le _)) []
  | .str spelled, start, stack, hb, _ =>
    foldlM_cons_of_step (hstep (hb (.str spelled) (by simp)) (Nat.zero_le _)) []
  | .arr [], start, stack, hb, hd => by
    have hopen := hstep (hb .openList (by decide)) (show stack.length + 1 ≤ limit by
      simp only [depth, itemsDepth] at hd; omega)
    have hclose := hstep (show Stage.next (.itemOrEnd stack) .closeList = _ from rfl)
      (Nat.zero_le _)
    rw [tokens, foldlM_cons_of_step hopen, foldlM_cons_of_step hclose]
    rfl
  | .arr (x :: rest), start, stack, hb, hd => by
    simp only [depth, itemsDepth] at hd
    have hopen := hstep (hb .openList (by decide)) (show stack.length + 1 ≤ limit by omega)
    have hx := foldlM_tokens x (begins_item stack)
      (show stack.length + 1 + x.depth ≤ limit by omega)
    have hrest := foldlM_itemTokens rest [] x stack (by omega)
    rw [tokens, List.cons_append, foldlM_cons_of_step hopen, foldlM_append_of_fold hx, hrest]
    rfl
  | .obj [], start, stack, hb, hd => by
    have hopen := hstep (hb .openMembers (by decide)) (show stack.length + 1 ≤ limit by
      simp only [depth, membersDepth] at hd; omega)
    have hclose := hstep (show Stage.next (.keyOrEnd stack) .closeMembers = _ from rfl)
      (Nat.zero_le _)
    rw [tokens, foldlM_cons_of_step hopen, foldlM_cons_of_step hclose]
    rfl
  | .obj ((k, x) :: rest), start, stack, hb, hd => by
    simp only [depth, membersDepth] at hd
    have hopen := hstep (hb .openMembers (by decide)) (show stack.length + 1 ≤ limit by omega)
    have hkey := hstep (show Stage.next (.keyOrEnd stack) (.str k) = _ from rfl) (Nat.zero_le _)
    have hcolon := hstep (show Stage.next (.colon [] k stack) .colon = _ from rfl) (Nat.zero_le _)
    have hx := foldlM_tokens x (begins_value (.members [] k :: stack))
      (show stack.length + 1 + x.depth ≤ limit by omega)
    have hrest := foldlM_memberTokens rest [] k x stack (by omega)
    rw [tokens, List.cons_append, foldlM_cons_of_step hopen, List.cons_append,
      foldlM_cons_of_step hkey, List.cons_append, foldlM_cons_of_step hcolon,
      foldlM_append_of_fold hx, hrest]
    rfl

theorem foldlM_itemTokens : ∀ (rest done : List Spelling) (v : Spelling) (stack : List Frame),
    stack.length + 1 + itemsDepth rest ≤ limit →
      (itemTokens rest).foldlM step (.after v (.list done :: stack)) =
        some (.after (.arr ((v :: done).reverse ++ rest)) stack)
  | [], done, v, stack, _ => by
    have hclose := hstep
      (show Stage.next (.after v (.list done :: stack)) .closeList = _ from rfl) (Nat.zero_le _)
    rw [itemTokens, foldlM_cons_of_step hclose, List.append_nil]
    rfl
  | x :: rest, done, v, stack, hd => by
    simp only [itemsDepth] at hd
    have hcomma := hstep
      (show Stage.next (.after v (.list done :: stack)) .comma = _ from rfl) (Nat.zero_le _)
    have hx := foldlM_tokens x (begins_value (.list (v :: done) :: stack))
      (show stack.length + 1 + x.depth ≤ limit by omega)
    have hrest := foldlM_itemTokens rest (v :: done) x stack (by omega)
    rw [itemTokens, List.cons_append, foldlM_cons_of_step hcomma, foldlM_append_of_fold hx, hrest,
      List.reverse_cons, List.append_assoc]
    rfl

theorem foldlM_memberTokens : ∀ (rest done : List (List Glyph × Spelling)) (k : List Glyph)
    (v : Spelling) (stack : List Frame), stack.length + 1 + membersDepth rest ≤ limit →
      (memberTokens rest).foldlM step (.after v (.members done k :: stack)) =
        some (.after (.obj (((k, v) :: done).reverse ++ rest)) stack)
  | [], done, k, v, stack, _ => by
    have hclose := hstep
      (show Stage.next (.after v (.members done k :: stack)) .closeMembers = _ from rfl)
      (Nat.zero_le _)
    rw [memberTokens, foldlM_cons_of_step hclose, List.append_nil]
    rfl
  | (l, x) :: rest, done, k, v, stack, hd => by
    simp only [membersDepth] at hd
    have hcomma := hstep
      (show Stage.next (.after v (.members done k :: stack)) .comma = _ from rfl) (Nat.zero_le _)
    have hkey := hstep (show Stage.next (.key ((k, v) :: done) stack) (.str l) = _ from rfl)
      (Nat.zero_le _)
    have hcolon := hstep (show Stage.next (.colon ((k, v) :: done) l stack) .colon = _ from rfl)
      (Nat.zero_le _)
    have hx := foldlM_tokens x (begins_value (.members ((k, v) :: done) l :: stack))
      (show stack.length + 1 + x.depth ≤ limit by omega)
    have hrest := foldlM_memberTokens rest ((k, v) :: done) l x stack (by omega)
    rw [memberTokens, List.cons_append, foldlM_cons_of_step hcomma, List.cons_append,
      foldlM_cons_of_step hkey, List.cons_append, foldlM_cons_of_step hcolon,
      foldlM_append_of_fold hx, hrest, List.reverse_cons, List.append_assoc]
    rfl

end

end

/-! ### Reading a printed tree -/

theorem ofText?_of_layout {s : Spelling} {cs : List Char} (h : Layout s.tokens cs) :
    ofText? (String.ofList cs) = some s := by
  have hscan : Token.scan (cs.map some) = some s.tokens :=
    h.scanUpTo (Nat.le_of_eq (List.length_map some).symm)
  have hfold := foldlM_tokens (follows_next s.depth) s (begins_value [])
    (Nat.le_of_eq (Nat.zero_add _))
  rw [ofText?, ofGlyphs?, String.toList_ofList, hscan, Option.bind_some, ofTokens?, hfold]
  rfl

theorem ofLooseText?_of_layout {s : Spelling} {cs : List Char} (h : Layout s.tokens cs)
    (hdepth : s.depth ≤ deepest) : ofLooseText? (String.ofList cs) = some s := by
  have hfold := foldlM_tokens follows_nextLoose s (begins_value [])
    (show 0 + s.depth ≤ deepest by omega)
  unfold ofLooseText?
  simp only [String.toList_ofList, h.takeWhile_eq, h.looseScanUpTo (Nat.le_refl _),
    Option.bind_eq_bind, Option.bind_some, List.foldlM_map, hfold]
  rfl

end TokenKeeper.Json.Spelling
