import TokenKeeper.Proofs.Json.Printed

/-!
# Where the two readers agree

What the strict reader takes is a row of the tokens of its tree, with blanks between them. So the
loose reader takes it, too, and makes the same tree of it, unless the tree is too deep. A text that
stands for a value is never too deep.
-/
namespace TokenKeeper.Json

/-! ### Tokens that the strict reader takes -/

theorem split_of_map_some {as cs : List Char} {gs : List Glyph}
    (h : cs.map some = as.map some ++ gs) : ∃ rest, gs = rest.map some ∧ cs = as ++ rest := by
  obtain ⟨bs, rest, rfl, hbs, rfl⟩ := List.map_eq_append_iff.mp h
  rw [(List.map_inj_right fun _ _ => Option.some.inj).mp hbs]
  exact ⟨rest, rfl, rfl⟩

theorem word?_sound {word : List Char} {gs rest : List Glyph} (h : word? word gs = some rest) :
    gs = word.map some ++ rest := by
  fun_induction word? word gs with
  | case1 gs => exact Option.some.inj h
  | case2 cs d gs ih => rw [ih h]; rfl
  | case3 => cases h
  | case4 => cases h

theorem isGrammatical_of_start? {c : Char} {cs : List Char} {t : Token} {gs : List Glyph}
    (h : Token.start? c (cs.map some) = some (t, gs)) :
    t.IsGrammatical ∧ ∃ rest, gs = rest.map some ∧ c :: cs = t.chars ++ rest := by
  unfold Token.start? at h
  split at h
  case h_7 =>
    obtain ⟨⟨body, after⟩, hbody, ⟨⟩⟩ := Option.map_eq_some_iff.mp h
    obtain ⟨b, rest, hb, rfl, rfl, rfl⟩ := isBody_of_stringBody? hbody
    refine ⟨⟨b, rfl, hb⟩, rest, rfl, ?_⟩
    rw [chars_str, List.cons_append, List.append_assoc]
    rfl
  case h_8 | h_9 | h_10 =>
    obtain ⟨after, hword, ⟨⟩⟩ := Option.map_eq_some_iff.mp h
    obtain ⟨rest, rfl, rfl⟩ := split_of_map_some (word?_sound hword)
    exact ⟨trivial, rest, rfl, rfl⟩
  case h_11 =>
    obtain ⟨⟨m, after⟩, hm, ⟨⟩⟩ := Option.map_eq_some_iff.mp h
    obtain ⟨hnumber, hgs⟩ := isMagnitude_of_magnitude? hm
    obtain ⟨rest, rfl, rfl⟩ := split_of_map_some hgs
    exact ⟨.minus hnumber, rest, rfl, rfl⟩
  case h_12 =>
    obtain ⟨⟨m, after⟩, hm, ⟨⟩⟩ := Option.map_eq_some_iff.mp h
    obtain ⟨hnumber, hgs⟩ := isMagnitude_of_magnitude? hm
    rw [← List.map_cons (f := some)] at hgs
    obtain ⟨rest, rfl, hcs⟩ := split_of_map_some hgs
    exact ⟨.magnitude hnumber, rest, rfl, hcs⟩
  all_goals
    cases h
    exact ⟨trivial, cs, rfl, rfl⟩

theorem start?_sound {c : Char} {cs : List Char} {t : Token} {gs : List Glyph}
    (h : Token.start? c (cs.map some) = some (t, gs)) :
    t.Reads ∧ ∃ rest, gs = rest.map some ∧ c :: cs = t.chars ++ rest := by
  obtain ⟨hgrammar, hfront⟩ := isGrammatical_of_start? h
  exact ⟨hgrammar.reads, hfront⟩

theorem Token.reads_iff {t : Token} : t.Reads ↔ t.IsGrammatical := by
  refine ⟨fun h => ?_, Token.IsGrammatical.reads⟩
  obtain ⟨c, cs, -, -, hstart, -⟩ := h.start [] fun _ => headIn_nil _
  exact (isGrammatical_of_start? hstart).1

/-! ### Texts that the strict reader takes -/

theorem Layout.reads {ts : List Token} {cs : List Char} (h : Layout ts cs) : ∀ t ∈ ts, t.Reads := by
  induction h with
  | nil => exact reads_nil
  | blank _ _ _ ih => exact ih
  | token ht _ _ ih => exact reads_cons ht ih

namespace Spelling

theorem after_of_openEnded {stage stage' : Stage} {t : Token} (h : stage.next t = some stage')
    (ht : t.isOpenEnded = true) : ∃ v stack, stage' = .after v stack := by
  cases t with
  | null | bool | num =>
    cases stage with
    | value stack | itemOrEnd stack =>
      cases h
      exact ⟨_, _, rfl⟩
    | keyOrEnd | key | colon => cases h
    | after v stack =>
      rcases stack with _ | ⟨_ | _, _⟩ <;> cases h
  | _ => cases ht

theorem closes_of_after {v : Spelling} {stack : List Frame} {t : Token} {stage : Stage}
    (h : (Stage.after v stack).next t = some stage) :
    t = .comma ∨ t = .closeList ∨ t = .closeMembers := by
  rcases stack with _ | ⟨_ | _, _⟩
  · cases h
  · cases t with
    | comma => exact .inl rfl
    | closeList => exact .inr (.inl rfl)
    | _ => cases h
  · cases t with
    | comma => exact .inl rfl
    | closeMembers => exact .inr (.inr rfl)
    | _ => cases h

theorem apart_of_scanUpTo {fuel : Nat} {cs : List Char} {ts : List Token}
    (hscan : Token.scanUpTo fuel (cs.map some) = some ts) {v : Spelling} {stack : List Frame}
    {stage : Stage} (hfold : ts.foldlM Stage.next (.after v stack) = some stage) : Apart cs := by
  intro c rest hcs
  subst hcs
  cases fuel with
  | zero => cases hscan
  | succ fuel =>
    rw [List.map_cons, Token.scanUpTo] at hscan
    split at hscan
    · next hspace =>
      rcases isSpace_cases hspace with rfl | rfl | rfl | rfl <;> decide
    · obtain ⟨⟨t, gs⟩, hstart, hscan⟩ := Option.bind_eq_some_iff.mp hscan
      obtain ⟨ts, -, ⟨⟩⟩ := Option.bind_eq_some_iff.mp hscan
      obtain ⟨-, after, -, hchars⟩ := start?_sound hstart
      obtain ⟨next, hnext, -⟩ := Option.bind_eq_some_iff.mp hfold
      rcases closes_of_after hnext with rfl | rfl | rfl <;>
        · cases hchars
          decide

/-- The tokens that a grammatical text is split into stand in a row. -/
theorem layout_of_scanUpTo {fuel : Nat} {cs : List Char} {ts : List Token} {stage stage' : Stage}
    (hscan : Token.scanUpTo fuel (cs.map some) = some ts)
    (hfold : ts.foldlM Stage.next stage = some stage') : Layout ts cs := by
  induction fuel generalizing cs ts stage with
  | zero =>
    cases cs with
    | nil => cases hscan; exact .nil
    | cons c cs => cases hscan
  | succ fuel ih =>
    cases cs with
    | nil => cases hscan; exact .nil
    | cons c cs =>
      rw [List.map_cons, Token.scanUpTo] at hscan
      split at hscan
      · next hspace => exact .blank c hspace (ih hscan hfold)
      · obtain ⟨⟨t, gs⟩, hstart, hscan⟩ := Option.bind_eq_some_iff.mp hscan
        obtain ⟨ts, hrest, ⟨⟩⟩ := Option.bind_eq_some_iff.mp hscan
        obtain ⟨hreads, rest, rfl, hchars⟩ := start?_sound hstart
        obtain ⟨next, hnext, hfold⟩ := Option.bind_eq_some_iff.mp hfold
        rw [hchars]
        refine .token hreads (fun ht => ?_) (ih hrest hfold)
        obtain ⟨v, stack, rfl⟩ := after_of_openEnded hnext ht
        exact apart_of_scanUpTo hrest hfold

/-! ### Trees that the strict reader makes -/

def itemsBefore (done : List Spelling) : List Token := done.flatMap fun x => x.tokens ++ [.comma]

def membersBefore (done : List (List Glyph × Spelling)) : List Token :=
  done.flatMap fun m => .str m.1 :: .colon :: m.2.tokens ++ [.comma]

def Frame.tokens : Frame → List Token
  | .list done => .openList :: itemsBefore done.reverse
  | .members done key => .openMembers :: membersBefore done.reverse ++ [.str key, .colon]

def stackTokens : List Frame → List Token
  | [] => []
  | frame :: stack => stackTokens stack ++ frame.tokens

def Stage.tokens : Stage → List Token
  | .value stack => stackTokens stack
  | .itemOrEnd stack => stackTokens stack ++ [.openList]
  | .keyOrEnd stack => stackTokens stack ++ [.openMembers]
  | .key done stack => stackTokens stack ++ .openMembers :: membersBefore done.reverse
  | .colon done k stack =>
    stackTokens stack ++ .openMembers :: membersBefore done.reverse ++ [.str k]
  | .after v stack => stackTokens stack ++ v.tokens

theorem itemTokens_append (xs : List Spelling) (x : Spelling) :
    itemTokens (xs ++ [x]) = .comma :: itemsBefore xs ++ x.tokens ++ [.closeList] := by
  induction xs with
  | nil => simp [itemTokens, itemsBefore]
  | cons y xs ih => simp [itemTokens, itemsBefore, ih]

theorem memberTokens_append (ms : List (List Glyph × Spelling)) (k : List Glyph) (x : Spelling) :
    memberTokens (ms ++ [(k, x)]) =
      .comma :: membersBefore ms ++ .str k :: .colon :: x.tokens ++ [.closeMembers] := by
  induction ms with
  | nil => simp [memberTokens, membersBefore]
  | cons m ms ih => simp [memberTokens, membersBefore, ih]

theorem tokens_arr_concat (xs : List Spelling) (x : Spelling) :
    (Spelling.arr (xs ++ [x])).tokens =
      .openList :: itemsBefore xs ++ x.tokens ++ [.closeList] := by
  cases xs with
  | nil => simp [tokens, itemTokens, itemsBefore]
  | cons y xs => simp [tokens, itemTokens_append, itemsBefore]

theorem tokens_obj_concat (ms : List (List Glyph × Spelling)) (k : List Glyph) (x : Spelling) :
    (Spelling.obj (ms ++ [(k, x)])).tokens =
      .openMembers :: membersBefore ms ++ .str k :: .colon :: x.tokens ++ [.closeMembers] := by
  cases ms with
  | nil => simp [tokens, memberTokens, membersBefore]
  | cons m ms => simp [tokens, memberTokens_append, membersBefore]

theorem tokens_begin {stack : List Frame} {t : Token} {stage : Stage}
    (h : Stage.begin stack t = some stage) : stage.tokens = stackTokens stack ++ [t] := by
  cases t <;> cases h <;> rfl

theorem tokens_next {stage stage' : Stage} {t : Token} (h : stage.next t = some stage') :
    stage'.tokens = stage.tokens ++ [t] := by
  unfold Stage.next at h
  split at h
  case h_1 => exact tokens_begin h
  case h_3 => simpa [Stage.tokens, stackTokens, Frame.tokens, itemsBefore] using tokens_begin h
  case h_12 => cases h
  all_goals
    cases h
    simp [Stage.tokens, stackTokens, Frame.tokens, itemsBefore, membersBefore, tokens,
      tokens_arr_concat, tokens_obj_concat]

theorem tokens_foldlM {ts : List Token} {stage stage' : Stage}
    (h : ts.foldlM Stage.next stage = some stage') : stage'.tokens = stage.tokens ++ ts := by
  induction ts generalizing stage with
  | nil =>
    cases h
    rw [List.append_nil]
  | cons t ts ih =>
    obtain ⟨next, hnext, hfold⟩ := Option.bind_eq_some_iff.mp h
    rw [ih hfold, tokens_next hnext, List.append_assoc]
    rfl

theorem layout_of_ofText? {text : String} {s : Spelling} (h : ofText? text = some s) :
    Layout s.tokens text.toList := by
  obtain ⟨ts, hscan, htree⟩ := Option.bind_eq_some_iff.mp h
  obtain ⟨stage, hfold, hresult⟩ := Option.bind_eq_some_iff.mp htree
  have hlayout := layout_of_scanUpTo hscan hfold
  have htokens := tokens_foldlM hfold
  unfold Stage.result? at hresult
  split at hresult
  · cases hresult
    change s.tokens = ts at htokens
    rw [htokens]
    exact hlayout
  · cases hresult

theorem printed_of_ofText? {text : String} {s : Spelling} (h : ofText? text = some s) :
    s.Printed :=
  (layout_of_ofText? h).reads

theorem ofLooseText?_of_ofText? {text : String} {s : Spelling} (h : ofText? text = some s)
    (hdepth : s.depth ≤ deepest) : ofLooseText? text = some s := by
  have hloose := ofLooseText?_of_layout (layout_of_ofText? h) hdepth
  rwa [String.ofList_toList] at hloose

theorem nextLoose_of_next {stage strict loose : Stage} {t : Token} (h : stage.next t = some strict)
    (h' : stage.nextLoose (.json t) = some loose) : loose = strict := by
  unfold Stage.nextLoose at h'
  split at h'
  · next heq => cases heq
  · next heq => cases heq
  · next heq => cases heq; cases h
  · next heq => cases heq; cases h
  · next heq =>
    cases heq
    obtain ⟨hnext, -⟩ := Option.filter_eq_some_iff.mp h'
    exact Option.some.inj (hnext.symm.trans h)
  · next heq => cases heq

theorem foldlM_nextLoose {ts : List Token} {stage strict loose : Stage}
    (h : ts.foldlM Stage.next stage = some strict)
    (h' : ts.foldlM (fun stage t => stage.nextLoose (.json t)) stage = some loose) :
    loose = strict := by
  induction ts generalizing stage with
  | nil =>
    cases h
    cases h'
    rfl
  | cons t ts ih =>
    obtain ⟨next, hnext, hfold⟩ := Option.bind_eq_some_iff.mp h
    obtain ⟨next', hnext', hfold'⟩ := Option.bind_eq_some_iff.mp h'
    cases nextLoose_of_next hnext hnext'
    exact ih hfold hfold'

/-- The loose reader makes no other tree of a text that the strict reader takes, but it may make
none, when the tree is too deep. -/
theorem ofLooseText?_unique {text : String} {s s' : Spelling} (h : ofText? text = some s)
    (h' : ofLooseText? text = some s') : s' = s := by
  have hlayout := layout_of_ofText? h
  have hfold := foldlM_tokens (follows_next s.depth) s (begins_value [])
    (Nat.le_of_eq (Nat.zero_add _))
  unfold ofLooseText? at h'
  simp only [hlayout.takeWhile_eq, hlayout.looseScanUpTo (Nat.le_refl _),
    Option.bind_eq_bind, Option.bind_some, List.foldlM_map] at h'
  obtain ⟨stage, hstage, hresult⟩ := Option.bind_eq_some_iff.mp h'
  cases foldlM_nextLoose hfold hstage
  exact (Option.some.inj hresult).symm

/-! ### Trees that stand for values -/

/-- The form of a tree that stands for a value. -/
def Spells : Json → Spelling → Prop
  | .null, s => s = .null
  | .bool b, s => s = .bool b
  | .int n, s => ∃ text, s = .num text ∧ (Numeral.ofChars text).int? = some n
  | .float x, s => ∃ text, s = .num text ∧ (Numeral.ofChars text).int? = none ∧
    (Numeral.ofChars text).float? = some x
  | .str t, s => ∃ spelled, s = .str spelled ∧ text? spelled = some t
  | .arr _, s => ∃ items, s = .arr items
  | .obj _, s => ∃ members, s = .obj members

theorem spells_of_value? {s : Spelling} {depth : Nat} {j : Json} (h : s.value? depth = some j) :
    Spells j s := by
  cases s with
  | null => cases h; rfl
  | bool b => cases h; rfl
  | num text =>
    rw [value?, ofNumber?] at h
    split at h
    · next n hn => cases h; exact ⟨text, rfl, hn⟩
    · next hn =>
      obtain ⟨x, hx, rfl⟩ := Option.map_eq_some_iff.mp h
      exact ⟨text, rfl, hn, hx⟩
  | str spelled =>
    obtain ⟨t, ht, rfl⟩ := Option.map_eq_some_iff.mp h
    exact ⟨spelled, rfl, ht⟩
  | arr items =>
    cases depth with
    | zero => cases h
    | succ depth =>
      obtain ⟨values, -, rfl⟩ := Option.map_eq_some_iff.mp h
      exact ⟨items, rfl⟩
  | obj members =>
    cases depth with
    | zero => cases h
    | succ depth =>
      obtain ⟨entries, -, rfl⟩ := Option.map_eq_some_iff.mp h
      exact ⟨members, rfl⟩

mutual

theorem depth_le_of_value? : ∀ {s : Spelling} {limit : Nat} {j : Json},
    s.value? limit = some j → s.depth ≤ limit
  | .null, _, _, _ => Nat.zero_le _
  | .bool _, _, _, _ => Nat.zero_le _
  | .num _, _, _, _ => Nat.zero_le _
  | .str _, _, _, _ => Nat.zero_le _
  | .arr items, 0, _, h => by cases h
  | .arr items, limit + 1, _, h => by
    obtain ⟨values, hvalues, -⟩ := Option.map_eq_some_iff.mp h
    exact Nat.succ_le_succ (itemsDepth_le_of_values? hvalues)
  | .obj members, 0, _, h => by cases h
  | .obj members, limit + 1, _, h => by
    obtain ⟨entries, hentries, -⟩ := Option.map_eq_some_iff.mp h
    exact Nat.succ_le_succ (membersDepth_le_of_entries? hentries)

theorem itemsDepth_le_of_values? : ∀ {items : List Spelling} {limit : Nat} {values : List Json},
    values? limit items = some values → itemsDepth items ≤ limit
  | [], _, _, _ => Nat.zero_le _
  | x :: rest, limit, _, h => by
    obtain ⟨value, hvalue, h⟩ := Option.bind_eq_some_iff.mp h
    obtain ⟨values, hvalues, -⟩ := Option.bind_eq_some_iff.mp h
    exact Nat.max_le.mpr ⟨depth_le_of_value? hvalue, itemsDepth_le_of_values? hvalues⟩

theorem membersDepth_le_of_entries? : ∀ {members : List (List Glyph × Spelling)} {limit : Nat}
    {entries : List (String × Json)},
    entries? limit members = some entries → membersDepth members ≤ limit
  | [], _, _, _ => Nat.zero_le _
  | (_, x) :: rest, limit, _, h => by
    obtain ⟨name, -, h⟩ := Option.bind_eq_some_iff.mp h
    obtain ⟨value, hvalue, h⟩ := Option.bind_eq_some_iff.mp h
    obtain ⟨entries, hentries, -⟩ := Option.bind_eq_some_iff.mp h
    exact Nat.max_le.mpr ⟨depth_le_of_value? hvalue, membersDepth_le_of_entries? hentries⟩

end

end Spelling
end TokenKeeper.Json
