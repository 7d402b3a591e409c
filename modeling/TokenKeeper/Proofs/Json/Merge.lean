import TokenKeeper.Proofs.Json.Agreement
import TokenKeeper.Proofs.Json.Flat

/-!
# Texts merged into a readable row

Any row that is read as a document takes a patch of texts and is read as a document again. No field
gets lost by that, and none is added but those of the patch. A database reads a name up to its first
NUL and looks for the first member of a name. So only where its names are told apart by that, each
field of the patch is sure to be set, and the outcome is that of an insertion.
-/
namespace TokenKeeper

open Json (escaped Glyph Spelling)
open Json.Spelling (NulFree)

namespace Json.Spelling

/-! ### The code points of a text -/

theorem hexDigit?_lt {c : Char} {n : Nat} (h : Text.hexDigit? c = some n) : n < 16 := by
  unfold Text.hexDigit? at h
  simp only [Char.le_def, UInt32.le_iff_toNat_le, Char.toNat_val] at h
  split at h
  · next hc =>
    have h9 : '9'.toNat = 57 := rfl
    cases h
    omega
  · split at h
    · next hc =>
      have hf : 'f'.toNat = 102 := rfl
      cases h
      omega
    · split at h
      · next hc =>
        have hf : 'F'.toNat = 70 := rfl
        cases h
        omega
      · cases h

theorem hexOf_lt (a b c d : Glyph) : hexOf [a, b, c, d] < 0x10000 := by
  have hdigit : ∀ g : Glyph, (g.bind Text.hexDigit?).getD 0 < 16 := by
    intro g
    cases hg : g.bind Text.hexDigit? with
    | none => decide
    | some n =>
      obtain ⟨c, -, hc⟩ := Option.bind_eq_some_iff.mp hg
      exact hexDigit?_lt hc
  have ha := hdigit a
  have hb := hdigit b
  have hc := hdigit c
  have hd := hdigit d
  simp only [hexOf, Text.ofDigits, List.map_cons, List.map_nil, List.foldl_cons, List.foldl_nil]
  omega

theorem unit_lt {gs : List Glyph} {n : Nat} (h : .unit n ∈ pieces gs) : n < 0x10000 := by
  fun_induction pieces gs with
  | case1 => cases h
  | case3 a b c d rest ih =>
    rcases List.mem_cons.mp h with he | h
    · cases he
      exact hexOf_lt a b c d
    · exact ih h
  | case6 => cases List.mem_singleton.mp h
  | case2 _ ih | case4 _ _ _ ih | case5 _ ih | case7 _ _ _ ih =>
    rcases List.mem_cons.mp h with he | h
    · cases he
    · exact ih h

theorem toNat_ofNat {n : Nat} (h : n.isValidChar) : (Char.ofNat n).toNat = n := by
  rw [Char.ofNat, dif_pos h]
  rfl

theorem codePoints_of_characters? {ps : List Piece} {cs : List Char}
    (hunits : ∀ n, .unit n ∈ ps → n < 0x10000) (h : characters? ps = some cs) :
    codePoints ps = cs.map Char.toNat := by
  fun_induction characters? ps generalizing cs with
  | case1 =>
    cases h
    rfl
  | case2 | case5 | case6 | case7 => cases h
  | case3 c rest ih =>
    obtain ⟨cs, hcs, rfl⟩ := Option.map_eq_some_iff.mp h
    rw [codePoints, ih (fun n hn => hunits n (List.mem_cons_of_mem _ hn)) hcs]
    rfl
  | case4 n hhigh m rest hlow ih =>
    obtain ⟨cs, hcs, rfl⟩ := Option.map_eq_some_iff.mp h
    have hn := isHighSurrogate_iff.mp hhigh
    have hm := isLowSurrogate_iff.mp hlow
    rw [codePoints, if_pos (by rw [hhigh, hlow]; rfl),
      ih (fun n hn => hunits n (List.mem_cons_of_mem _ (List.mem_cons_of_mem _ hn))) hcs,
      List.map_cons, toNat_ofNat (.inr ⟨by omega, by omega⟩)]
  | case8 n rest hhigh hlow ih =>
    obtain ⟨cs, hcs, rfl⟩ := Option.map_eq_some_iff.mp h
    have hn := hunits n List.mem_cons_self
    have hvalid : n.isValidChar := by
      rw [isHighSurrogate_iff] at hhigh
      rw [isLowSurrogate_iff] at hlow
      unfold Nat.isValidChar
      omega
    rw [codePoints_of_not_high hhigh, ih (fun n hn => hunits n (List.mem_cons_of_mem _ hn)) hcs,
      List.map_cons, toNat_ofNat hvalid]

theorem label_of_text? {spelled : List Glyph} {s : String} (h : text? spelled = some s) :
    label spelled = s.toList.map Char.toNat := by
  obtain ⟨cs, hcs, rfl⟩ := Option.map_eq_some_iff.mp h
  rw [label, codePoints_of_characters? (fun _ => unit_lt) hcs, String.toList_ofList]

/-! ### Members that spell texts -/

def readName (name : String) : List Char := name.toList.takeWhile (· != '\x00')

theorem readName_of_nulFree {name : String} (h : NulFree name) : readName name = name.toList := by
  refine Text.takeWhile_all fun c hc => ?_
  rw [bne_iff_ne]
  rintro rfl
  exact h hc

theorem readName_inj {s t : String} (hs : NulFree s) (ht : NulFree t) :
    readName s = readName t ↔ s = t := by
  rw [readName_of_nulFree hs, readName_of_nulFree ht, String.toList_inj]

theorem labelKey_text (s : String) :
    labelKey (s.toList.map Char.toNat) = (readName s).map Char.toNat := by
  have hzero : ((· != 0) ∘ Char.toNat) = fun c : Char => c != '\x00' := by
    funext c
    rw [Function.comp_apply, Bool.eq_iff_iff, bne_iff_ne, bne_iff_ne]
    exact not_congr (Char.toNat_inj (c := c) (d := '\x00'))
  rw [labelKey, List.takeWhile_map, hzero, readName]

theorem sameLabel_of_text? {k l : List Glyph} {s t : String} (hk : text? k = some s)
    (hl : text? l = some t) : sameLabel k l = decide (readName s = readName t) := by
  rw [sameLabel, label_of_text? hk, label_of_text? hl, labelKey_text, labelKey_text,
    Bool.eq_iff_iff, beq_iff_eq, decide_eq_true_eq]
  exact List.map_inj_right fun _ _ => Char.toNat_inj.mp

end Json.Spelling

namespace Row

open Json.Spelling (readName text? entries? alterMember patchedMembers)

/-- Changes the first entry of a name as a database reads it, or adds one at the end, made from
null. -/
def alterEntry : List (String × Json) → String → (Json → Json) → List (String × Json)
  | [], name, change => [(name, change .null)]
  | (k, v) :: rest, name, change =>
    if readName k = readName name then (k, change v) :: rest
    else (k, v) :: alterEntry rest name change

def setEntry : List (String × Json) → String → String → List (String × Json)
  | [], name, value => [(name, .str value)]
  | (k, v) :: rest, name, value =>
    if readName k = readName name then (k, .str value) :: rest
    else (k, v) :: setEntry rest name value

def setEntries (es : List (String × Json)) (fs : Dict String) : List (String × Json) :=
  fs.foldl (fun es f => setEntry es f.1 f.2) es

variable {es : List (String × Json)} {fs : Dict String} {name value key : String}

theorem setEntry_eq (es : List (String × Json)) (name value : String) :
    setEntry es name value = alterEntry es name fun _ => .str value := by
  induction es with
  | nil => rfl
  | cons e rest ih => rw [setEntry, alterEntry, ih]

theorem keys_alterEntry (es : List (String × Json)) (name : String) (change : Json → Json) :
    Dict.keys (alterEntry es name change) = Dict.keys es ∨
      Dict.keys (alterEntry es name change) = Dict.keys es ++ [name] ∧ name ∉ Dict.keys es := by
  induction es with
  | nil => exact .inr ⟨rfl, List.not_mem_nil⟩
  | cons e rest ih =>
    obtain ⟨k, v⟩ := e
    rw [alterEntry]
    split
    · exact .inl rfl
    · next hk =>
      rcases ih with h | ⟨h, hnew⟩
      · exact .inl (congrArg (k :: ·) h)
      · refine .inr ⟨congrArg (k :: ·) h, fun hmem => ?_⟩
        rcases List.mem_cons.mp hmem with rfl | hmem
        · exact hk rfl
        · exact hnew hmem

theorem mem_keys_setEntry (h : key ∈ Dict.keys es) (name value : String) :
    key ∈ Dict.keys (setEntry es name value) := by
  rw [setEntry_eq]
  rcases keys_alterEntry es name (fun _ => .str value) with hkeys | ⟨hkeys, -⟩
  · rwa [hkeys]
  · rw [hkeys]
    exact List.mem_append_left _ h

theorem mem_keys_alterEntry {change : Json → Json}
    (h : key ∈ Dict.keys (alterEntry es name change)) : key = name ∨ key ∈ Dict.keys es := by
  rcases keys_alterEntry es name change with hkeys | ⟨hkeys, -⟩
  · exact .inr (hkeys ▸ h)
  · rw [hkeys] at h
    exact (List.mem_append.mp h).elim .inr fun h => .inl (List.mem_singleton.mp h)

theorem keys_setEntry (h : key ∈ Dict.keys (setEntry es name value)) :
    key = name ∨ key ∈ Dict.keys es := by
  rw [setEntry_eq] at h
  exact mem_keys_alterEntry h

/-- Names that a database tells apart, each of them once. -/
structure DistinctNulFree (es : List (String × Json)) : Prop where
  distinct : (Dict.keys es).Nodup
  nulFree : ∀ k ∈ Dict.keys es, NulFree k

theorem get?_alterEntry (hes : ∀ k ∈ Dict.keys es, NulFree k) (hname : NulFree name)
    (change : Json → Json) (other : String) : Dict.get? (alterEntry es name change) other =
      if name = other then some (change ((Dict.get? es name).getD .null))
      else Dict.get? es other := by
  induction es with
  | nil => rfl
  | cons e rest ih =>
    obtain ⟨k, v⟩ := e
    have hrest := ih fun k hk => hes k (List.mem_cons_of_mem _ hk)
    simp only [alterEntry, Json.Spelling.readName_inj (hes k List.mem_cons_self) hname]
    by_cases hk : k = name
    · subst hk
      rw [if_pos rfl, Dict.get?, Dict.get?, Dict.get?, if_pos rfl]
      split <;> rfl
    · rw [if_neg hk, Dict.get?, Dict.get?, Dict.get?, if_neg hk, hrest]
      by_cases ho : k = other
      · rw [if_pos ho, if_pos ho, if_neg fun hn => hk (ho.trans hn.symm)]
      · rw [if_neg ho, if_neg ho]

theorem DistinctNulFree.alterEntry (h : DistinctNulFree es) (hname : NulFree name)
    (change : Json → Json) : DistinctNulFree (alterEntry es name change) := by
  refine ⟨?_, fun k hk => (mem_keys_alterEntry hk).elim (fun he => he ▸ hname) (h.nulFree k)⟩
  rcases keys_alterEntry es name change with hkeys | ⟨hkeys, hnew⟩
  · rw [hkeys]
    exact h.distinct
  · rw [hkeys]
    exact List.nodup_append.mpr ⟨h.distinct, List.pairwise_singleton _ name,
      fun k hk l hl he => hnew (List.mem_singleton.mp hl ▸ he ▸ hk)⟩

theorem DistinctNulFree.ofList_alterEntry (h : DistinctNulFree es) (hname : NulFree name)
    (change : Json → Json) : Dict.ofList (Row.alterEntry es name change) =
      Dict.insert (Dict.ofList es) name
        (change ((Dict.get? (Dict.ofList es) name).getD .null)) := by
  refine (Dict.ordered_ofList _).ext ((Dict.ordered_ofList _).insert _ _) fun key => ?_
  rw [Dict.get?_ofList (h.alterEntry hname change).distinct, get?_alterEntry h.nulFree hname,
    Dict.get?_insert, Dict.get?_ofList h.distinct, Dict.get?_ofList h.distinct]

theorem mem_keys_setEntries (h : key ∈ Dict.keys es) : key ∈ Dict.keys (setEntries es fs) := by
  induction fs generalizing es with
  | nil => exact h
  | cons f fs ih => exact ih (mem_keys_setEntry h f.1 f.2)

theorem keys_setEntries (h : key ∈ Dict.keys (setEntries es fs)) :
    key ∈ Dict.keys fs ∨ key ∈ Dict.keys es := by
  induction fs generalizing es with
  | nil => exact .inr h
  | cons f fs ih =>
    rcases ih h with h | h
    · exact .inl (List.mem_cons_of_mem _ h)
    · rcases keys_setEntry h with rfl | h
      · exact .inl List.mem_cons_self
      · exact .inr h

theorem set_mem_keys_setEntries (hes : ∀ k ∈ Dict.keys es, NulFree k)
    (hfs : ∀ k ∈ Dict.keys fs, NulFree k) (h : key ∈ Dict.keys fs) :
    key ∈ Dict.keys (setEntries es fs) := by
  induction fs generalizing es with
  | nil => cases h
  | cons f fs ih =>
    have hname := hfs f.1 List.mem_cons_self
    have hrest : ∀ k ∈ Dict.keys fs, NulFree k := fun k hk => hfs k (List.mem_cons_of_mem _ hk)
    rcases List.mem_cons.mp h with rfl | h
    · have hset : Dict.get? (setEntry es f.1 f.2) f.1 = some (.str f.2) := by
        rw [setEntry_eq, get?_alterEntry hes hname, if_pos rfl]
      change f.1 ∈ Dict.keys (setEntries (setEntry es f.1 f.2) fs)
      exact mem_keys_setEntries (Dict.mem_keys_of_get? hset)
    · exact ih (fun k hk => (keys_setEntry hk).elim (fun he => he ▸ hname) (hes k)) hrest h

theorem DistinctNulFree.ofList_setEntries (h : DistinctNulFree es)
    (hfs : ∀ k ∈ Dict.keys fs, NulFree k) :
    Dict.ofList (setEntries es fs) = Dict.insertAll (Dict.ofList es) (strings fs) := by
  induction fs generalizing es with
  | nil => rfl
  | cons f fs ih =>
    have hname := hfs f.1 List.mem_cons_self
    have hstep : Dict.ofList (setEntry es f.1 f.2) =
        Dict.insert (Dict.ofList es) f.1 (.str f.2) := by
      rw [setEntry_eq, h.ofList_alterEntry hname]
    have hkept : DistinctNulFree (setEntry es f.1 f.2) :=
      setEntry_eq es f.1 f.2 ▸ h.alterEntry hname _
    have hrest := ih hkept fun k hk => hfs k (List.mem_cons_of_mem _ hk)
    rw [hstep] at hrest
    exact hrest

/-! ### Patched texts -/

variable {depth : Nat} {ms : List (List Glyph × Spelling)}

theorem entries?_cons {k : List Glyph} {x : Spelling} {name : String} {v : Json}
    (hk : text? k = some name) (hx : x.value? depth = some v) (h : entries? depth ms = some es) :
    entries? depth ((k, x) :: ms) = some ((name, v) :: es) := by
  rw [entries?, hk, hx, h]
  rfl

theorem exists_of_entries?_cons {m : List Glyph × Spelling}
    (h : entries? depth (m :: ms) = some es) :
    ∃ e rest, es = e :: rest ∧ text? m.1 = some e.1 ∧ m.2.value? depth = some e.2 ∧
      entries? depth ms = some rest := by
  obtain ⟨s, hk, h⟩ := Option.bind_eq_some_iff.mp h
  obtain ⟨v, hx, h⟩ := Option.bind_eq_some_iff.mp h
  obtain ⟨rest, hrest, ⟨⟩⟩ := Option.bind_eq_some_iff.mp h
  exact ⟨(s, v), rest, rfl, hk, hx, hrest⟩

theorem mem_of_entries? (h : entries? depth ms = some es) {e : String × Json} (he : e ∈ es) :
    ∃ m ∈ ms, text? m.1 = some e.1 ∧ m.2.value? depth = some e.2 := by
  induction ms generalizing es with
  | nil =>
    cases h
    cases he
  | cons m ms ih =>
    obtain ⟨e', rest, rfl, hname, hvalue, hrest⟩ := exists_of_entries?_cons h
    rcases List.mem_cons.mp he with rfl | he
    · exact ⟨m, List.mem_cons_self, hname, hvalue⟩
    · obtain ⟨m', hm', hspelled⟩ := ih hrest he
      exact ⟨m', List.mem_cons_of_mem _ hm', hspelled⟩

theorem entries?_alterMember (h : entries? depth ms = some es) (name : String)
    {alter : Spelling → Spelling} {change : Json → Json}
    (hnew : (alter .null).value? depth = some (change .null))
    (hold : ∀ m ∈ ms, ∀ v, m.2.value? depth = some v →
      (alter m.2).value? depth = some (change v)) :
    entries? depth (alterMember (escaped name) alter ms) = some (alterEntry es name change) := by
  have hname := Json.Spelling.text?_escaped name
  induction ms generalizing es with
  | nil =>
    cases h
    exact entries?_cons hname hnew rfl
  | cons m ms ih =>
    obtain ⟨hm, hms⟩ := List.forall_mem_cons.mp hold
    obtain ⟨⟨s, v⟩, rest, rfl, hk, hx, hrest⟩ := exists_of_entries?_cons h
    simp only [alterMember, alterEntry, Json.Spelling.sameLabel_of_text? hk hname,
      decide_eq_true_eq]
    split
    · exact entries?_cons hk (hm v hx) hrest
    · exact entries?_cons hk hx (ih hrest hms)

theorem value?_escaped (value : String) (depth : Nat) :
    (Spelling.str (escaped value)).value? depth = some (.str value) := by
  rw [Spelling.value?, Json.Spelling.text?_escaped]
  rfl

theorem patchedMembers_cons (name value : String) (fs : Dict String) :
    patchedMembers ms (Json.memberSpellings (strings ((name, value) :: fs))) =
      patchedMembers (alterMember (escaped name) (fun _ => .str (escaped value)) ms)
        (Json.memberSpellings (strings fs)) := by
  change patchedMembers ms ((escaped name, .str (escaped value)) ::
    Json.memberSpellings (strings fs)) = _
  rw [Json.Spelling.patchedMembers_set (v := .str (escaped value)) nofun]
  simp only [Spelling.patched]

theorem entries?_patched (h : entries? depth ms = some es) (fs : Dict String) :
    entries? depth (patchedMembers ms (Json.memberSpellings (strings fs))) =
      some (setEntries es fs) := by
  induction fs generalizing ms es with
  | nil => exact h
  | cons f fs ih =>
    have hvalue := value?_escaped f.2 depth
    have hentry : entries? depth
        (alterMember (escaped f.1) (fun _ => .str (escaped f.2)) ms) =
          some (setEntry es f.1 f.2) := by
      rw [setEntry_eq]
      exact entries?_alterMember h f.1 hvalue fun _ _ _ _ => hvalue
    rw [patchedMembers_cons]
    exact ih hentry

/-! ### Patched rows -/

def read? (text : String) : Option (List (String × Json)) :=
  match Spelling.ofText? text with
  | some (.obj ms) => entries? (Json.nestingLimit - 1) ms
  | _ => none

theorem read?_eq_some {text : String} (h : read? text = some es) :
    ∃ ms, Spelling.ofText? text = some (.obj ms) ∧
      entries? (Json.nestingLimit - 1) ms = some es := by
  unfold read? at h
  split at h
  · next ms htext => exact ⟨ms, htext, h⟩
  · cases h

theorem read?_text (ms : Dict String) : read? (text ms) = some (strings ms) := by
  have htext := Json.ofText?_compact (.obj (strings ms))
  rw [read?, text, htext]
  exact entries?_strings ms _

theorem documentOfText?_iff {text : String} {doc : Document} :
    Json.documentOfText? text = some doc ↔ ∃ es, read? text = some es ∧ doc = Dict.ofList es := by
  constructor
  · intro h
    obtain ⟨j, hj, hdoc⟩ := Option.bind_eq_some_iff.mp h
    obtain ⟨s, htext, hs⟩ := Option.bind_eq_some_iff.mp hj
    cases j with
    | obj members =>
      cases hdoc
      obtain ⟨ms, rfl⟩ := Spelling.spells_of_value? hs
      obtain ⟨es, hes, ⟨⟩⟩ := Option.map_eq_some_iff.mp hs
      exact ⟨es, by rw [read?, htext]; exact hes, rfl⟩
    | _ => cases hdoc
  · rintro ⟨es, hread, rfl⟩
    obtain ⟨ms, htext, hes⟩ := read?_eq_some hread
    rw [Json.documentOfText?, Json.ofText?, htext]
    change (((entries? (Json.nestingLimit - 1) ms).map fun es => Json.obj (Dict.ofList es)).bind
      Json.obj?) = _
    rw [hes]
    rfl

theorem depth_le_of_entries? (h : entries? (Json.nestingLimit - 1) ms = some es) :
    (Spelling.obj ms).depth ≤ Spelling.deepest := by
  have hmembers := Spelling.membersDepth_le_of_entries? h
  change Spelling.membersDepth ms + 1 ≤ 1000
  exact Nat.le_trans (Nat.succ_le_succ hmembers) (by decide)

theorem read?_patched {text : String} (h : read? text = some es) (fs : Dict String) :
    ∃ patched, Spelling.patchText? text (Row.text fs) = some patched ∧
      read? patched = some (setEntries es fs) := by
  obtain ⟨ms, htext, hentries⟩ := read?_eq_some h
  have hloose := Spelling.ofLooseText?_of_ofText? htext (depth_le_of_entries? hentries)
  have hprinted := Spelling.printed_patchedMembers _ (Spelling.printed_of_ofText? htext)
    (Json.obj (strings fs)).printed_spelling
  refine ⟨(Spelling.obj (patchedMembers ms (Json.memberSpellings (strings fs)))).minified, ?_, ?_⟩
  · simp only [Spelling.patchText?, hloose, ofLooseText?_text, Option.bind_eq_bind,
      Option.bind_some, Option.pure_def, Spelling.patched]
    rfl
  · rw [read?, Spelling.ofText?_minified hprinted]
    exact entries?_patched hentries fs

end Row
end TokenKeeper
