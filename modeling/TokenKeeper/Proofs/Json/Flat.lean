import TokenKeeper.Collection.Table
import TokenKeeper.Proofs.Dict
import TokenKeeper.Proofs.Json.Patch

/-!
# Documents of texts

A document in which every field is a text is kept in a row as an object of strings. Here the merge
patch of a database comes to what the insertion into a dictionary comes to: the fields of the patch
take the place of those of the same name, and the others stay. The order of a row is the order in
which its fields came, that of a dictionary is by name, and both are read as the same document.
-/
namespace TokenKeeper

open Json (escaped Spelling)
open Json.Spelling (NulFree)

/-! ### Fields in the order in which they came -/

namespace Row

def strings (ms : Dict String) : List (String × Json) := ms.map fun m => (m.1, Json.str m.2)

def document (ms : Dict String) : Document := Dict.ofList (strings ms)

def text (ms : Dict String) : String := (Json.obj (strings ms)).compact

def setField : Dict String → String → String → Dict String
  | [], name, value => [(name, value)]
  | (k, v) :: rest, name, value =>
    if k = name then (k, value) :: rest else (k, v) :: setField rest name value

def setFields (ms fs : Dict String) : Dict String := fs.foldl (fun ms f => setField ms f.1 f.2) ms

/-- Names that a database tells apart. -/
structure WellNamed (ms : Dict String) : Prop where
  distinct : (Dict.keys ms).Nodup
  nulFree : ∀ name ∈ Dict.keys ms, NulFree name

theorem get?_setField (ms : Dict String) (name value other : String) :
    Dict.get? (setField ms name value) other =
      if name = other then some value else Dict.get? ms other := by
  induction ms with
  | nil => rfl
  | cons m rest ih =>
    obtain ⟨k, v⟩ := m
    by_cases hk : k = name
    · subst hk
      rw [setField, if_pos rfl, Dict.get?, Dict.get?]
      by_cases ho : k = other
      · rw [if_pos ho, if_pos ho]
      · rw [if_neg ho, if_neg ho, if_neg ho]
    · rw [setField, if_neg hk, Dict.get?, Dict.get?, ih]
      by_cases ho : k = other
      · rw [if_pos ho, if_pos ho, if_neg fun hn => hk (ho.trans hn.symm)]
      · rw [if_neg ho, if_neg ho]

theorem mem_keys_setField {ms : Dict String} {name value key : String}
    (h : key ∈ Dict.keys (setField ms name value)) : key = name ∨ key ∈ Dict.keys ms := by
  induction ms with
  | nil => exact Or.inl (List.mem_singleton.mp h)
  | cons m rest ih =>
    obtain ⟨k, v⟩ := m
    rw [setField] at h
    split at h
    · exact Or.inr h
    · rcases List.mem_cons.mp h with h | h
      · exact Or.inr (h ▸ List.mem_cons_self)
      · rcases ih h with h | h
        · exact Or.inl h
        · exact Or.inr (List.mem_cons_of_mem _ h)

theorem WellNamed.tail {m : String × String} {rest : Dict String} (h : WellNamed (m :: rest)) :
    WellNamed rest :=
  ⟨(List.nodup_cons.mp h.distinct).2, fun name hn => h.nulFree name (List.mem_cons_of_mem _ hn)⟩

theorem WellNamed.setField {ms : Dict String} (h : WellNamed ms) {name : String}
    (hname : NulFree name) (value : String) : WellNamed (setField ms name value) := by
  refine ⟨?_, fun key hkey => ?_⟩
  · induction ms with
    | nil => exact List.nodup_cons.mpr ⟨List.not_mem_nil, List.nodup_nil⟩
    | cons m rest ih =>
      obtain ⟨k, v⟩ := m
      rw [Row.setField]
      split
      · exact h.distinct
      · next hk =>
        obtain ⟨hnew, -⟩ := List.nodup_cons.mp h.distinct
        refine List.nodup_cons.mpr ⟨fun hmem => ?_, ih h.tail⟩
        rcases mem_keys_setField hmem with he | he
        · exact hk he
        · exact hnew he
  · rcases mem_keys_setField hkey with rfl | hmem
    · exact hname
    · exact h.nulFree key hmem

theorem WellNamed.setFields {ms fs : Dict String} (h : WellNamed ms)
    (hfs : ∀ name ∈ Dict.keys fs, NulFree name) : WellNamed (setFields ms fs) := by
  induction fs generalizing ms with
  | nil => exact h
  | cons f fs ih =>
    have hf : NulFree f.1 := hfs f.1 List.mem_cons_self
    exact ih (h.setField hf f.2) fun name hn => hfs name (List.mem_cons_of_mem _ hn)

theorem keys_strings (ms : Dict String) : Dict.keys (strings ms) = Dict.keys ms := by
  rw [Dict.keys, strings, List.map_map]
  rfl

theorem get?_document {ms : Dict String} (h : (Dict.keys ms).Nodup) (key : String) :
    Dict.get? (document ms) key = (Dict.get? ms key).map Json.str := by
  rw [document, Dict.get?_ofList (by rw [keys_strings]; exact h)]
  exact Dict.get?_map ms Json.str key

theorem document_setField {ms : Dict String} (h : WellNamed ms) {name : String}
    (hname : NulFree name) (value : String) :
    document (setField ms name value) = Dict.insert (document ms) name (.str value) := by
  refine (Dict.ordered_ofList _).ext ((Dict.ordered_ofList _).insert _ _) fun key => ?_
  change Dict.get? (document _) key = Dict.get? (Dict.insert (document ms) _ _) key
  rw [get?_document (h.setField hname value).distinct, get?_setField, Dict.get?_insert,
    get?_document h.distinct]
  split <;> rfl

theorem document_setFields {ms fs : Dict String} (h : WellNamed ms)
    (hfs : ∀ name ∈ Dict.keys fs, NulFree name) :
    document (setFields ms fs) = Dict.insertAll (document ms) (strings fs) := by
  induction fs generalizing ms with
  | nil => rfl
  | cons f fs ih =>
    have hf : NulFree f.1 := hfs f.1 List.mem_cons_self
    have hstep := ih (h.setField hf f.2) fun name hn => hfs name (List.mem_cons_of_mem _ hn)
    rw [document_setField h hf] at hstep
    exact hstep

/-! ### The text of a row -/

theorem membersDepth_strings (ms : Dict String) :
    Spelling.membersDepth (Json.memberSpellings (strings ms)) = 0 := by
  induction ms with
  | nil => rfl
  | cons m rest ih =>
    change max 0 (Spelling.membersDepth (Json.memberSpellings (strings rest))) = 0
    rw [ih]
    rfl

theorem ofLooseText?_text (ms : Dict String) :
    Spelling.ofLooseText? (text ms) = some (.obj (Json.memberSpellings (strings ms))) := by
  have hdepth : (Json.obj (strings ms)).spelling.depth ≤ Spelling.deepest := by
    change Spelling.membersDepth (Json.memberSpellings (strings ms)) + 1 ≤ Spelling.deepest
    rw [membersDepth_strings]
    decide
  exact Json.ofLooseText?_compact hdepth

theorem entries?_strings (ms : Dict String) (depth : Nat) :
    Spelling.entries? depth (Json.memberSpellings (strings ms)) = some (strings ms) := by
  induction ms with
  | nil => rfl
  | cons m rest ih =>
    obtain ⟨k, v⟩ := m
    change Spelling.entries? depth
      ((escaped k, .str (escaped v)) :: Json.memberSpellings (strings rest)) = _
    rw [Spelling.entries?, Spelling.value?, Spelling.text?_escaped, Spelling.text?_escaped, ih]
    rfl

theorem documentOfText?_text (ms : Dict String) :
    Json.documentOfText? (text ms) = some (document ms) := by
  rw [Json.documentOfText?, Json.ofText?, text,
    Json.ofText?_compact (.obj (strings ms)), Option.bind_some, Spelling.json?, Json.spelling,
    Json.nestingLimit, Spelling.value?, entries?_strings]
  rfl

/-! ### Merge patches -/

theorem alterMember_strings {ms : Dict String} (h : ∀ name ∈ Dict.keys ms, NulFree name)
    {name : String} (hname : NulFree name) (value : String) :
    Spelling.alterMember (escaped name) (fun _ => .str (escaped value))
      (Json.memberSpellings (strings ms)) =
        Json.memberSpellings (strings (setField ms name value)) := by
  induction ms with
  | nil => rfl
  | cons m rest ih =>
    obtain ⟨k, v⟩ := m
    have hk : NulFree k := h k List.mem_cons_self
    have hrest := ih fun n hn => h n (List.mem_cons_of_mem _ hn)
    change Spelling.alterMember (escaped name) _
      ((escaped k, .str (escaped v)) :: Json.memberSpellings (strings rest)) = _
    rw [Spelling.alterMember, Spelling.sameLabel_escaped hk hname, setField]
    by_cases he : k = name
    · rw [decide_eq_true he, if_pos rfl, if_pos he]
      rfl
    · rw [decide_eq_false he, if_neg (by decide), if_neg he, hrest]
      rfl

theorem patchedMembers_strings {ms fs : Dict String} (h : WellNamed ms)
    (hfs : ∀ name ∈ Dict.keys fs, NulFree name) :
    Spelling.patchedMembers (Json.memberSpellings (strings ms))
      (Json.memberSpellings (strings fs)) =
        Json.memberSpellings (strings (setFields ms fs)) := by
  induction fs generalizing ms with
  | nil => rfl
  | cons f fs ih =>
    obtain ⟨name, value⟩ := f
    have hname : NulFree name := hfs name List.mem_cons_self
    change Spelling.patchedMembers (Json.memberSpellings (strings ms))
      ((escaped name, .str (escaped value)) :: Json.memberSpellings (strings fs)) = _
    rw [Spelling.patchedMembers_set (v := .str (escaped value)) nofun]
    simp only [Spelling.patched]
    rw [alterMember_strings h.nulFree hname]
    exact ih (h.setField hname value) fun n hn => hfs n (List.mem_cons_of_mem _ hn)

theorem patchText?_text {ms fs : Dict String} (h : WellNamed ms)
    (hfs : ∀ name ∈ Dict.keys fs, NulFree name) :
    Spelling.patchText? (text ms) (text fs) = some (text (setFields ms fs)) := by
  have hpatched : Spelling.patched (.obj (Json.memberSpellings (strings ms)))
      (.obj (Json.memberSpellings (strings fs))) =
        (Json.obj (strings (setFields ms fs))).spelling := by
    rw [Spelling.patched]
    change Spelling.obj (Spelling.patchedMembers (Json.memberSpellings (strings ms)) _) = _
    rw [patchedMembers_strings h hfs]
    rfl
  simp only [Spelling.patchText?, ofLooseText?_text, Option.bind_eq_bind, Option.bind_some,
    hpatched, Json.minified_spelling, Option.pure_def]
  rfl

/-! ### Comparisons -/

/-- A name that a path gives without quotes. -/
structure PlainName (name : String) : Prop where
  nonempty : name.toList ≠ []
  plain : ∀ c ∈ name.toList, c ≠ '.' ∧ c ≠ '[' ∧ c ≠ '"' ∧ c ≠ '\x00'

theorem PlainName.nulFree {name : String} (h : PlainName name) : NulFree name :=
  fun hm => (h.plain _ hm).2.2.2 rfl

theorem PlainName.plainName {name : String} (h : PlainName name) :
    Spelling.plainName name.toList = (name.toList, []) := by
  have hall : ∀ c ∈ name.toList, (c != '.' && c != '[') = true := by
    intro c hc
    obtain ⟨hdot, hbracket, -, -⟩ := h.plain c hc
    rw [Bool.and_eq_true, bne_iff_ne, bne_iff_ne]
    exact ⟨hdot, hbracket⟩
  have hdrop : (name.toList ++ []).dropWhile (fun c => c != '.' && c != '[') =
      [].dropWhile (fun c => c != '.' && c != '[') := List.dropWhile_append_of_pos hall
  rw [List.append_nil, List.dropWhile_nil] at hdrop
  rw [Spelling.plainName, Text.takeWhile_all hall, hdrop]

theorem member?_strings {ms : Dict String} (h : ∀ name ∈ Dict.keys ms, NulFree name)
    {name : String} (hname : NulFree name) :
    Spelling.member? (name.toList.map Char.toNat) (.obj (Json.memberSpellings (strings ms))) =
      (Dict.get? ms name).map fun value => .str (escaped value) := by
  unfold Spelling.member?
  change ((Json.memberSpellings (strings ms)).find? _).map _ = _
  induction ms with
  | nil => rfl
  | cons m rest ih =>
    obtain ⟨k, v⟩ := m
    have hk : NulFree k := h k List.mem_cons_self
    have hrest := ih fun n hn => h n (List.mem_cons_of_mem _ hn)
    have hsame : (Spelling.labelKey (Spelling.label (escaped k)) ==
        Spelling.labelKey (name.toList.map Char.toNat)) = decide (k = name) := by
      rw [← Spelling.label_escaped name]
      exact Spelling.sameLabel_escaped hk hname
    change (List.find? _ ((escaped k, .str (escaped v)) :: Json.memberSpellings (strings rest))).map
      _ = _
    rw [List.find?_cons, Dict.get?]
    simp only [hsame]
    by_cases he : k = name
    · rw [decide_eq_true he, if_pos he]
      rfl
    · rw [decide_eq_false he, if_neg he]
      exact hrest

theorem followUpTo_name {name : String} (hname : PlainName name) (fuel : Nat) (s : Spelling) :
    Spelling.followUpTo (fuel + 1) s ('.' :: name.toList) =
      match Spelling.member? (name.toList.map Char.toNat) s with
      | some v => .value v
      | none => .nothing := by
  obtain ⟨c, cs, hcs⟩ := List.exists_cons_of_ne_nil hname.nonempty
  have hquote : c ≠ '"' := (hname.plain c (hcs ▸ List.mem_cons_self)).2.2.1
  have hplain := hname.plainName
  rw [hcs] at hplain
  have hpath : ∀ path, c :: cs = '"' :: path → False := by
    intro path he
    cases he
    exact hquote rfl
  rw [hcs]
  refine (Json.Spelling.followUpTo.eq_4 s fuel (c :: cs) hpath).trans ?_
  rw [hplain]
  simp only [List.isEmpty_cons, Bool.false_eq_true, if_false]
  cases Spelling.member? ((c :: cs).map Char.toNat) s with
  | none => rfl
  | some v => exact Json.Spelling.followUpTo.eq_1 fuel v

theorem follow_name {name : String} (hname : PlainName name) (s : Spelling) :
    Spelling.follow s ("." ++ name) =
      match Spelling.member? (name.toList.map Char.toNat) s with
      | some v => .value v
      | none => .nothing := by
  have hpath : ("." ++ name).toList = '.' :: name.toList := by
    rw [String.toList_append]
    rfl
  have hcut : ('.' :: name.toList).takeWhile (· != '\x00') = '.' :: name.toList := by
    refine Text.takeWhile_all fun c hc => ?_
    rw [bne_iff_ne]
    rcases List.mem_cons.mp hc with rfl | hc
    · decide
    · exact (hname.plain c hc).2.2.2
  unfold Spelling.follow
  simp only [hpath, hcut, List.length_cons, followUpTo_name hname]

theorem follow_strings {ms : Dict String} (h : ∀ name ∈ Dict.keys ms, NulFree name)
    {name : String} (hname : PlainName name) :
    Spelling.follow (.obj (Json.memberSpellings (strings ms))) ("." ++ name) =
      match Dict.get? ms name with
      | some value => .value (.str (escaped value))
      | none => .nothing := by
  rw [follow_name hname, member?_strings h hname.nulFree]
  cases Dict.get? ms name <;> rfl

theorem labels_eq (s t : String) :
    (Spelling.Scalar.text (Spelling.label (escaped s))).equals
      (.text (Spelling.label (escaped t))) = decide (s = t) := by
  rw [Spelling.Scalar.equals, Spelling.label_escaped, Spelling.label_escaped]
  by_cases h : s = t
  · rw [h, decide_eq_true rfl]
    exact beq_self_eq_true _
  · rw [decide_eq_false h, beq_eq_false_iff_ne]
    exact fun he => h (Spelling.codePoints_inj he)

theorem valueEquals?_text {ms : Dict String} (h : ∀ name ∈ Dict.keys ms, NulFree name)
    {name : String} (hname : PlainName name) (expected : String) :
    Database.valueEquals? (text ms) ("." ++ name) (.str expected) =
      some (decide (Dict.get? ms name = some expected)) := by
  have hwanted : Spelling.ofLooseText? (Json.str expected).compact =
      some (.str (escaped expected)) := Json.ofLooseText?_compact (Nat.zero_le _)
  simp only [Database.valueEquals?, ofLooseText?_text, hwanted, Option.bind_eq_bind,
    Option.bind_some, follow_strings h hname]
  cases Dict.get? ms name with
  | none => rfl
  | some value =>
    change some ((Spelling.Scalar.text _).equals (.text _)) = _
    rw [labels_eq]
    simp only [Option.some.injEq]

end Row

end TokenKeeper
