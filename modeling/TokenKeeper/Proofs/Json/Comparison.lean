import TokenKeeper.Proofs.Json.Merged
import TokenKeeper.Proofs.Json.Record

/-!
# Values compared in a database

Two values are the same if they are equal but for the signs of zeros. A database compares something
else. It has three sorts of values: null, which equals nothing; numbers, the truth values among
them; and texts, to which it turns lists and objects. Values of different sorts are different for
both. Within a sort, texts, truth values, and integers of 64 bits are compared alike, and so are
lists and objects as long as equal ones are spelled in the same way.
-/
namespace TokenKeeper

open Json (escaped Glyph Numeral Spelling)

namespace Json

/-! ### Equal values -/

mutual

def unsigned : Json → Json
  | .float x => .float (if x.isZero then .zero false else x)
  | .arr items => .arr (unsignedItems items)
  | .obj members => .obj (unsignedMembers members)
  | v => v

def unsignedItems : List Json → List Json
  | [] => []
  | x :: rest => unsigned x :: unsignedItems rest

def unsignedMembers : List (String × Json) → List (String × Json)
  | [] => []
  | (k, x) :: rest => (k, unsigned x) :: unsignedMembers rest

end

theorem sameNumber_iff (x y : Binary64) : x.sameNumber y = true ↔
    (if x.isZero then Binary64.zero false else x) = if y.isZero then .zero false else y := by
  have hzero : ∀ z : Binary64, z.isZero = false → z ≠ .zero false := by
    rintro z hz rfl
    cases hz
  unfold Binary64.sameNumber
  rw [Bool.or_eq_true, beq_iff_eq, Bool.and_eq_true]
  cases hx : x.isZero <;> cases hy : y.isZero
  · simp
  · simp only [Bool.false_eq_true, false_and, or_false, if_false, if_true]
    exact iff_of_false (fun h => by rw [h, hy] at hx; cases hx) (hzero x hx)
  · simp only [Bool.false_eq_true, and_false, or_false, if_false, if_true]
    exact iff_of_false (fun h => by rw [h, hy] at hx; cases hx) fun h => hzero y hy h.symm
  · simp

mutual

theorem same_iff : ∀ a b : Json, a.same b = true ↔ a.unsigned = b.unsigned
  | .null, b => by cases b <;> simp [same, unsigned]
  | .bool _, b => by cases b <;> simp [same, unsigned]
  | .int _, b => by cases b <;> simp [same, unsigned]
  | .float x, b => by
    cases b with
    | float y => simp [same, unsigned, sameNumber_iff]
    | _ => simp [same, unsigned]
  | .str _, b => by cases b <;> simp [same, unsigned]
  | .arr as, b => by
    cases b with
    | arr bs => simp [same, unsigned, sameItems_iff as bs]
    | _ => simp [same, unsigned]
  | .obj as, b => by
    cases b with
    | obj bs => simp [same, unsigned, sameMembers_iff as bs]
    | _ => simp [same, unsigned]

theorem sameItems_iff : ∀ as bs : List Json,
    sameItems as bs = true ↔ unsignedItems as = unsignedItems bs
  | [], bs => by cases bs <;> simp [sameItems, unsignedItems]
  | a :: as, bs => by
    cases bs with
    | nil => simp [sameItems, unsignedItems]
    | cons b bs => simp [sameItems, unsignedItems, same_iff a b, sameItems_iff as bs]

theorem sameMembers_iff : ∀ as bs : List (String × Json),
    sameMembers as bs = true ↔ unsignedMembers as = unsignedMembers bs
  | [], bs => by cases bs <;> simp [sameMembers, unsignedMembers]
  | (k, a) :: as, bs => by
    cases bs with
    | nil => simp [sameMembers, unsignedMembers]
    | cons b bs =>
      simp [sameMembers, unsignedMembers, same_iff a b.2, sameMembers_iff as bs, and_assoc]

end

/-! ### Sorts of values -/

inductive DatabaseSort
  | null | number | text

def sort : Json → DatabaseSort
  | .null => .null
  | .bool _ | .int _ | .float _ => .number
  | .str _ | .arr _ | .obj _ => .text

theorem sort_of_same {a b : Json} (h : a.same b = true) : a.sort = b.sort := by
  cases a <;> cases b <;> first | rfl | cases h

def fitsSigned (n : Int) : Prop := -9223372036854775808 ≤ n ∧ n ≤ 9223372036854775807

/-- Values that a database compares as values of JSON are compared. -/
def Comparable : Json → Json → Prop
  | .str _, .str _ => True
  | .bool _, .bool _ => True
  | .int a, .int b => fitsSigned a ∧ fitsSigned b
  | .bool a, .int b => fitsSigned b ∧ b ≠ a.toNat
  | .int a, .bool b => fitsSigned a ∧ a ≠ b.toNat
  | a, b => a.sort ≠ b.sort

namespace Spelling

def Scalar.sort : Scalar → DatabaseSort
  | .null => .null
  | .integer _ | .real _ => .number
  | .text _ => .text

theorem equals_of_sort_ne {a b : Scalar} (h : a.sort ≠ b.sort) : a.equals b = false := by
  unfold Scalar.equals
  split <;> first | rfl | exact absurd rfl h

theorem sort_numberScalar (spelled : List Char) : (numberScalar spelled).sort = .number := by
  simp only [numberScalar, apply_ite Scalar.sort]
  simp only [Scalar.sort, ite_self]

theorem sort_scalar_spelling (j : Json) : j.spelling.scalar.sort = j.sort := by
  cases j with
  | int n => exact sort_numberScalar _
  | float x => exact sort_numberScalar _
  | _ => rfl

theorem sort_scalar {j : Json} {s : Spelling} (h : Spells j s) : s.scalar.sort = j.sort := by
  cases j with
  | null | bool => cases h; rfl
  | int n =>
    obtain ⟨text, rfl, -⟩ := h
    exact sort_numberScalar text
  | float x =>
    obtain ⟨text, rfl, -⟩ := h
    exact sort_numberScalar text
  | str t =>
    obtain ⟨spelled, rfl, -⟩ := h
    rfl
  | arr | obj =>
    obtain ⟨inner, rfl⟩ := h
    rfl

/-! ### Scalars -/

theorem numberScalar_of_int? {spelled : List Char} {n : Int}
    (h : (Numeral.ofChars spelled).int? = some n) (hn : fitsSigned n) :
    numberScalar spelled = .integer n := by
  have hlow : -((1 <<< 63 : Nat) : Int) = -9223372036854775808 := by decide
  have hhigh : ((1 <<< 63 : Nat) : Int) = 9223372036854775808 := by decide
  obtain ⟨hge, hle⟩ := hn
  unfold Numeral.int? at h
  unfold numberScalar
  generalize Numeral.ofChars spelled = numeral at h
  obtain ⟨negative, whole, fraction, exponent⟩ := numeral
  dsimp only at h ⊢
  rw [hlow, hhigh]
  split at h
  · cases h
  · next hwhole =>
    rw [not_or, Option.not_isSome_iff_eq_none, Option.not_isSome_iff_eq_none] at hwhole
    obtain ⟨rfl, rfl⟩ := hwhole
    have hvalue : (if negative then -(Text.ofDigits 10 whole : Int) else Text.ofDigits 10 whole) =
        n := by
      cases negative <;> simp only [Bool.false_eq_true, if_false, if_true] at h ⊢ <;>
        · split at h <;> cases h
          rfl
    rw [if_pos ⟨rfl, rfl⟩, hvalue, if_pos ⟨hge, Int.lt_of_le_sub_one hle⟩]

theorem scalar_int {n : Int} {s : Spelling} (h : Spells (.int n) s) (hn : fitsSigned n) :
    s.scalar = .integer n := by
  obtain ⟨text, rfl, hint⟩ := h
  exact numberScalar_of_int? hint hn

theorem spells_int {n : Int} (hn : fitsSigned n) : Spells (.int n) (Json.int n).spelling :=
  ⟨_, rfl, int?_intChars hn.1 (Int.le_trans hn.2 (by decide))⟩

theorem scalar_str {t : String} {s : Spelling} (h : Spells (.str t) s) :
    s.scalar = .text (label (escaped t)) := by
  obtain ⟨spelled, rfl, ht⟩ := h
  rw [label_escaped, ← label_of_text? ht]
  rfl

theorem equals_iff_same {a b : Json} {s : Spelling} (ha : Spells a s) (h : Comparable a b) :
    s.scalar.equals b.spelling.scalar = a.same b := by
  have hapart : a.sort ≠ b.sort → s.scalar.equals b.spelling.scalar = a.same b := by
    intro hsort
    have hscalar : s.scalar.sort ≠ b.spelling.scalar.sort := by
      rwa [sort_scalar ha, sort_scalar_spelling]
    rw [equals_of_sort_ne hscalar]
    exact (Bool.eq_false_iff.mpr fun hsame => hsort (sort_of_same hsame)).symm
  unfold Comparable at h
  split at h
  · next t t' =>
    rw [scalar_str ha]
    exact Row.labels_eq t t'
  · next t t' =>
    cases ha
    cases t <;> cases t' <;> rfl
  · next n m =>
    rw [scalar_int ha h.1, scalar_int (spells_int h.2) h.2]
    rfl
  · next t m =>
    cases ha
    rw [scalar_int (spells_int h.1) h.1]
    refine beq_eq_false_iff_ne.mpr fun he => h.2 ?_
    rw [← he]
    cases t <;> rfl
  · next n t =>
    rw [scalar_int ha h.1]
    refine beq_eq_false_iff_ne.mpr fun he => h.2 ?_
    rw [he]
    cases t <;> rfl
  · exact hapart h

end Spelling

/-! ### Lists and objects -/

def IsNested : Json → Prop
  | .arr _ | .obj _ => True
  | _ => False

/-- Lists and objects of which a database compares the printed texts. The expected one reads as
itself, and no zero in them has a sign. -/
structure Nested (a b : Json) : Prop where
  stored : a.IsNested
  expected : b.IsNested
  reads : b.spelling.value? (nestingLimit - 1) = some b
  unsigned_stored : a.unsigned = a
  unsigned_expected : b.unsigned = b

theorem scalar_of_isNested {j : Json} (h : j.IsNested) :
    j.spelling.scalar = .text (j.compact.toList.map Char.toNat) := by
  have hchars : j.compact.toList = j.spelling.minifiedChars := by
    rw [← minified_spelling, Spelling.minified, String.toList_ofList]
  rw [hchars]
  cases j with
  | arr | obj => rfl
  | _ => cases h

theorem compact_inj {a b : Json} {depth : Nat} (ha : a.spelling.value? depth = some a)
    (hb : b.spelling.value? depth = some b) : a.compact = b.compact ↔ a = b := by
  refine ⟨fun h => ?_, congrArg compact⟩
  have hspelling : a.spelling = b.spelling := by
    have htext := ofText?_compact a
    rw [h, ofText?_compact b] at htext
    exact (Option.some.inj htext).symm
  rw [hspelling, hb] at ha
  exact (Option.some.inj ha).symm

theorem Nested.equals_iff_same {a b : Json} (h : Nested a b)
    (ha : a.spelling.value? (nestingLimit - 1) = some a) :
    a.spelling.scalar.equals b.spelling.scalar = a.same b := by
  rw [scalar_of_isNested h.stored, scalar_of_isNested h.expected, Bool.eq_iff_iff, same_iff,
    h.unsigned_stored, h.unsigned_expected, ← compact_inj ha h.reads, Spelling.Scalar.equals,
    beq_iff_eq, List.map_inj_right fun _ _ => Char.toNat_inj.mp, String.toList_inj]

end Json

/-! ### Fields of rows -/

namespace Row

open Json.Spelling (readName)

variable {text name : String} {doc : Document} {v expected : Json}

theorem UniqueLabels.valueEquals?_found (hlabels : UniqueLabels text)
    (hdoc : Json.documentOfText? text = some doc) (hname : PlainName name)
    (hget : Dict.get? doc name = some v) (h : v.Comparable expected)
    (hdepth : expected.spelling.depth ≤ Spelling.deepest) :
    Database.valueEquals? text ("." ++ name) expected = some (v.same expected) := by
  obtain ⟨row, x, hrow, hmember, hvalue⟩ := hlabels.member? hdoc hname.nulFree hget
  simp only [Database.valueEquals?, hrow, Json.ofLooseText?_compact hdepth, Option.bind_eq_bind,
    Option.bind_some, follow_name hname, hmember]
  exact congrArg some (Json.Spelling.equals_iff_same (Spelling.spells_of_value? hvalue) h)

theorem exists_of_member? {fields : Document} {points : List Nat} {x : Spelling}
    (h : Spelling.member? points (.obj (Json.memberSpellings fields)) = some x) :
    ∃ e ∈ fields, x = e.2.spelling := by
  obtain ⟨m, hm, rfl⟩ := Option.map_eq_some_iff.mp h
  have hmem : m ∈ Json.memberSpellings fields := List.mem_of_find?_eq_some hm
  rw [Json.memberSpellings_eq] at hmem
  obtain ⟨e, he, rfl⟩ := List.mem_map.mp hmem
  exact ⟨e, he, rfl⟩

/-- Lists and objects in a row that is spelled as its document would be printed. -/
theorem valueEquals?_printed (hdoc : Json.documentOfText? (Json.obj doc).compact = some doc)
    (hname : PlainName name) (hget : Dict.get? doc name = some v) (h : v.Nested expected)
    (hdepth : expected.spelling.depth ≤ Spelling.deepest) :
    Database.valueEquals? (Json.obj doc).compact ("." ++ name) expected =
      some (v.same expected) := by
  have htext := Json.ofText?_compact (.obj doc)
  obtain ⟨hentries, hordered⟩ := Spelling.entries?_of_value? (value?_of_documentOfText? htext hdoc)
  obtain ⟨row, x, hrow, hmember, hvalue⟩ := (uniqueLabels_compact hordered).member? hdoc
    hname.nulFree hget
  cases Spelling.ofLooseText?_unique htext hrow
  obtain ⟨e, he, rfl⟩ := exists_of_member? hmember
  have hreads := Spelling.value?_of_mem hentries he
  obtain rfl : e.2 = v := Option.some.inj (hreads.symm.trans hvalue)
  simp only [Database.valueEquals?, hrow, Json.ofLooseText?_compact hdepth, Option.bind_eq_bind,
    Option.bind_some, follow_name hname, hmember]
  exact congrArg some (h.equals_iff_same hreads)

theorem valueEquals?_absent (hdoc : Json.documentOfText? text = some doc) (hname : PlainName name)
    (hget : Dict.get? doc name = none) (hcut : ∀ k ∈ Dict.keys doc, readName k ≠ name.toList)
    (hdepth : expected.spelling.depth ≤ Spelling.deepest) :
    Database.valueEquals? text ("." ++ name) expected = some false := by
  obtain ⟨ms, es, -, hrow, hentries, rfl⟩ := exists_of_documentOfText? hdoc
  have hmember : Spelling.member? (name.toList.map Char.toNat) (.obj ms) = none := by
    refine Json.Spelling.member?_eq_none hentries fun k hk => ?_
    rw [Json.Spelling.readName_of_nulFree hname.nulFree]
    exact hcut k (Dict.mem_keys_ofList.mpr hk)
  simp only [Database.valueEquals?, hrow, Json.ofLooseText?_compact hdepth, Option.bind_eq_bind,
    Option.bind_some, follow_name hname, hmember]
  rfl

end Row
end TokenKeeper
