import TokenKeeper.Proofs.Json.Comparison
import TokenKeeper.Proofs.Store.UpsertedRows

/-!
# Conditional deletions

A file compares the field of a document with the expected value as values of JSON. A table compares
as the database does, under a path that starts with the name of the field. The two come to the same
for a plain name to which no other name of the document is cut short, and for values that a database
compares as values of JSON. What is deleted is deleted as if without a condition, and where nothing
is deleted nothing changes.
-/
namespace TokenKeeper

open Json.Spelling (readName)

variable {w w' : World} {key field : String} {expected v : Json} {doc : Document}

/-! ### Deletions as such -/

theorem Cell.find_of_deleteIf {cell : Cell} (h : (cell.deleteIf key field expected).1 = .ok true)
    (k : String) : (cell.deleteIf key field expected).2.find k = .ok none := by
  unfold Cell.deleteIf at h ⊢
  split
  · next doc =>
    split
    · next value hvalue =>
      simp only [hvalue] at h
      split
      · rfl
      · next hsame =>
        rw [if_neg hsame] at h
        cases h
    · next hnone =>
      simp only [hnone] at h
      cases h
  · cases h
  · next text =>
    split
    · rfl
    · next hequal =>
      simp only [hequal] at h
      cases h
    · next hequal =>
      simp only [hequal] at h
      cases h

theorem World.deleteIf_of_perform {removed : Bool}
    (h : perform (.deleteIf key field expected) w = (.ok removed, w')) :
    w.deleteIf key field expected = .ok (removed, w') := by
  rw [perform] at h
  rcases hresult : w.deleteIf key field expected with e | ⟨r, changed⟩
  · rw [hresult] at h
    cases h
  · rw [hresult] at h
    cases h
    rfl

theorem FileCollection.contains_of_hasValue {c : FileCollection}
    (h : c.hasValue key field expected = true) : Dict.contains c.documents key = true := by
  unfold hasValue at h
  cases hfind : c.find key with
  | none =>
    rw [hfind] at h
    cases h
  | some doc => exact Option.isSome_of_eq_some hfind

theorem FileCollection.delete_of_deleteIf {c : FileCollection} {d : Disk}
    {mishap : Option WriteStep} {changed : FileCollection × Disk}
    (h : c.deleteIf d mishap key field expected = .ok (true, changed)) :
    c.delete d mishap key = .ok changed := by
  unfold deleteIf at h
  split at h
  · next hvalue =>
    rw [delete, if_pos (contains_of_hasValue hvalue)]
    obtain ⟨stored, hstore, hdone⟩ := bind_eq_ok_iff.mp h
    cases hdone
    exact hstore
  · cases h

theorem Database.delete_of_deleteIf {db db' : Database} {name : String}
    (h : db.deleteIf name key field expected = .ok (true, db')) :
    db.delete name key = .ok db' := by
  have hcase := deletesIf db name key field expected
  rw [h] at hcase
  cases hcase with
  | gone hdb =>
    rw [hdb]
    rfl

theorem World.delete_of_deleteIf (h : w.deleteIf key field expected = .ok (true, w')) :
    w.delete key = .ok w' := by
  cases changed_of_deleteIf h with
  | file hc hdelete =>
    simp only [World.delete, hc, FileCollection.delete_of_deleteIf hdelete, bind, Except.bind, pure,
      Except.pure]
  | table hc hnoFault hdelete =>
    simp only [World.delete, hc, World.refuse, hnoFault, Database.delete_of_deleteIf hdelete, bind,
      Except.bind, pure, Except.pure, Option.isSome_none, Bool.false_eq_true, if_false]

theorem World.eq_of_deleteIf (h : w.deleteIf key field expected = .ok (false, w')) : w' = w := by
  cases changed_of_deleteIf h with
  | @file c changed hc hdelete =>
    unfold FileCollection.deleteIf at hdelete
    split at hdelete
    · obtain ⟨stored, -, hdone⟩ := bind_eq_ok_iff.mp hdelete
      cases hdone
    · cases hdelete
      rw [withFile, ← hc]
  | @table name database hc hnoFault hdelete =>
    have hcase := Database.deletesIf w.database name key field expected
    rw [hdelete] at hcase
    cases hcase with
    | kept => rfl

/-! ### What a condition finds -/

namespace World

/-- A table compares a field of a document with the expected value as values of JSON: they are of
kinds that it compares so, or the row is spelled as the document would be printed, and they are
lists or objects. -/
def Compares (w : World) (key : String) (doc : Document) (stored expected : Json) : Prop :=
  stored.Comparable expected ∨
    w.cell key = .row (some (Json.obj doc).compact) ∧ stored.Nested expected

/-- A table finds the fields of this name, and reads the expected value. -/
structure Finds (w : World) (field : String) (expected : Json) : Prop where
  builtByUpserts : w.database.BuiltByUpserts
  plain : Row.PlainName field
  shallow : expected.spelling.depth ≤ Json.Spelling.deepest

theorem Ready.deleteIf_found (h : w.Ready) (hfind : w.find key = .ok (some doc))
    (hget : Dict.get? doc field = some v)
    (htable : ∀ name, w.collection = .table name →
      w.Finds field expected ∧ w.Compares key doc v expected) :
    ((w.cell key).deleteIf key field expected).1 = .ok (v.same expected) := by
  rw [h.find] at hfind
  cases hc : w.collection with
  | file c =>
    rw [cell_file hc] at hfind ⊢
    cases hdoc : c.find key with
    | none =>
      rw [hdoc] at hfind
      cases hfind
    | some found =>
      rw [hdoc] at hfind
      cases hfind
      simp only [Cell.deleteIf, Option.bind_some, hget]
      cases v.same expected <;> rfl
  | table name =>
    obtain ⟨rows, hd⟩ := h.exists_rows hc
    obtain ⟨⟨hbuilt, hplain, hshallow⟩, hcompares⟩ := htable name hc
    have hcell := cell_table hc hd key
    rw [hcell] at hfind ⊢
    cases htext : Database.text? rows name key with
    | none =>
      rw [htext] at hfind
      cases hfind
    | some text =>
      rw [htext] at hcell
      rw [htext, Cell.find] at hfind
      split at hfind
      · next found hdoc =>
        cases hfind
        have hequal : Database.valueEquals? text ("." ++ field) expected =
            some (v.same expected) := by
          rcases hcompares with hcomparable | ⟨hprinted, hnested⟩
          · have hlabels := hbuilt.uniqueLabels rows name key text hd htext
            exact hlabels.valueEquals?_found hdoc hplain hget hcomparable hshallow
          · cases hcell.symm.trans hprinted
            exact Row.valueEquals?_printed hdoc hplain hget hnested hshallow
        simp only [Cell.deleteIf, hequal]
        cases v.same expected <;> rfl
      · cases hfind

theorem Ready.deleteIf_absent (h : w.Ready) {found : Option Document}
    (hfind : w.find key = .ok found) (hget : (found.bind fun doc => Dict.get? doc field) = none)
    (htable : ∀ name, w.collection = .table name → Row.PlainName field ∧
      expected.spelling.depth ≤ Json.Spelling.deepest ∧
      ∀ doc, found = some doc → ∀ k ∈ Dict.keys doc, readName k ≠ field.toList) :
    ((w.cell key).deleteIf key field expected).1 = .ok false := by
  rw [h.find] at hfind
  cases hc : w.collection with
  | file c =>
    rw [cell_file hc] at hfind ⊢
    cases hfind
    simp only [Cell.deleteIf, hget]
  | table name =>
    obtain ⟨rows, hd⟩ := h.exists_rows hc
    obtain ⟨hplain, hshallow, huncut⟩ := htable name hc
    rw [cell_table hc hd] at hfind ⊢
    cases htext : Database.text? rows name key with
    | none => rfl
    | some text =>
      rw [htext, Cell.find] at hfind
      split at hfind
      · next doc hdoc =>
        cases hfind
        have hequal : Database.valueEquals? text ("." ++ field) expected = some false :=
          Row.valueEquals?_absent hdoc hplain hget (huncut doc rfl) hshallow
        simp only [Cell.deleteIf, hequal]
      · cases hfind

/-! ### Deletions under a condition -/

/-- The document of a key has a field of this very name whose value is the expected one, the signs
of zeros aside. -/
def Matches (w : World) (key field : String) (expected : Json) : Prop :=
  ∃ doc v, w.find key = .ok (some doc) ∧ Dict.get? doc field = some v ∧
    v.unsigned = expected.unsigned

/-- Where a table decides as a file does: the field has a plain name to which no other name of the
document is cut short, and its value can be compared. -/
structure Decides (w : World) (key field : String) (expected : Json) : Prop where
  finds : w.Finds field expected
  readable : ∃ found, w.find key = .ok found
  uncut : ∀ doc, w.find key = .ok (some doc) →
    ∀ k ∈ Dict.keys doc, readName k = field.toList → k = field
  compares : ∀ doc v, w.find key = .ok (some doc) → Dict.get? doc field = some v →
    w.Compares key doc v expected

theorem Ready.exists_found (h : w.Ready)
    (htable : ∀ name, w.collection = .table name → w.Decides key field expected) :
    ∃ found, w.find key = .ok found := by
  cases hc : w.collection with
  | file c =>
    rw [h.find, cell_file hc]
    exact ⟨_, rfl⟩
  | table name => exact (htable name hc).readable

theorem Ready.deleteIf_decides (h : w.Ready)
    (htable : ∀ name, w.collection = .table name → w.Decides key field expected) :
    ∃ removed, ((w.cell key).deleteIf key field expected).1 = .ok removed ∧
      (removed = true ↔ w.Matches key field expected) := by
  obtain ⟨found, hfind⟩ := h.exists_found htable
  cases hget : found.bind fun doc => Dict.get? doc field with
  | none =>
    refine ⟨false, h.deleteIf_absent hfind hget fun name hc => ?_, iff_of_false nofun ?_⟩
    · have hdecides := htable name hc
      refine ⟨hdecides.finds.plain, hdecides.finds.shallow, ?_⟩
      rintro doc rfl k hk hcut
      obtain ⟨v, hv⟩ := Dict.mem_keys_iff.mp (hdecides.uncut doc hfind k hk hcut ▸ hk)
      exact absurd (hget.symm.trans hv) nofun
    · rintro ⟨doc, v, hdoc, hv, -⟩
      cases hfind.symm.trans hdoc
      exact absurd (hget.symm.trans hv) nofun
  | some v =>
    obtain ⟨doc, rfl, hv⟩ := Option.bind_eq_some_iff.mp hget
    refine ⟨v.same expected, h.deleteIf_found hfind hv fun name hc => ?_, ?_⟩
    · have hdecides := htable name hc
      exact ⟨hdecides.finds, hdecides.compares doc v hfind hv⟩
    · rw [Json.same_iff]
      refine ⟨fun hsame => ⟨doc, v, hfind, hv, hsame⟩, ?_⟩
      rintro ⟨doc', v', hdoc, hv', hsame⟩
      cases hfind.symm.trans hdoc
      cases hv.symm.trans hv'
      exact hsame

/-- Any file, and a table where it decides as a file does, deletes a document under a condition
exactly if the condition is met. The document is gone then, and no other one; else nothing
changes. -/
theorem deleteIf_exact (hw : w.Ready)
    (htable : ∀ name, w.collection = .table name → w.Decides key field expected) :
    ∃ removed w', perform (.deleteIf key field expected) w = (.ok removed, w') ∧
      (removed = true ↔ w.Matches key field expected) ∧
      (removed = true → w.delete key = .ok w' ∧ w'.find key = .ok none ∧ w.Edited key w' ∧
        ∀ other, other ≠ key → w'.find other = w.find other) ∧
      (removed = false → w' = w) := by
  obtain ⟨removed, hanswer, hmatches⟩ := hw.deleteIf_decides htable
  obtain ⟨w', hperform, hedited, hafter⟩ := hw.deleteIf key field expected
  rw [hanswer] at hperform
  have hdelete := deleteIf_of_perform hperform
  refine ⟨removed, w', hperform, hmatches, ?_, ?_⟩
  · rintro rfl
    have hgone : w'.find key = .ok none := by
      rw [hedited.ready.find, hafter, Cell.find_of_deleteIf hanswer]
    exact ⟨delete_of_deleteIf hdelete, hgone, hedited, fun _ => hedited.find hw⟩
  · rintro rfl
    exact eq_of_deleteIf hdelete

end World

/-! ### A row with a list, a truth value and a null -/

namespace Compared

def list : Json := .arr [.int 1, .obj [("k", .null)]]

def stored : Document := [("l", list), ("n", .bool true), ("z", .null)]

def text : String := (Json.obj stored).compact

def row : World :=
  { World.isolated .epoch .empty with
    database := .ready (Database.setText [] "tokens" "u1" text) }

theorem row_ready : row.Ready := ⟨rfl, ⟨_, rfl⟩⟩

theorem row_builtByUpserts : row.database.BuiltByUpserts := by
  have hordered : Dict.Ordered stored := by
    unfold Dict.Ordered
    decide
  have hupsert : Database.empty.upsert "tokens" "u1" stored =
      .ok (.ready (Database.setText [] "tokens" "u1" text)) := rfl
  exact .upsert "tokens" "u1" hordered .empty hupsert

theorem row_cell : row.cell "u1" = .row (some text) := rfl

theorem row_find : row.find "u1" = .ok (some stored) := by
  have hread : Json.documentOfText? text = some stored := Row.documentOfText?_compact rfl
  rw [row_ready.find, row_cell]
  simp only [Cell.find, hread]

theorem list_nested : list.Nested list :=
  ⟨trivial, trivial, rfl, rfl, rfl⟩

theorem row_decides : row.Decides "u1" "l" list := by
  constructor
  case finds =>
    refine ⟨row_builtByUpserts, ⟨by decide, fun c hc => ?_⟩, by decide⟩
    obtain rfl : c = 'l' := List.mem_singleton.mp hc
    decide
  case readable => exact ⟨_, row_find⟩
  case uncut =>
    intro found hfind
    cases row_find.symm.trans hfind
    decide
  case compares =>
    intro found v hfind hget
    cases row_find.symm.trans hfind
    cases hget
    exact .inr ⟨row_cell, list_nested⟩

theorem list_deleted : row.Ready ∧ row.Decides "u1" "l" list ∧
    ∃ w', World.perform (.deleteIf "u1" "l" list) row = (.ok true, w') ∧
      w'.find "u1" = .ok none := by
  obtain ⟨removed, w', hperform, hmatches, hremoved, -⟩ :=
    World.deleteIf_exact row_ready fun _ _ => row_decides
  have hmatch : removed = true := hmatches.mpr ⟨stored, list, row_find, rfl, rfl⟩
  rw [hmatch] at hperform
  exact ⟨row_ready, row_decides, w', hperform, (hremoved hmatch).2.1⟩

/-- Truth is deleted as if it were the number one, and null is not even found to be null. -/
theorem truth_and_null :
    (¬ row.Matches "u1" "n" (.int 1) ∧
      ∃ w', World.perform (.deleteIf "u1" "n" (.int 1)) row = (.ok true, w') ∧
        w'.find "u1" = .ok none) ∧
    row.Matches "u1" "z" .null ∧
      ∃ w', World.perform (.deleteIf "u1" "z" .null) row = (.ok false, w') ∧
        w'.find "u1" = .ok (some stored) := by
  have htruth : Database.valueEquals? text ("." ++ "n") (.int 1) = some true := by
    decide +kernel
  have hnull : Database.valueEquals? text ("." ++ "z") .null = some false := by
    decide +kernel
  have hdelete : Cell.deleteIf "u1" "n" (.int 1) (row.cell "u1") = (.ok true, .row none) := by
    simp only [row_cell, Cell.deleteIf, htruth]
  have hstay : Cell.deleteIf "u1" "z" .null (row.cell "u1") = (.ok false, .row (some text)) := by
    simp only [row_cell, Cell.deleteIf, hnull]
  refine ⟨⟨?_, ?_⟩, ⟨stored, .null, row_find, rfl, rfl⟩, ?_⟩
  · rintro ⟨found, v, hfind, hget, hsame⟩
    cases row_find.symm.trans hfind
    cases hget
    cases hsame
  · obtain ⟨w', hperform, hedited, hafter⟩ := row_ready.deleteIf "u1" "n" (.int 1)
    rw [hdelete] at hperform hafter
    refine ⟨w', hperform, ?_⟩
    rw [hedited.ready.find, hafter]
    rfl
  · obtain ⟨w', hperform, hedited, hafter⟩ := row_ready.deleteIf "u1" "z" .null
    rw [hstay] at hperform hafter
    refine ⟨w', hperform, ?_⟩
    rw [hedited.ready.find, hafter, ← row_cell, ← row_ready.find, row_find]

end Compared
end TokenKeeper
