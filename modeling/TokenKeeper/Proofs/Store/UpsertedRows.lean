import TokenKeeper.Proofs.Json.Rows
import TokenKeeper.Proofs.Store.Cells
import TokenKeeper.Proofs.Store.Outcomes

/-!
# Rows that upserts have put in

Whatever documents upserts put into a database, of whatever fields, and in whatever order rows were
changed and deleted: in every row a name comes before those that are cut short to it.
-/
namespace TokenKeeper.Database

/-- A database that was without rows, and then was changed by upserts and deletions alone. -/
inductive BuiltByUpserts : Database → Prop
  | empty : BuiltByUpserts .empty
  | dropped : BuiltByUpserts .dropped
  | blocked : BuiltByUpserts .blocked
  | upsert {db db' : Database} (name key : String) {fields : Document}
    (hfields : Dict.Ordered fields) :
    BuiltByUpserts db → db.upsert name key fields = .ok db' → BuiltByUpserts db'
  | delete {db db' : Database} (name key : String) :
    BuiltByUpserts db → db.delete name key = .ok db' → BuiltByUpserts db'
  | deleteIf {db db' : Database} (name key field : String) (expected : Json) {removed : Bool} :
    BuiltByUpserts db → db.deleteIf name key field expected = .ok (removed, db') →
      BuiltByUpserts db'

def UniqueLabels (db : Database) : Prop :=
  ∀ rows name key text, db = .ready rows → text? rows name key = some text → Row.UniqueLabels text

variable {db db' : Database} {rows : TableRows} {name key text : String} {fields : Document}

theorem uniqueLabels_empty : empty.UniqueLabels := by
  rintro rows name key text ⟨⟩ h
  cases h

theorem UniqueLabels.setText (h : (ready rows).UniqueLabels) (htext : Row.UniqueLabels text)
    (name key : String) : (ready (setText rows name key text)).UniqueLabels := by
  rintro _ other k found ⟨⟩ hfound
  by_cases hother : name = other
  · subst hother
    rw [text?_setText] at hfound
    split at hfound
    · cases hfound
      exact htext
    · exact h rows name k found rfl hfound
  · rw [text?_setText_elsewhere rows hother] at hfound
    exact h rows other k found rfl hfound

theorem UniqueLabels.eraseText (h : (ready rows).UniqueLabels) (name key : String) :
    (ready (eraseText rows name key)).UniqueLabels := by
  rintro _ other k found ⟨⟩ hfound
  by_cases hother : name = other
  · subst hother
    rw [text?_eraseText] at hfound
    split at hfound
    · cases hfound
    · exact h rows name k found rfl hfound
  · rw [text?_eraseText_elsewhere rows hother] at hfound
    exact h rows other k found rfl hfound

theorem UniqueLabels.upsert (h : db.UniqueLabels) (hfields : Dict.Ordered fields)
    (hupsert : db.upsert name key fields = .ok db') : db'.UniqueLabels := by
  obtain ⟨rows, text, rfl, hmerged, rfl⟩ := World.upserted_row hupsert
  refine h.setText ?_ name key
  cases hstored : text? rows name key with
  | none =>
    rw [hstored] at hmerged
    cases hmerged
    exact Row.uniqueLabels_compact hfields
  | some stored =>
    rw [hstored] at hmerged
    exact (h rows name key stored rfl hstored).patched hmerged

theorem UniqueLabels.delete (h : db.UniqueLabels) (hdelete : db.delete name key = .ok db') :
    db'.UniqueLabels := by
  cases db with
  | ready rows =>
    cases hdelete
    exact h.eraseText name key
  | _ => cases hdelete

theorem UniqueLabels.deleteIf (h : db.UniqueLabels) {field : String} {expected : Json}
    {removed : Bool} (hdelete : db.deleteIf name key field expected = .ok (removed, db')) :
    db'.UniqueLabels := by
  have hcase := deletesIf db name key field expected
  rw [hdelete] at hcase
  cases hcase with
  | gone hdb =>
    subst hdb
    exact h.eraseText name key
  | kept => exact h

theorem BuiltByUpserts.uniqueLabels (h : db.BuiltByUpserts) : db.UniqueLabels := by
  induction h with
  | empty => exact uniqueLabels_empty
  | dropped => exact nofun
  | blocked => exact nofun
  | upsert name key hfields _ hupsert ih => exact ih.upsert hfields hupsert
  | delete name key _ hdelete ih => exact ih.delete hdelete
  | deleteIf name key field expected _ hdelete ih => exact ih.deleteIf hdelete

end TokenKeeper.Database
