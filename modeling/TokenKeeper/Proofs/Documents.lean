import TokenKeeper.Proofs.Binds
import TokenKeeper.Proofs.Disk
import TokenKeeper.Proofs.Json.Flat
import TokenKeeper.World

/-!
# Collections of documents of texts

The documents of a world by their keys, whether a file or a table keeps them. As long as nothing
keeps the medium from writing, an upsert of texts succeeds and inserts them into the document of its
key, a conditional deletion removes that document or nothing, and both leave the rest of the world
alone. So a file and a table that hold the same documents go on holding the same.
-/
namespace TokenKeeper

abbrev Holdings := String → Option Document

namespace Holdings

def put (docs : Holdings) (key : String) (doc : Option Document) : Holdings :=
  fun k => if key = k then doc else docs k

theorem put_self (docs : Holdings) (key : String) (doc : Option Document) :
    docs.put key doc key = doc := if_pos rfl

theorem put_other (docs : Holdings) {key other : String} (h : key ≠ other)
    (doc : Option Document) : docs.put key doc other = docs other := if_neg h

def upsert (docs : Holdings) (key : String) (fs : Dict String) : Holdings :=
  docs.put key (some (Dict.insertAll ((docs key).getD []) (Row.strings fs)))

def hasText (docs : Holdings) (key field expected : String) : Bool :=
  (((docs key).bind fun doc => Dict.get? doc field).bind Json.str?) == some expected

def deleteIf (docs : Holdings) (key field expected : String) : Holdings :=
  if docs.hasText key field expected then docs.put key none else docs

end Holdings

/-! ### Rows of a table -/

namespace Database

theorem text?_setText (rows : TableRows) (name key text other : String) :
    text? (setText rows name key text) name other =
      if key = other then some text else text? rows name other := by
  rw [text?, setText, Dict.get?_insert, if_pos rfl, Option.bind_some, Dict.get?_insert, text?]
  cases Dict.get? rows name <;> rfl

theorem text?_eraseText (rows : TableRows) (name key other : String) :
    text? (eraseText rows name key) name other =
      if key = other then none else text? rows name other := by
  rw [text?, eraseText, Dict.get?_insert, if_pos rfl, Option.bind_some, Dict.get?_erase, text?]
  cases Dict.get? rows name <;> rfl

/-- The rows of a name are objects of strings, and stand for these documents. -/
def HoldsTexts (rows : TableRows) (name : String) (docs : Holdings) : Prop :=
  ∀ key, match text? rows name key with
    | some text => ∃ ms, Row.WellNamed ms ∧ text = Row.text ms ∧ docs key = some (Row.document ms)
    | none => docs key = none

variable {rows : TableRows} {name : String} {docs : Holdings}

theorem HoldsTexts.find (h : HoldsTexts rows name docs) (key : String) :
    (ready rows).find name key = .ok (docs key) := by
  have hkey := h key
  simp only [Database.find, Database.rows, bind, Except.bind]
  cases ht : text? rows name key with
  | none =>
    rw [ht] at hkey
    rw [hkey]
    rfl
  | some text =>
    rw [ht] at hkey
    obtain ⟨ms, -, rfl, hdoc⟩ := hkey
    simp only [Row.documentOfText?_text, hdoc]
    rfl

theorem HoldsTexts.upsert (h : HoldsTexts rows name docs) {fs : Dict String}
    (hfs : Row.WellNamed fs) (key : String) :
    ∃ rows', (ready rows).upsert name key (Row.strings fs) = .ok (.ready rows') ∧
      HoldsTexts rows' name (docs.upsert key fs) := by
  have hmerged : ∃ ms, Row.WellNamed ms ∧
      merged? (text? rows name key) (Row.strings fs) = some (Row.text ms) ∧
      Row.document ms = Dict.insertAll ((docs key).getD []) (Row.strings fs) := by
    have hkey := h key
    cases ht : text? rows name key with
    | none =>
      rw [ht] at hkey
      rw [hkey]
      exact ⟨fs, hfs, rfl, rfl⟩
    | some text =>
      rw [ht] at hkey
      obtain ⟨ms, hms, rfl, hdoc⟩ := hkey
      rw [hdoc]
      exact ⟨_, hms.setFields hfs.nulFree, Row.patchText?_text hms hfs.nulFree,
        Row.document_setFields hms hfs.nulFree⟩
  obtain ⟨ms, hms, hmerge, hdoc⟩ := hmerged
  refine ⟨setText rows name key (Row.text ms), ?_, fun other => ?_⟩
  · simp only [Database.upsert, Database.rows, bind, Except.bind, hmerge]
    rfl
  · rw [text?_setText, Holdings.upsert]
    by_cases hk : key = other
    · subst hk
      rw [if_pos rfl, Holdings.put_self]
      exact ⟨ms, hms, rfl, by rw [hdoc]⟩
    · rw [if_neg hk, Holdings.put_other _ hk]
      exact h other

theorem HoldsTexts.deleteIf (h : HoldsTexts rows name docs) {field : String}
    (hfield : Row.PlainName field) (key expected : String) :
    ∃ rows', (ready rows).deleteIf name key field (.str expected) =
        .ok (docs.hasText key field expected, .ready rows') ∧
      HoldsTexts rows' name (docs.deleteIf key field expected) := by
  have hkey := h key
  cases ht : text? rows name key with
  | none =>
    rw [ht] at hkey
    have hfalse : docs.hasText key field expected = false := by
      rw [Holdings.hasText, hkey]
      rfl
    refine ⟨rows, ?_, ?_⟩
    · simp only [Database.deleteIf, Database.rows, bind, Except.bind, ht, hfalse]
      rfl
    · rw [Holdings.deleteIf, hfalse]
      exact h
  | some text =>
    rw [ht] at hkey
    obtain ⟨ms, hms, rfl, hdoc⟩ := hkey
    have hequals : valueEquals? (Row.text ms) ("." ++ field) (.str expected) =
        some (docs.hasText key field expected) := by
      rw [Row.valueEquals?_text hms.nulFree hfield expected, Holdings.hasText, hdoc,
        Option.bind_some, Row.get?_document hms.distinct]
      cases Dict.get? ms field with
      | none => rfl
      | some value =>
        simp only [Option.map_some, Option.bind_some, Json.str?, Option.some.injEq]
        rfl
    by_cases hb : docs.hasText key field expected = true
    · rw [hb] at hequals
      refine ⟨eraseText rows name key, ?_, fun other => ?_⟩
      · simp only [Database.deleteIf, Database.rows, bind, Except.bind, ht, hequals, hb]
        rfl
      · rw [text?_eraseText, Holdings.deleteIf, if_pos hb]
        by_cases hk : key = other
        · subst hk
          rw [if_pos rfl]
          exact Holdings.put_self docs key none
        · rw [if_neg hk, Holdings.put_other _ hk]
          exact h other
    · rw [Bool.not_eq_true] at hb
      rw [hb] at hequals
      refine ⟨rows, ?_, ?_⟩
      · simp only [Database.deleteIf, Database.rows, bind, Except.bind, ht, hequals, hb]
        rfl
      · rw [Holdings.deleteIf, hb]
        exact h

inductive DeletesIf (db : Database) (name key field : String) (expected : Json) :
    Except Failure (Bool × Database) → Prop
  | gone {rows : TableRows} {text : String} (hdb : db = .ready rows)
    (htext : text? rows name key = some text)
    (hequals : valueEquals? text ("." ++ field) expected = some true) :
    DeletesIf db name key field expected (.ok (true, .ready (eraseText rows name key)))
  | kept {rows : TableRows} (hdb : db = .ready rows)
    (hother : ∀ text, text? rows name key = some text →
      valueEquals? text ("." ++ field) expected = some false) :
    DeletesIf db name key field expected (.ok (false, db))
  | failed (hbad : ∀ rows, db = .ready rows → ∃ text, text? rows name key = some text ∧
      valueEquals? text ("." ++ field) expected = none) :
    DeletesIf db name key field expected (.error (.tableDelete key))

theorem deletesIf (db : Database) (name key field : String) (expected : Json) :
    DeletesIf db name key field expected (db.deleteIf name key field expected) := by
  unfold deleteIf
  cases db with
  | ready rows =>
    simp only [Database.rows, bind, Except.bind]
    split
    · next htext => exact .kept rfl fun text h => absurd (htext.symm.trans h) nofun
    · next text htext =>
      split
      · next hequals => exact .gone rfl htext hequals
      · next hequals =>
        refine .kept rfl fun other h => ?_
        rwa [← Option.some.inj (htext.symm.trans h)]
      · next hequals =>
        refine .failed fun other h => ⟨text, ?_, hequals⟩
        cases h
        exact htext
  | _ => exact .failed nofun

end Database

/-! ### Documents of a file -/

namespace FileCollection

variable {c : FileCollection} {d : Disk} {mishap : Option WriteStep} {docs : Holdings}

theorem store_eq_ok {c' : FileCollection} {d' : Disk} {next : Dict Document}
    (h : c.store d mishap next = .ok (c', d')) :
    c' = ⟨c.path, next⟩ ∧ d.replace c.path (text next) mishap = .ok d' := by
  obtain ⟨written, hreplace, hstored⟩ := bind_eq_ok_iff.mp h
  cases hstored
  exact ⟨rfl, hreplace⟩

theorem kind_of_store {next : Dict Document} {e : Failure}
    (h : c.store d mishap next = .error e) : e.kind = .store := by
  rcases bind_eq_error_iff.mp h with hreplace | ⟨written, -, hstored⟩
  · exact Disk.kind_of_replace hreplace
  · cases hstored

theorem store_ok (h : d.Writable c.path) (next : Dict Document) :
    ∃ d', c.store d none next = .ok (⟨c.path, next⟩, d') ∧ d'.Writable c.path := by
  obtain ⟨d', hd⟩ := h (text next)
  refine ⟨d', ?_, Disk.writable_after_replace hd⟩
  simp only [store, hd, bind, Except.bind, pure, Except.pure]

theorem upsert_ok (h : d.Writable c.path) (hget : ∀ key, Dict.get? c.documents key = docs key)
    (key : String) (fs : Dict String) :
    ∃ c' d', c.upsert d none key (Row.strings fs) = .ok (c', d') ∧ d'.Writable c'.path ∧
      ∀ other, Dict.get? c'.documents other = docs.upsert key fs other := by
  have hdoc : c.find key = docs key := hget key
  let next := Dict.insert c.documents key (Dict.insertAll ((docs key).getD []) (Row.strings fs))
  obtain ⟨d', hstore, hwrite⟩ := store_ok h next
  refine ⟨⟨c.path, next⟩, d', ?_, hwrite, fun other => ?_⟩
  · rw [upsert, hdoc]
    exact hstore
  · change Dict.get? (Dict.insert c.documents key _) other = _
    rw [Dict.get?_insert, hget, Holdings.upsert, Holdings.put]

theorem deleteIf_ok (h : d.Writable c.path) (hget : ∀ key, Dict.get? c.documents key = docs key)
    (key field expected : String) :
    ∃ c' d', c.deleteIf d none key field (.str expected) =
        .ok (docs.hasText key field expected, c', d') ∧ d'.Writable c'.path ∧
      ∀ other, Dict.get? c'.documents other = docs.deleteIf key field expected other := by
  have hdoc : c.find key = docs key := hget key
  have hvalue : c.hasValue key field (.str expected) = docs.hasText key field expected := by
    rw [hasValue, hdoc, Holdings.hasText]
    cases (docs key).bind fun doc => Dict.get? doc field with
    | none => rfl
    | some value => cases value <;> rfl
  rw [deleteIf, hvalue, Holdings.deleteIf]
  cases docs.hasText key field expected with
  | true =>
    obtain ⟨d', hstore, hwrite⟩ := store_ok h (Dict.erase c.documents key)
    refine ⟨⟨c.path, Dict.erase c.documents key⟩, d', ?_, hwrite, fun other => ?_⟩
    · rw [if_pos rfl, hstore]
      rfl
    · rw [Dict.get?_erase, hget, if_pos rfl, Holdings.put]
  | false => exact ⟨c, d, rfl, h, hget⟩

end FileCollection

/-! ### The documents of a world -/

namespace World

/-- The collection in use holds these documents, and takes every write. -/
structure Holds (w : World) (docs : Holdings) : Prop where
  noFault : w.fault = none
  medium : match w.collection with
    | .file c => w.disk.Writable c.path ∧ ∀ key, Dict.get? c.documents key = docs key
    | .table name => ∃ rows, w.database = .ready rows ∧ Database.HoldsTexts rows name docs

def SameButMedium (w w' : World) : Prop :=
  w' = { w with collection := w'.collection, disk := w'.disk, database := w'.database }

variable {w : World} {docs : Holdings}

theorem Holds.find (h : w.Holds docs) (key : String) : w.find key = .ok (docs key) := by
  obtain ⟨-, hmedium⟩ := h
  rw [World.find]
  cases hc : w.collection with
  | file c =>
    rw [hc] at hmedium
    exact congrArg Except.ok (hmedium.2 key)
  | table name =>
    rw [hc] at hmedium
    obtain ⟨rows, hd, hrows⟩ := hmedium
    simp only [hd]
    exact hrows.find key

theorem Holds.upsert (h : w.Holds docs) {fs : Dict String} (hfs : Row.WellNamed fs)
    (key : String) : ∃ w', w.upsert key (Row.strings fs) = .ok w' ∧ w.SameButMedium w' ∧
      w'.Holds (docs.upsert key fs) := by
  obtain ⟨hnoFault, hmedium⟩ := h
  cases hc : w.collection with
  | file c =>
    rw [hc] at hmedium
    obtain ⟨c', d', hupsert, hheld⟩ := FileCollection.upsert_ok hmedium.1 hmedium.2 key fs
    refine ⟨w.withFile (c', d'), ?_, rfl, hnoFault, hheld⟩
    simp only [World.upsert, hc, hnoFault, hupsert, bind, Except.bind, pure, Except.pure]
  | table name =>
    rw [hc] at hmedium
    obtain ⟨rows, hd, hrows⟩ := hmedium
    obtain ⟨rows', hupsert, hrows'⟩ := hrows.upsert hfs key
    refine ⟨{ w with database := .ready rows' }, ?_, rfl, hnoFault, ?_⟩
    · simp only [World.upsert, hc, World.refuse, hnoFault, hd, hupsert, bind, Except.bind, pure,
        Except.pure, Option.isSome_none, Bool.false_eq_true, if_false]
    · simp only [hc]
      exact ⟨rows', rfl, hrows'⟩

theorem Holds.deleteIf (h : w.Holds docs) {field : String} (hfield : Row.PlainName field)
    (key expected : String) :
    ∃ w', w.deleteIf key field (.str expected) = .ok (docs.hasText key field expected, w') ∧
      w.SameButMedium w' ∧ w'.Holds (docs.deleteIf key field expected) := by
  obtain ⟨hnoFault, hmedium⟩ := h
  cases hc : w.collection with
  | file c =>
    rw [hc] at hmedium
    obtain ⟨c', d', hdelete, hheld⟩ :=
      FileCollection.deleteIf_ok hmedium.1 hmedium.2 key field expected
    refine ⟨w.withFile (c', d'), ?_, rfl, hnoFault, hheld⟩
    simp only [World.deleteIf, hc, hnoFault, hdelete, bind, Except.bind, pure, Except.pure]
  | table name =>
    rw [hc] at hmedium
    obtain ⟨rows, hd, hrows⟩ := hmedium
    obtain ⟨rows', hdelete, hrows'⟩ := hrows.deleteIf hfield key expected
    refine ⟨{ w with database := .ready rows' }, ?_, rfl, hnoFault, ?_⟩
    · simp only [World.deleteIf, hc, World.refuse, hnoFault, hd, hdelete, bind, Except.bind, pure,
        Except.pure, Option.isSome_none, Bool.false_eq_true, if_false]
    · simp only [hc]
      exact ⟨rows', rfl, hrows'⟩

/-! ### Changes that go through -/

/-- A change of the collection in use that went through: one of a file, or one of a table while
nothing kept the database from writing. -/
inductive Changed (w : World) (file : FileCollection → FileCollection × Disk → Prop)
    (table : String → Database → Prop) : World → Prop
  | file {c : FileCollection} {changed : FileCollection × Disk} (hc : w.collection = .file c)
    (h : file c changed) : Changed w file table (w.withFile changed)
  | table {name : String} {database : Database} (hc : w.collection = .table name)
    (hnoFault : w.fault = none) (h : table name database) :
    Changed w file table { w with database }

variable {w' : World} {key field : String} {fields : Document} {expected : Json} {removed : Bool}

theorem noFault_of_refuse {failure : Failure} {u : Unit} (h : w.refuse failure = .ok u) :
    w.fault = none := by
  unfold refuse at h
  cases hfault : w.fault with
  | none => rfl
  | some step => simp [hfault] at h

theorem changed_of_upsert (h : w.upsert key fields = .ok w') :
    w.Changed (fun c changed => c.upsert w.disk w.fault key fields = .ok changed)
      (fun name database => w.database.upsert name key fields = .ok database) w' := by
  unfold upsert at h
  split at h
  · next c hc =>
    obtain ⟨changed, hchanged, hdone⟩ := bind_eq_ok_iff.mp h
    cases hdone
    exact .file hc hchanged
  · next name hc =>
    obtain ⟨⟨⟩, hrefuse, hrest⟩ := bind_eq_ok_iff.mp h
    obtain ⟨database, hchanged, hdone⟩ := bind_eq_ok_iff.mp hrest
    cases hdone
    exact .table hc (noFault_of_refuse hrefuse) hchanged

theorem changed_of_delete (h : w.delete key = .ok w') :
    w.Changed (fun c changed => c.delete w.disk w.fault key = .ok changed)
      (fun name database => w.database.delete name key = .ok database) w' := by
  unfold delete at h
  split at h
  · next c hc =>
    obtain ⟨changed, hchanged, hdone⟩ := bind_eq_ok_iff.mp h
    cases hdone
    exact .file hc hchanged
  · next name hc =>
    obtain ⟨⟨⟩, hrefuse, hrest⟩ := bind_eq_ok_iff.mp h
    obtain ⟨database, hchanged, hdone⟩ := bind_eq_ok_iff.mp hrest
    cases hdone
    exact .table hc (noFault_of_refuse hrefuse) hchanged

theorem changed_of_deleteIf (h : w.deleteIf key field expected = .ok (removed, w')) :
    w.Changed
      (fun c changed => c.deleteIf w.disk w.fault key field expected = .ok (removed, changed))
      (fun name database => w.database.deleteIf name key field expected = .ok (removed, database))
      w' := by
  unfold deleteIf at h
  split at h
  · next c hc =>
    obtain ⟨changed, hchanged, hdone⟩ := bind_eq_ok_iff.mp h
    cases hdone
    exact .file hc hchanged
  · next name hc =>
    obtain ⟨⟨⟩, hrefuse, hrest⟩ := bind_eq_ok_iff.mp h
    obtain ⟨changed, hchanged, hdone⟩ := bind_eq_ok_iff.mp hrest
    cases hdone
    exact .table hc (noFault_of_refuse hrefuse) hchanged

theorem of_settle {P : World → Prop} {r : Except Failure World} (hfailed : P w)
    (hdone : ∀ w', r = .ok w' → P w') : P (w.settle r).2 := by
  cases r with
  | ok w' => exact hdone w' rfl
  | error e => exact hfailed

theorem of_settleWith {α : Type} {P : World → Prop} {r : Except Failure (α × World)}
    (hfailed : P w) (hdone : ∀ a w', r = .ok (a, w') → P w') : P (w.settleWith r).2 := by
  cases r with
  | ok changed => exact hdone changed.1 changed.2 rfl
  | error e => exact hfailed

end World
end TokenKeeper
