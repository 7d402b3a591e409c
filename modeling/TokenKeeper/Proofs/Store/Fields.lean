import TokenKeeper.Proofs.Json.Merged
import TokenKeeper.Proofs.Store.Cells

/-!
# Fields that upserts set

An upsert sets the fields it is given and leaves the others alone. A file does so for all fields. A
table takes a first document as it is, but merges fields into a document that is there, so that it
sets them only where a merge does no more than that. As long as it does, a file and a table that
hold the same documents answer the same.
-/
namespace TokenKeeper

variable {w v : World} {docs : Holdings} {key : String} {fields : Document}

namespace Cell

def left (found : Option Document) (fields : Document) : Cell → Document
  | .document _ => Dict.insertAll (found.getD []) fields
  | .row _ =>
    match found with
    | none => fields
    | some doc => Json.mergedMembers doc fields

def IsRow : Cell → Prop
  | .document _ => False
  | .row _ => True

def UniqueNames : Cell → Prop
  | .row (some text) => Row.UniqueNames text
  | _ => True

variable {cell : Cell} {found : Option Document}

theorem upsert_left (hfind : cell.find key = .ok found) (hunique : cell.UniqueNames)
    (hfields : cell.IsRow → Row.Keeps fields) :
    (cell.upsert key fields).1 = .ok () ∧ (cell.upsert key fields).2.UniqueNames ∧
      (cell.upsert key fields).2.find key = .ok (some (cell.left found fields)) := by
  cases cell with
  | document doc =>
    cases hfind
    exact ⟨rfl, trivial, rfl⟩
  | row stored =>
    have hkeeps := hfields trivial
    cases stored with
    | none =>
      cases hfind
      refine ⟨rfl, hkeeps.uniqueNames, ?_⟩
      simp only [upsert, Database.merged?, find, hkeeps.reads, left]
    | some text =>
      simp only [find] at hfind
      split at hfind
      · next doc hdoc =>
        cases hfind
        obtain ⟨text', hpatched, hunique', hdoc'⟩ := Row.UniqueNames.patched hunique hdoc hkeeps
        have hupsert : (row (some text)).upsert key fields = (.ok (), .row (some text')) := by
          simp only [upsert, Database.merged?, hpatched]
        rw [hupsert]
        refine ⟨rfl, hunique', ?_⟩
        simp only [find, hdoc', left]
      · cases hfind

theorem left_some (h : cell.IsRow) (doc fields : Document) :
    cell.left (some doc) fields = Json.mergedMembers doc fields := by
  cases cell with
  | document found => cases h
  | row stored => rfl

theorem left_sets_iff (hfields : Dict.Ordered fields) :
    (∀ name, Dict.get? (cell.left found fields) name =
        (Dict.get? fields name).or (Dict.get? (found.getD []) name)) ↔
      (cell.IsRow → ∀ doc, found = some doc → Json.Sets doc fields) := by
  have hnodup := hfields.nodup_keys
  cases cell with
  | document doc =>
    refine iff_of_true (fun name => ?_) nofun
    rw [left, Dict.get?_insertAll hnodup]
  | row stored =>
    cases found with
    | none =>
      refine iff_of_true (fun name => ?_) nofun
      rw [left, Option.getD_none, Dict.get?_nil, Option.or_none]
    | some doc =>
      simp only [left, Option.getD_some, ← Json.sets_iff hnodup, IsRow, forall_const,
        Option.some.injEq, forall_eq']

theorem left_of_sets (hfields : cell.IsRow → Row.Keeps fields)
    (hsets : cell.IsRow → ∀ doc, found = some doc → Dict.Ordered doc ∧ Json.Sets doc fields) :
    cell.left found fields = Dict.insertAll (found.getD []) fields := by
  cases cell with
  | document doc => rfl
  | row stored =>
    have hordered := (hfields trivial).ordered
    cases found with
    | none => exact hordered.ofList_eq.symm
    | some doc =>
      obtain ⟨hdoc, hset⟩ := hsets trivial doc rfl
      exact Json.mergedMembers_of_sets hdoc hordered.nodup_keys hset

theorem isRow_upsert (cell : Cell) (key : String) (fields : Document) :
    (cell.upsert key fields).2.IsRow ↔ cell.IsRow := by
  cases cell with
  | document doc => exact Iff.rfl
  | row stored =>
    rw [upsert]
    cases Database.merged? stored fields <;> exact Iff.rfl

theorem ordered_of_find (hrow : cell.IsRow) {doc : Document}
    (hfind : cell.find key = .ok (some doc)) : Dict.Ordered doc := by
  cases cell with
  | document doc => cases hrow
  | row stored =>
    cases stored with
    | none => cases hfind
    | some text =>
      simp only [find] at hfind
      split at hfind
      · next hdoc =>
        cases hfind
        exact Row.ordered_of_documentOfText? hdoc
      · cases hfind

end Cell

/-! ### One upsert -/

namespace World

/-- The collection in use takes every write and holds these documents; in the rows of a table, all
names are told apart. -/
structure Shows (w : World) (docs : Holdings) : Prop where
  ready : w.Ready
  found : ∀ key, w.find key = .ok (docs key)
  uniqueNames : ∀ key, (w.cell key).UniqueNames

def InTable (w : World) : Prop := ∃ name, w.collection = .table name

theorem isRow_cell : (w.cell key).IsRow ↔ w.InTable := by
  unfold World.cell InTable
  cases w.collection with
  | file c => exact iff_of_false id fun ⟨_, hname⟩ => nomatch hname
  | table name => exact iff_of_true trivial ⟨name, rfl⟩

theorem Shows.cell_find (h : w.Shows docs) (key : String) :
    (w.cell key).find key = .ok (docs key) := by
  rw [← h.ready.find, h.found]

theorem Shows.upsert (h : w.Shows docs) (key : String)
    (hfields : (w.cell key).IsRow → Row.Keeps fields) :
    ∃ w', perform (.upsert key fields) w = (.ok (), w') ∧ w.Edited key w' ∧
      (w'.InTable ↔ w.InTable) ∧
      w'.Shows (docs.put key (some ((w.cell key).left (docs key) fields))) := by
  obtain ⟨hdone, hunique, hleft⟩ := Cell.upsert_left (h.cell_find key) (h.uniqueNames key) hfields
  obtain ⟨w', hperform, hedited, hafter⟩ := h.ready.upsert key fields
  rw [hdone] at hperform
  refine ⟨w', hperform, hedited, ?_, hedited.ready, fun other => ?_, fun other => ?_⟩
  · rw [← @isRow_cell w' key, hafter, Cell.isRow_upsert, isRow_cell]
  · by_cases hother : key = other
    · subst hother
      rw [Holdings.put_self, hedited.ready.find, hafter, hleft]
    · rw [Holdings.put_other _ hother, hedited.find h.ready (Ne.symm hother), h.found]
  · by_cases hother : key = other
    · subst hother
      rw [hafter]
      exact hunique
    · rw [hedited.others other (Ne.symm hother)]
      exact h.uniqueNames other

end World

/-! ### Finding and setting -/

def Holdings.set (docs : Holdings) (key : String) (fields : Document) : Holdings :=
  docs.put key (some (Dict.insertAll ((docs key).getD []) fields))

inductive Query
  | find (key : String)
  | upsert (key : String) (fields : Document)

namespace Query

inductive Answer
  | found (result : Except Failure (Option Document))
  | done (result : Except Failure Unit)

def perform : Query → World → Answer × World
  | .find key, w =>
    let (result, w) := World.perform (.find key) w
    (.found result, w)
  | .upsert key fields, w =>
    let (result, w) := World.perform (.upsert key fields) w
    (.done result, w)

def performAll : List Query → World → List Answer × World
  | [], w => ([], w)
  | q :: rest, w =>
    let (answer, w) := q.perform w
    let (answers, w) := performAll rest w
    (answer :: answers, w)

def answer : Query → Holdings → Answer
  | .find key, docs => .found (.ok (docs key))
  | .upsert _ _, _ => .done (.ok ())

def after : Query → Holdings → Holdings
  | .find _, docs => docs
  | .upsert key fields, docs => docs.set key fields

def answers : List Query → Holdings → List Answer
  | [], _ => []
  | q :: rest, docs => q.answer docs :: answers rest (q.after docs)

def afterAll (queries : List Query) (docs : Holdings) : Holdings :=
  queries.foldl (fun docs q => q.after docs) docs

/-- A table can keep the fields, and to merge them is to set them. -/
def Sets : Query → Holdings → Prop
  | .find _, _ => True
  | .upsert key fields, docs =>
    Row.Keeps fields ∧ ∀ doc, docs key = some doc → Json.Sets doc fields

def AllSet : List Query → Holdings → Prop
  | [], _ => True
  | q :: rest, docs => q.Sets docs ∧ AllSet rest (q.after docs)

theorem perform_find (key : String) (w : World) :
    (find key).perform w = (.found (w.find key), w) := rfl

theorem perform_upsert {result : Except Failure Unit} {w' : World}
    (h : World.perform (.upsert key fields) w = (result, w')) :
    (upsert key fields).perform w = (.done result, w') := by
  rw [perform, h]

theorem perform_shows (h : w.Shows docs) (q : Query) (hq : w.InTable → q.Sets docs) :
    ∃ w', q.perform w = (q.answer docs, w') ∧ w'.Shows (q.after docs) ∧
      (w'.InTable ↔ w.InTable) := by
  cases q with
  | find key => exact ⟨w, by rw [perform_find, h.found]; rfl, h, Iff.rfl⟩
  | upsert key fields =>
    have hsets := fun hrow : (w.cell key).IsRow => hq (World.isRow_cell.mp hrow)
    obtain ⟨w', hperform, -, htable, hshows⟩ := h.upsert key fun hrow => (hsets hrow).1
    have hleft : (w.cell key).left (docs key) fields =
        Dict.insertAll ((docs key).getD []) fields := by
      refine Cell.left_of_sets (fun hrow => (hsets hrow).1) fun hrow doc hdoc => ?_
      exact ⟨Cell.ordered_of_find hrow (hdoc ▸ h.cell_find key), (hsets hrow).2 doc hdoc⟩
    rw [hleft] at hshows
    exact ⟨w', perform_upsert hperform, hshows, htable⟩

theorem performAll_shows (h : w.Shows docs) (queries : List Query)
    (hq : w.InTable → AllSet queries docs) :
    ∃ w', performAll queries w = (answers queries docs, w') ∧ w'.Shows (afterAll queries docs) ∧
      (w'.InTable ↔ w.InTable) := by
  induction queries generalizing w docs with
  | nil => exact ⟨w, rfl, h, Iff.rfl⟩
  | cons q rest ih =>
    obtain ⟨w₁, hperform, hshows, htable⟩ := perform_shows h q fun hw => (hq hw).1
    obtain ⟨w₂, hrest, hshows', htable'⟩ := ih hshows fun hw => (hq (htable.mp hw)).2
    refine ⟨w₂, ?_, hshows', htable'.trans htable⟩
    simp only [performAll, hperform, hrest, answers]

end Query

/-- What a collection answers to finds and upserts as long as all of them set fields, and exactly
when the next upsert does so: always in a file, and in a table where a merge of the fields into the
document that is there does nothing but set them. -/
theorem World.upsert_sets_iff (hw : w.Shows docs) (queries : List Query)
    (hqueries : w.InTable → Query.AllSet queries docs) (hordered : Dict.Ordered fields)
    (hfields : w.InTable → Row.Keeps fields) (key : String) :
    ∃ v w' doc, Query.performAll queries w = (Query.answers queries docs, v) ∧
      (∀ k, v.find k = .ok (Query.afterAll queries docs k)) ∧
      perform (.upsert key fields) v = (.ok (), w') ∧ w'.find key = .ok (some doc) ∧
      (∀ other, other ≠ key → w'.find other = v.find other) ∧
      ((∀ name, Dict.get? doc name = (Dict.get? fields name).or
          (Dict.get? ((Query.afterAll queries docs key).getD []) name)) ↔
        (w.InTable → ∀ stored, Query.afterAll queries docs key = some stored →
          Json.Sets stored fields)) := by
  obtain ⟨v, hrun, hv, htable⟩ := Query.performAll_shows hw queries hqueries
  have hrow : (v.cell key).IsRow ↔ w.InTable := isRow_cell.trans htable
  obtain ⟨w', hperform, hedited, -, hw'⟩ := hv.upsert key fun h => hfields (hrow.mp h)
  refine ⟨v, w', (v.cell key).left (Query.afterAll queries docs key) fields, hrun, hv.found,
    hperform, ?_, fun _ => hedited.find hv.ready, ?_⟩
  · rw [hw'.found, Holdings.put_self]
  · rw [Cell.left_sets_iff hordered, hrow]

/-! ### An empty table and an empty file -/

namespace NullField

def table : World := World.isolated .epoch .empty

def file : World := { World.isolated .epoch .empty with collection := .file ⟨"tokens.json", []⟩ }

theorem table_shows : table.Shows fun _ => none :=
  ⟨⟨rfl, ⟨_, rfl⟩⟩, fun _ => rfl, fun _ => trivial⟩

theorem file_shows : file.Shows fun _ => none :=
  ⟨⟨rfl, fun _ => ⟨_, rfl⟩⟩, fun _ => rfl, fun _ => trivial⟩

def first : Document := [("a", .null), ("b", .arr [.null]), ("o", .obj [("x", .int 1)])]

def second : Document := [("a", .int 1), ("o", .obj [("x", .bool true), ("y", .str "?")])]

theorem keeps_first : Row.Keeps first :=
  ⟨Row.documentOfText?_compact rfl,
    by simp [first, Json.MembersFree, Json.NamesFree, Json.Spelling.NulFree]⟩

theorem keeps_second : Row.Keeps second :=
  ⟨Row.documentOfText?_compact rfl,
    by simp [second, Json.MembersFree, Json.NamesFree, Json.Spelling.NulFree]⟩

theorem sets_second : Json.Sets first second :=
  List.forall_mem_cons.mpr ⟨⟨nofun, rfl⟩,
    List.forall_mem_cons.mpr ⟨⟨nofun, rfl⟩, List.forall_mem_nil _⟩⟩

def queries : List Query := [.upsert "u1" first, .find "u1"]

theorem table_sets :
    table.Shows (fun _ => none) ∧ Query.AllSet queries (fun _ => none) ∧ Row.Keeps second ∧
    ∃ v w' doc,
      Query.performAll queries table = ([.done (.ok ()), .found (.ok (some first))], v) ∧
      World.perform (.upsert "u1" second) v = (.ok (), w') ∧ w'.find "u1" = .ok (some doc) ∧
      ∀ name, Dict.get? doc name = (Dict.get? second name).or (Dict.get? first name) := by
  have hsets : Query.AllSet queries fun _ => none := ⟨⟨keeps_first, nofun⟩, trivial, trivial⟩
  have hfirst : Query.afterAll queries (fun _ => none) "u1" = some first := rfl
  obtain ⟨v, w', doc, hrun, -, hperform, hfind, -, hiff⟩ :=
    World.upsert_sets_iff table_shows queries (fun _ => hsets) keeps_second.ordered
      (fun _ => keeps_second) "u1"
  refine ⟨table_shows, hsets, keeps_second, v, w', doc, hrun, hperform, hfind, ?_⟩
  refine hiff.mpr fun _ stored hstored => ?_
  rw [hfirst] at hstored
  cases hstored
  exact sets_second

def one : Document := [("a", .int 1)]

def null : Document := [("a", .null)]

theorem keeps_one : Row.Keeps one :=
  ⟨Row.documentOfText?_compact rfl,
    by simp [one, Json.MembersFree, Json.NamesFree, Json.Spelling.NulFree]⟩

theorem keeps_null : Row.Keeps null :=
  ⟨Row.documentOfText?_compact rfl,
    by simp [null, Json.MembersFree, Json.NamesFree, Json.Spelling.NulFree]⟩

/-- An upsert of null sets a field to null in a file, and takes it away in a table. -/
theorem null_sets_or_removes :
    (∃ w, Query.performAll [.upsert "u1" one, .upsert "u1" null, .find "u1"] file =
      ([.done (.ok ()), .done (.ok ()), .found (.ok (some [("a", .null)]))], w)) ∧
    ∃ w, Query.performAll [.upsert "u1" one, .upsert "u1" null, .find "u1"] table =
      ([.done (.ok ()), .done (.ok ()), .found (.ok (some []))], w) := by
  constructor
  · obtain ⟨w, hrun, -⟩ := Query.performAll_shows file_shows
      [.upsert "u1" one, .upsert "u1" null, .find "u1"] fun ⟨_, hname⟩ => nomatch hname
    exact ⟨w, hrun⟩
  · obtain ⟨w₁, hone, -, htable, hshows⟩ := table_shows.upsert "u1" fun _ => keeps_one
    obtain ⟨w₂, hnull, -, -, hshows'⟩ := hshows.upsert "u1" fun _ => keeps_null
    have hrow : (w₁.cell "u1").IsRow := World.isRow_cell.mpr (htable.mpr ⟨_, rfl⟩)
    have hfind : w₂.find "u1" = .ok (some []) := by
      rw [hshows'.found, Holdings.put_self, Holdings.put_self, Cell.left_some hrow]
      rfl
    refine ⟨w₂, ?_⟩
    simp only [Query.performAll, Query.perform_upsert hone, Query.perform_upsert hnull,
      Query.perform_find, hfind]

end NullField

end TokenKeeper
