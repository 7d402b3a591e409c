import TokenKeeper.Proofs.Json.Merge
import TokenKeeper.Proofs.Store.Outcomes

/-!
# Upserts into documents of any fields

An upsert of texts merges them into the document of its key, which may have been anything before. No
field that was there goes away. A file sets every field that is given. A table takes a name for the
first of those in the row that are cut short to it by a NUL, and a reader of the row takes the last
one of the name, so a field is set where these are the same.
-/
namespace TokenKeeper

open Json.Spelling (NulFree readName)

namespace Row

variable {es : List (String × Json)} {fs : Dict String} {name other value : String}

/-- The first of the names that a database takes for this one is this one, and comes once. -/
def Unambiguous (name : String) : List String → Prop
  | [] => True
  | k :: rest =>
    if readName k = readName name then k = name ∧ name ∉ rest else Unambiguous name rest

theorem keys_setEntry_of_taken (h : ∃ k ∈ Dict.keys es, readName k = readName name) :
    Dict.keys (setEntry es name value) = Dict.keys es := by
  induction es with
  | nil =>
    obtain ⟨k, hk, -⟩ := h
    cases hk
  | cons e rest ih =>
    obtain ⟨k, v⟩ := e
    rw [setEntry]
    split
    · rfl
    · next hk =>
      obtain ⟨l, hl, hread⟩ := h
      rcases List.mem_cons.mp hl with rfl | hl
      · exact absurd hread hk
      · exact congrArg (k :: ·) (ih ⟨l, hl, hread⟩)

namespace Unambiguous

theorem once (h : Unambiguous name (Dict.keys es)) :
    es.Pairwise fun a b => b.1 = name → a.1 ≠ name := by
  induction es with
  | nil => exact .nil
  | cons e rest ih =>
    obtain ⟨k, v⟩ := e
    change if readName k = readName name then _ else _ at h
    split at h
    · obtain ⟨rfl, hnew⟩ := h
      have hne : ∀ b ∈ rest, b.1 ≠ k := fun b hb hbk => hnew (List.mem_map.mpr ⟨b, hb, hbk⟩)
      refine List.pairwise_cons.mpr ⟨fun b hb hbk => absurd hbk (hne b hb), ?_⟩
      exact List.pairwise_of_forall_mem_list fun _ _ b hb hbk => absurd hbk (hne b hb)
    · next hk => exact List.pairwise_cons.mpr ⟨fun _ _ _ he => hk (congrArg readName he), ih h⟩

theorem setEntry_self (h : Unambiguous name (Dict.keys es)) (value : String) :
    Unambiguous name (Dict.keys (setEntry es name value)) ∧
      Dict.get? (setEntry es name value) name = some (.str value) := by
  induction es with
  | nil => exact ⟨(if_pos rfl).mpr ⟨rfl, List.not_mem_nil⟩, if_pos rfl⟩
  | cons e rest ih =>
    obtain ⟨k, v⟩ := e
    change if readName k = readName name then _ else _ at h
    rw [setEntry]
    by_cases hk : readName k = readName name
    · rw [if_pos hk] at h ⊢
      exact ⟨(if_pos hk).mpr h, if_pos h.1⟩
    · rw [if_neg hk] at h ⊢
      obtain ⟨hrest, hget⟩ := ih h
      exact ⟨(if_neg hk).mpr hrest, (if_neg fun he => hk (congrArg readName he)).trans hget⟩

theorem setEntry_other (h : Unambiguous name (Dict.keys es))
    (hother : readName other ≠ readName name) (value : String) :
    Unambiguous name (Dict.keys (setEntry es other value)) ∧
      Dict.get? (setEntry es other value) name = Dict.get? es name := by
  have hne : other ≠ name := fun he => hother (congrArg readName he)
  induction es with
  | nil => exact ⟨(if_neg hother).mpr trivial, if_neg hne⟩
  | cons e rest ih =>
    obtain ⟨k, v⟩ := e
    change if readName k = readName name then _ else _ at h
    rw [setEntry]
    by_cases hk : readName k = readName other
    · rw [if_neg (hk ▸ hother)] at h
      have hkname : k ≠ name := fun he => hother (hk.symm.trans (congrArg readName he))
      rw [if_pos hk, Dict.get?, Dict.get?, if_neg hkname, if_neg hkname]
      exact ⟨(if_neg (hk ▸ hother)).mpr h, rfl⟩
    · rw [if_neg hk, Dict.get?, Dict.get?]
      by_cases hkname : readName k = readName name
      · rw [if_pos hkname] at h
        obtain ⟨rfl, hnew⟩ := h
        refine ⟨(if_pos rfl).mpr ⟨rfl, fun hmem => ?_⟩, by rw [if_pos rfl, if_pos rfl]⟩
        rcases keys_setEntry hmem with he | hmem
        · exact hne he.symm
        · exact hnew hmem
      · rw [if_neg hkname] at h
        obtain ⟨hrest, hget⟩ := ih h
        exact ⟨(if_neg hkname).mpr hrest, by rw [hget]⟩

theorem get?_setEntries (h : Unambiguous name (Dict.keys es)) (hname : NulFree name)
    (hfs : WellNamed fs) : Unambiguous name (Dict.keys (setEntries es fs)) ∧
      Dict.get? (setEntries es fs) name =
        ((Dict.get? fs name).map Json.str).or (Dict.get? es name) := by
  induction fs generalizing es with
  | nil => exact ⟨h, rfl⟩
  | cons f fs ih =>
    have hf : NulFree f.1 := hfs.nulFree f.1 List.mem_cons_self
    by_cases hk : f.1 = name
    · subst hk
      obtain ⟨hset, hget⟩ := h.setEntry_self f.2
      obtain ⟨hall, hrest⟩ := ih hset hfs.tail
      have hnew : Dict.get? fs f.1 = none :=
        Dict.get?_eq_none_of_notMem (List.nodup_cons.mp hfs.distinct).1
      refine ⟨hall, hrest.trans ?_⟩
      rw [hnew, hget, Dict.get?, if_pos rfl]
      rfl
    · have hother : readName f.1 ≠ readName name :=
        fun he => hk ((Json.Spelling.readName_inj hf hname).mp he)
      obtain ⟨hset, hget⟩ := h.setEntry_other hother f.2
      obtain ⟨hall, hrest⟩ := ih hset hfs.tail
      refine ⟨hall, hrest.trans ?_⟩
      rw [hget, Dict.get?, if_neg hk]

end Unambiguous

/-- A name that a longer one is cut short to is taken for the longer one, and is not set. -/
theorem notMem_keys_setEntries (hnot : name ∉ Dict.keys es)
    (hcut : ∃ k ∈ Dict.keys es, readName k = readName name) :
    name ∉ Dict.keys (setEntries es fs) := by
  induction fs generalizing es with
  | nil => exact hnot
  | cons f fs ih =>
    obtain ⟨k, hk, hread⟩ := hcut
    refine ih (fun hmem => ?_) ⟨k, mem_keys_setEntry hk f.1 f.2, hread⟩
    rcases keys_setEntry hmem with rfl | hmem
    · rw [keys_setEntry_of_taken ⟨k, hk, hread⟩] at hmem
      exact hnot hmem
    · exact hnot hmem

theorem get?_ofList_setEntries (h : Unambiguous name (Dict.keys es)) (hfs : WellNamed fs)
    (hvalue : Dict.get? fs name = some value) :
    Dict.get? (Dict.ofList (setEntries es fs)) name = some (.str value) := by
  obtain ⟨hafter, hget⟩ := h.get?_setEntries (hfs.nulFree name (Dict.mem_keys_of_get? hvalue)) hfs
  rw [Dict.get?_ofList_of_once hafter.once, hget, hvalue]
  rfl

end Row

/-- What becomes of the fields of a document into which others are merged. -/
structure Merged (before : Document) (fs : Dict String) (after : Document) : Prop where
  kept : ∀ name ∈ Dict.keys before, name ∈ Dict.keys after
  known : ∀ name ∈ Dict.keys after, name ∈ Dict.keys fs ∨ name ∈ Dict.keys before
  set : (∀ name ∈ Dict.keys before, NulFree name) → ∀ name ∈ Dict.keys fs, name ∈ Dict.keys after

theorem merged_insertAll (before : Document) (fs : Dict String) :
    Merged before fs (Dict.insertAll before (Row.strings fs)) := by
  have hkeys : ∀ name, name ∈ Dict.keys (Dict.insertAll before (Row.strings fs)) ↔
      name ∈ Dict.keys fs ∨ name ∈ Dict.keys before := by
    intro name
    rw [Dict.mem_keys_insertAll, Row.keys_strings]
  exact ⟨fun name h => (hkeys name).mpr (.inr h), fun name h => (hkeys name).mp h,
    fun _ name h => (hkeys name).mpr (.inl h)⟩

theorem get?_insertAll_strings {fs : Dict String} (hfs : (Dict.keys fs).Nodup)
    {name value : String} (hvalue : Dict.get? fs name = some value) (doc : Document) :
    Dict.get? (Dict.insertAll doc (Row.strings fs)) name = some (.str value) := by
  rw [Dict.get?_insertAll ((congrArg List.Nodup (Row.keys_strings fs)).mpr hfs), Row.strings,
    Dict.get?_map, hvalue]
  rfl

theorem merged_setEntries (es : List (String × Json)) {fs : Dict String}
    (hfs : ∀ name ∈ Dict.keys fs, NulFree name) :
    Merged (Dict.ofList es) fs (Dict.ofList (Row.setEntries es fs)) where
  kept name h := by
    rw [Dict.mem_keys_ofList] at h ⊢
    exact Row.mem_keys_setEntries h
  known name h := by
    rw [Dict.mem_keys_ofList] at h ⊢
    exact Row.keys_setEntries h
  set hes name h := by
    simp only [Dict.mem_keys_ofList] at hes ⊢
    exact Row.set_mem_keys_setEntries hes hfs h

/-! ### Rows -/

namespace Database

variable {rows : TableRows} {name key : String} {before : Option Document} {fs : Dict String}

/-- The row of a key that can be read: none, or the text of a document. -/
inductive FoundRow (rows : TableRows) (name key : String) : Option Document → Prop
  | absent (h : text? rows name key = none) : FoundRow rows name key none
  | present {text : String} {es : List (String × Json)} (h : text? rows name key = some text)
    (hread : Row.read? text = some es) : FoundRow rows name key (some (Dict.ofList es))

theorem foundRow_iff : FoundRow rows name key before ↔ (ready rows).find name key = .ok before := by
  simp only [Database.find, Database.rows, bind, Except.bind]
  constructor
  · rintro (h | ⟨h, hread⟩)
    · rw [h]
      rfl
    · simp only [h, Row.documentOfText?_iff.mpr ⟨_, hread, rfl⟩]
      rfl
  · intro hfind
    cases h : text? rows name key with
    | none =>
      rw [h] at hfind
      cases hfind
      exact .absent h
    | some text =>
      simp only [h] at hfind
      cases hdoc : Json.documentOfText? text with
      | none =>
        rw [hdoc] at hfind
        cases hfind
      | some doc =>
        rw [hdoc] at hfind
        cases hfind
        obtain ⟨es, hread, rfl⟩ := Row.documentOfText?_iff.mp hdoc
        exact .present h hread

/-- The names of a row are told apart by the database, if it can be read. -/
def TellsApart (rows : TableRows) (name key : String) : Prop :=
  ∀ text es, text? rows name key = some text → Row.read? text = some es → Row.DistinctNulFree es

/-- A row can be read, and a table takes each of these names for the one field that has it, if
there is one. -/
def SetsFields (rows : TableRows) (name key : String) (fields : List String) : Prop :=
  ∀ text, text? rows name key = some text → ∃ es, Row.read? text = some es ∧
    ∀ field ∈ fields, Row.Unambiguous field (Dict.keys es)

theorem find_of_upserted {db : Database} {text : String}
    (hmerged : merged? (text? rows name key) (Row.strings fs) = some text)
    (h : (ready rows).upsert name key (Row.strings fs) = .ok db) {es : List (String × Json)}
    (hread : Row.read? text = some es) : db.find name key = .ok (some (Dict.ofList es)) := by
  simp only [Database.upsert, Database.rows, bind, Except.bind, hmerged] at h
  cases h
  exact foundRow_iff.mp (.present ((text?_setText ..).trans (if_pos rfl)) hread)

theorem find_of_upsert_present {db : Database} {text : String} {es : List (String × Json)}
    (htext : text? rows name key = some text) (hread : Row.read? text = some es)
    (h : (ready rows).upsert name key (Row.strings fs) = .ok db) :
    db.find name key = .ok (some (Dict.ofList (Row.setEntries es fs))) := by
  obtain ⟨patched, hpatched, hreread⟩ := Row.read?_patched hread fs
  refine find_of_upserted ?_ h hreread
  rw [htext]
  exact hpatched

theorem find_of_upsert {db : Database} (hfs : Row.WellNamed fs)
    (hfound : FoundRow rows name key before)
    (h : (ready rows).upsert name key (Row.strings fs) = .ok db) :
    ∃ after, db.find name key = .ok (some after) ∧ Merged (before.getD []) fs after ∧
      (TellsApart rows name key → after = Dict.insertAll (before.getD []) (Row.strings fs)) ∧
      ∀ fields, SetsFields rows name key fields → ∀ field ∈ fields, ∀ value,
        Dict.get? fs field = some value → Dict.get? after field = some (.str value) := by
  cases hfound with
  | absent habsent =>
    -- The row is the text of the fields themselves.
    have hmerged : merged? (text? rows name key) (Row.strings fs) = some (Row.text fs) := by
      rw [habsent]
      rfl
    exact ⟨_, find_of_upserted hmerged h (Row.read?_text fs), merged_insertAll [] fs, fun _ => rfl,
      fun _ _ _ _ _ hvalue => get?_insertAll_strings hfs.distinct hvalue []⟩
  | present htext hread =>
    refine ⟨_, find_of_upsert_present htext hread h, merged_setEntries _ hfs.nulFree,
      fun hapart => (hapart _ _ htext hread).ofList_setEntries hfs.nulFree,
      fun fields hsets field hfield value hvalue => ?_⟩
    obtain ⟨es, hes, hnames⟩ := hsets _ htext
    cases hread.symm.trans hes
    exact Row.get?_ofList_setEntries (hnames field hfield) hfs hvalue

end Database

namespace World

variable {w w' : World} {key : String} {before : Option Document} {fs : Dict String}

def TellsApart (w : World) (key : String) : Prop :=
  match w.collection, w.database with
  | .table name, .ready rows => Database.TellsApart rows name key
  | _, _ => True

/-- Upserts set fields of these names. In a file they always do. -/
def SetsFields (w : World) (key : String) (fields : List String) : Prop :=
  match w.collection, w.database with
  | .table name, .ready rows => Database.SetsFields rows name key fields
  | _, _ => True

theorem find_of_upsert (hfs : Row.WellNamed fs)
    (hfind : w.find key = .ok before) (h : w.upsert key (Row.strings fs) = .ok w') :
    ∃ after, w'.find key = .ok (some after) ∧ Merged (before.getD []) fs after ∧
      (w.TellsApart key → after = Dict.insertAll (before.getD []) (Row.strings fs)) ∧
      ∀ fields, w.SetsFields key fields → ∀ field ∈ fields, ∀ value,
        Dict.get? fs field = some value → Dict.get? after field = some (.str value) := by
  unfold TellsApart SetsFields
  cases changed_of_upsert h with
  | @file c changed hc hupsert =>
    obtain ⟨c', d⟩ := changed
    obtain ⟨rfl, -⟩ := FileCollection.store_eq_ok hupsert
    rw [World.find, hc] at hfind
    cases hfind
    refine ⟨_, ?_, merged_insertAll _ fs, fun _ => rfl,
      fun _ _ _ _ _ hvalue => get?_insertAll_strings hfs.distinct hvalue _⟩
    simp only [World.find, withFile, FileCollection.find, Dict.get?_insert, if_pos]
  | @table name database hc hnoFault hupsert =>
    rw [World.find, hc] at hfind
    obtain ⟨rows, -, hd, -⟩ := upserted_row hupsert
    rw [hd] at hfind hupsert
    rw [hc, hd]
    obtain ⟨after, hafter, hmerged, hsame⟩ :=
      Database.find_of_upsert hfs (Database.foundRow_iff.mpr hfind) hupsert
    exact ⟨after, by simpa only [World.find, hc] using hafter, hmerged, hsame⟩

theorem SetsFields.exists_find {fields : List String} (h : w.SetsFields key fields)
    (hupsert : w.Upserted key w') : ∃ before, w.find key = .ok before := by
  unfold SetsFields at h
  unfold World.find
  cases hupsert with
  | @file c doc d hc => exact ⟨c.find key, by rw [hc]⟩
  | @row name text rows hc hd =>
    simp only [hc, hd] at h ⊢
    cases htext : Database.text? rows name key with
    | none => exact ⟨none, Database.foundRow_iff.mp (.absent htext)⟩
    | some text =>
      obtain ⟨es, hes, -⟩ := h text htext
      exact ⟨_, Database.foundRow_iff.mp (.present htext hes)⟩

theorem perform_upsert_row {name text : String} {rows : TableRows} {es : List (String × Json)}
    (hnoFault : w.fault = none) (hc : w.collection = .table name) (hd : w.database = .ready rows)
    (htext : Database.text? rows name key = some text) (hread : Row.read? text = some es)
    (fs : Dict String) : ∃ w', perform (.upsert key (Row.strings fs)) w = (.ok (), w') ∧
      w'.find key = .ok (some (Dict.ofList (Row.setEntries es fs))) := by
  obtain ⟨patched, hpatched, -⟩ := Row.read?_patched hread fs
  have hmerged : Database.merged? (Database.text? rows name key) (Row.strings fs) =
      some patched := by
    rw [htext]
    exact hpatched
  have hupsert : (Database.ready rows).upsert name key (Row.strings fs) =
      .ok (.ready (Database.setText rows name key patched)) := by
    simp only [Database.upsert, Database.rows, bind, Except.bind, hmerged]
    rfl
  refine ⟨{ w with database := .ready (Database.setText rows name key patched) }, ?_, ?_⟩
  · simp only [perform, World.upsert, hc, hd, hupsert, refuse, hnoFault]
    rfl
  · rw [World.find, hc]
    exact Database.find_of_upsert_present htext hread hupsert

theorem exists_found_of_perform {fields : List String} (h : w.SetsFields key fields)
    (hfs : Row.WellNamed fs) (hupsert : perform (.upsert key (Row.strings fs)) w = (.ok (), w')) :
    ∃ doc, w'.find key = .ok (some doc) ∧ ∀ field ∈ fields, ∀ value,
      Dict.get? fs field = some value → Dict.get? doc field = some (.str value) := by
  have hsettle : w.settle (w.upsert key (Row.strings fs)) = (.ok (), w') := hupsert
  cases hresult : w.upsert key (Row.strings fs) with
  | error e =>
    rw [hresult] at hsettle
    cases hsettle
  | ok v =>
    rw [hresult] at hsettle
    cases hsettle
    obtain ⟨before, hfind⟩ := h.exists_find (upserted_of_upsert hresult).2
    obtain ⟨doc, hdoc, -, -, hset⟩ := find_of_upsert hfs hfind hresult
    exact ⟨doc, hdoc, hset fields h⟩

theorem Contains.tellsApart {docs : Holdings} (h : w.Contains docs) (key : String) :
    w.TellsApart key := by
  unfold Contains at h
  unfold TellsApart
  split
  · next name rows hc hd =>
    rw [hc] at h
    intro text es htext hread
    have hkey := h rows hd key
    rw [htext] at hkey
    obtain ⟨ms, hms, rfl, -⟩ := hkey
    rw [Row.read?_text] at hread
    cases hread
    exact ⟨(congrArg List.Nodup (Row.keys_strings ms)).mpr hms.distinct, fun name hname =>
      hms.nulFree name (Row.keys_strings ms ▸ hname)⟩
  · trivial

end World

end TokenKeeper
