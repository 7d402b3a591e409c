import TokenKeeper.Proofs.Client.Backends

/-!
# What belongs to one key

The keys of a store share a file that is written as a whole, or a table, and a dictionary in memory.
A step for one key still depends on that key's own document or row and its own entry alone, whatever
these are, and it changes no others. A table is shared further, by collections of other names; their
rows stay as well.
-/
namespace TokenKeeper

/-- What a collection keeps under a key, in the form in which it keeps it. -/
inductive Cell
  | document (doc : Option Document)
  | row (text : Option String)

namespace Cell

def find (key : String) : Cell → Except Failure (Option Document)
  | .document doc => .ok doc
  | .row none => .ok none
  | .row (some text) =>
    match Json.documentOfText? text with
    | some doc => .ok (some doc)
    | none => .error (.tableParse key)

def upsert (key : String) (fields : Document) : Cell → Except Failure Unit × Cell
  | .document doc => (.ok (), .document (some (Dict.insertAll (doc.getD []) fields)))
  | .row stored =>
    match Database.merged? stored fields with
    | some text => (.ok (), .row (some text))
    | none => (.error (.tableUpsert key), .row stored)

def deleteIf (key field : String) (expected : Json) : Cell → Except Failure Bool × Cell
  | .document doc =>
    match doc.bind fun doc => Dict.get? doc field with
    | some value =>
      if value.same expected then (.ok true, .document none) else (.ok false, .document doc)
    | none => (.ok false, .document doc)
  | .row none => (.ok false, .row none)
  | .row (some text) =>
    match Database.valueEquals? text ("." ++ field) expected with
    | some true => (.ok true, .row none)
    | some false => (.ok false, .row (some text))
    | none => (.error (.tableDelete key), .row (some text))

theorem deleteIf_document (c : FileCollection) (key field : String) (expected : Json) :
    deleteIf key field expected (.document (c.find key)) =
      if c.hasValue key field expected then (.ok true, .document none)
      else (.ok false, .document (c.find key)) := by
  rw [deleteIf, FileCollection.hasValue]
  cases (c.find key).bind fun doc => Dict.get? doc field <;> rfl

end Cell

namespace Database

theorem text?_setText_elsewhere (rows : TableRows) {name other : String} (h : name ≠ other)
    (key text k : String) : text? (setText rows name key text) other k = text? rows other k := by
  rw [text?, setText, Dict.get?_insert, if_neg h, text?]

theorem text?_eraseText_elsewhere (rows : TableRows) {name other : String} (h : name ≠ other)
    (key k : String) : text? (eraseText rows name key) other k = text? rows other k := by
  rw [text?, eraseText, Dict.get?_insert, if_neg h, text?]

end Database

namespace World

def rows (w : World) : TableRows :=
  match w.database with
  | .ready rows => rows
  | _ => []

def cell (w : World) (key : String) : Cell :=
  match w.collection with
  | .file c => .document (c.find key)
  | .table name => .row (Database.text? w.rows name key)

structure Ready (w : World) : Prop where
  noFault : w.fault = none
  medium : match w.collection with
    | .file c => w.disk.Writable c.path
    | .table _ => ∃ rows, w.database = .ready rows

structure Edited (key : String) (w w' : World) : Prop where
  same : w.SameButMedium w'
  ready : w'.Ready
  others : ∀ other, other ≠ key → w'.cell other = w.cell other
  table : ∀ name, w.collection = .table name → w'.collection = .table name
  rows : ∀ name, w.collection ≠ .table name →
    ∀ k, Database.text? w'.rows name k = Database.text? w.rows name k

variable {w : World} {key : String}

theorem Ready.edited (h : w.Ready) (key : String) : w.Edited key w :=
  ⟨.refl w, h, fun _ _ => rfl, fun _ hc => hc, fun _ _ _ => rfl⟩

/-! ### Steps on documents -/

section File

variable {c : FileCollection}

theorem cell_file (hc : w.collection = .file c) (key : String) :
    w.cell key = .document (c.find key) := by
  rw [cell, hc]

theorem Ready.store (h : w.Ready) (hc : w.collection = .file c) {next : Dict Document}
    (hnext : ∀ other, other ≠ key → Dict.get? next other = Dict.get? c.documents other) :
    ∃ d, c.store w.disk w.fault next = .ok (⟨c.path, next⟩, d) ∧
      w.Edited key (w.withFile (⟨c.path, next⟩, d)) := by
  obtain ⟨hnoFault, hmedium⟩ := h
  rw [hc] at hmedium
  obtain ⟨d, hstore, hwritable⟩ := FileCollection.store_ok hmedium next
  refine ⟨d, by rw [hnoFault]; exact hstore, ?_⟩
  constructor
  case same => rfl
  case ready => exact ⟨hnoFault, hwritable⟩
  case others =>
    intro other hother
    rw [cell_file hc]
    exact congrArg Cell.document (hnext other hother)
  case table =>
    intro name hname
    rw [hc] at hname
    cases hname
  case rows => exact fun _ _ _ => rfl

theorem Ready.upsert_file (h : w.Ready) (hc : w.collection = .file c) (key : String)
    (fields : Document) : ∃ w', perform (.upsert key fields) w =
        (((w.cell key).upsert key fields).1, w') ∧
      w.Edited key w' ∧ w'.cell key = ((w.cell key).upsert key fields).2 := by
  let doc := Dict.insertAll ((c.find key).getD []) fields
  have hnext : ∀ other, other ≠ key →
      Dict.get? (Dict.insert c.documents key doc) other = Dict.get? c.documents other :=
    fun other hother => (Dict.get?_insert c.documents key doc other).trans (if_neg hother.symm)
  obtain ⟨d, hstore, hedited⟩ := h.store hc hnext
  have hupsert : w.upsert key fields =
      .ok (w.withFile (⟨c.path, Dict.insert c.documents key doc⟩, d)) := by
    have hwrite : c.upsert w.disk w.fault key fields = .ok (_, d) := hstore
    simp only [World.upsert, hc, hwrite, bind, Except.bind, pure, Except.pure]
  refine ⟨_, ?_, hedited, ?_⟩
  · rw [perform, hupsert, cell_file hc]
    rfl
  · rw [cell_file hc, cell_file (c := ⟨c.path, Dict.insert c.documents key doc⟩) rfl]
    exact congrArg Cell.document ((Dict.get?_insert _ _ _ _).trans (if_pos rfl))

theorem Ready.deleteIf_file (h : w.Ready) (hc : w.collection = .file c) (key field : String)
    (expected : Json) : ∃ w', perform (.deleteIf key field expected) w =
        (((w.cell key).deleteIf key field expected).1, w') ∧
      w.Edited key w' ∧ w'.cell key = ((w.cell key).deleteIf key field expected).2 := by
  have hcell := cell_file hc key
  cases hvalue : c.hasValue key field expected with
  | true =>
    have hnext : ∀ other, other ≠ key →
        Dict.get? (Dict.erase c.documents key) other = Dict.get? c.documents other :=
      fun other hother => (Dict.get?_erase c.documents key other).trans (if_neg hother.symm)
    obtain ⟨d, hstore, hedited⟩ := h.store hc hnext
    have hdelete : w.deleteIf key field expected =
        .ok (true, w.withFile (⟨c.path, Dict.erase c.documents key⟩, d)) := by
      simp only [World.deleteIf, hc, FileCollection.deleteIf, hvalue, if_true, hstore, bind,
        Except.bind, pure, Except.pure]
    have hgone : (w.cell key).deleteIf key field expected = (.ok true, .document none) := by
      rw [hcell, Cell.deleteIf_document, if_pos hvalue]
    refine ⟨_, ?_, hedited, ?_⟩
    · rw [perform, hdelete, hgone]
      rfl
    · rw [hgone, cell_file (c := ⟨c.path, Dict.erase c.documents key⟩) rfl]
      exact congrArg Cell.document ((Dict.get?_erase _ _ _).trans (if_pos rfl))
  | false =>
    have hdelete : w.deleteIf key field expected = .ok (false, w) := by
      have hfile : w.withFile (c, w.disk) = w := by rw [withFile, ← hc]
      simp only [World.deleteIf, hc, FileCollection.deleteIf, hvalue, Bool.false_eq_true, if_false,
        bind, Except.bind, pure, Except.pure, hfile]
    have hstays : (w.cell key).deleteIf key field expected = (.ok false, w.cell key) := by
      rw [hcell, Cell.deleteIf_document, if_neg (Bool.eq_false_iff.mp hvalue)]
    refine ⟨w, ?_, h.edited key, ?_⟩
    · rw [perform, hdelete, hstays]
      rfl
    · rw [hstays]

end File

section Table

variable {name : String} {rows : TableRows}

theorem Ready.exists_rows (h : w.Ready) (hc : w.collection = .table name) :
    ∃ rows, w.database = .ready rows := by
  have hmedium := h.medium
  rw [hc] at hmedium
  exact hmedium

theorem cell_of_table (hc : w.collection = .table name) (key : String) :
    w.cell key = .row (Database.text? w.rows name key) := by
  rw [cell, hc]

theorem cell_table (hc : w.collection = .table name) (hd : w.database = .ready rows)
    (key : String) : w.cell key = .row (Database.text? rows name key) := by
  rw [cell_of_table hc, World.rows, hd]

def withRows (w : World) (rows : TableRows) : World := { w with database := .ready rows }

theorem cell_withRows (hc : w.collection = .table name) (rows : TableRows) (key : String) :
    (w.withRows rows).cell key = .row (Database.text? rows name key) :=
  cell_table (w := w.withRows rows) hc rfl key

theorem withRows_self (hd : w.database = .ready rows) : w.withRows rows = w := by
  rw [withRows, ← hd]

theorem Ready.put (h : w.Ready) (hc : w.collection = .table name) (hd : w.database = .ready rows)
    {next : TableRows}
    (hnext : ∀ other, other ≠ key → Database.text? next name other = Database.text? rows name other)
    (helsewhere : ∀ other, name ≠ other →
      ∀ k, Database.text? next other k = Database.text? rows other k) :
    w.Edited key (w.withRows next) := by
  constructor
  case same => rfl
  case ready =>
    refine ⟨h.noFault, ?_⟩
    simp only [withRows, hc]
    exact ⟨next, rfl⟩
  case others =>
    intro other hother
    rw [cell_table hc hd, cell_withRows hc, hnext other hother]
  case table => exact fun _ hname => hname
  case rows =>
    intro other hother k
    have hne : name ≠ other := fun he => hother (he ▸ hc)
    rw [World.rows, World.rows, hd]
    exact helsewhere other hne k

theorem Ready.setText (h : w.Ready) (hc : w.collection = .table name)
    (hd : w.database = .ready rows) (key text : String) :
    w.Edited key (w.withRows (Database.setText rows name key text)) :=
  h.put hc hd
    (fun other hother => (Database.text?_setText rows name key text other).trans
      (if_neg hother.symm))
    fun _ hother k => Database.text?_setText_elsewhere rows hother key text k

theorem Ready.eraseText (h : w.Ready) (hc : w.collection = .table name)
    (hd : w.database = .ready rows) (key : String) :
    w.Edited key (w.withRows (Database.eraseText rows name key)) :=
  h.put hc hd
    (fun other hother => (Database.text?_eraseText rows name key other).trans (if_neg hother.symm))
    fun _ hother k => Database.text?_eraseText_elsewhere rows hother key k

theorem Ready.upsert_eq (h : w.Ready) (hc : w.collection = .table name) (key : String)
    (fields : Document) : w.upsert key fields =
      (w.database.upsert name key fields).map fun database => { w with database } := by
  obtain ⟨hnoFault, -⟩ := h
  obtain ⟨clock, disk, database, collection, memory, nonces, drawn, endpoint, posts, host, sent,
    counted, flight, fault⟩ := w
  cases hc
  cases hnoFault
  change Except.bind _ _ = Except.map _ _
  cases database.upsert name key fields <;> rfl

theorem Ready.deleteIf_eq (h : w.Ready) (hc : w.collection = .table name) (key field : String)
    (expected : Json) : w.deleteIf key field expected =
      (w.database.deleteIf name key field expected).map
        fun r => (r.1, { w with database := r.2 }) := by
  obtain ⟨hnoFault, -⟩ := h
  obtain ⟨clock, disk, database, collection, memory, nonces, drawn, endpoint, posts, host, sent,
    counted, flight, fault⟩ := w
  cases hc
  cases hnoFault
  change Except.bind _ _ = Except.map _ _
  cases database.deleteIf name key field expected <;> rfl

theorem Ready.upsert_table (h : w.Ready) (hc : w.collection = .table name)
    (hd : w.database = .ready rows) (key : String) (fields : Document) :
    ∃ w', perform (.upsert key fields) w = (((w.cell key).upsert key fields).1, w') ∧
      w.Edited key w' ∧ w'.cell key = ((w.cell key).upsert key fields).2 := by
  have hcell := cell_table hc hd key
  rw [perform, h.upsert_eq hc, hd, hcell]
  simp only [Database.upsert, Database.rows, bind, Except.bind, Cell.upsert]
  cases Database.merged? (Database.text? rows name key) fields with
  | some text =>
    refine ⟨_, rfl, h.setText hc hd key text, (cell_withRows hc _ key).trans ?_⟩
    rw [Database.text?_setText, if_pos rfl]
  | none => exact ⟨w, rfl, h.edited key, hcell⟩

theorem Ready.deleteIf_table (h : w.Ready) (hc : w.collection = .table name)
    (hd : w.database = .ready rows) (key field : String) (expected : Json) :
    ∃ w', perform (.deleteIf key field expected) w =
        (((w.cell key).deleteIf key field expected).1, w') ∧
      w.Edited key w' ∧ w'.cell key = ((w.cell key).deleteIf key field expected).2 := by
  have hcell := cell_table hc hd key
  have hkept : w.settleWith (.ok (false, w.withRows rows)) = (.ok false, w) :=
    congrArg (Prod.mk _) (withRows_self hd)
  rw [perform, h.deleteIf_eq hc, hd, hcell]
  simp only [Database.deleteIf, Database.rows, bind, Except.bind]
  cases ht : Database.text? rows name key with
  | none => exact ⟨w, hkept, h.edited key, by rw [hcell, ht]; rfl⟩
  | some text =>
    rw [ht] at hcell
    simp only [Cell.deleteIf]
    cases Database.valueEquals? text ("." ++ field) expected with
    | none => exact ⟨w, rfl, h.edited key, hcell⟩
    | some equal =>
      cases equal with
      | true =>
        refine ⟨_, rfl, h.eraseText hc hd key, (cell_withRows hc _ key).trans ?_⟩
        rw [Database.text?_eraseText, if_pos rfl]
      | false => exact ⟨w, hkept, h.edited key, hcell⟩

end Table

theorem Ready.find (h : w.Ready) (key : String) : w.find key = (w.cell key).find key := by
  cases hc : w.collection with
  | file c =>
    rw [cell_file hc, World.find, hc]
    rfl
  | table name =>
    obtain ⟨rows, hd⟩ := h.exists_rows hc
    rw [cell_table hc hd, World.find, hc, hd]
    simp only [Database.find, Database.rows, bind, Except.bind]
    cases Database.text? rows name key with
    | none => rfl
    | some text =>
      simp only [Cell.find]
      cases Json.documentOfText? text <;> rfl

theorem Ready.upsert (h : w.Ready) (key : String) (fields : Document) :
    ∃ w', perform (.upsert key fields) w = (((w.cell key).upsert key fields).1, w') ∧
      w.Edited key w' ∧ w'.cell key = ((w.cell key).upsert key fields).2 := by
  cases hc : w.collection with
  | file c => exact h.upsert_file hc key fields
  | table name =>
    obtain ⟨rows, hd⟩ := h.exists_rows hc
    exact h.upsert_table hc hd key fields

theorem Ready.deleteIf (h : w.Ready) (key field : String) (expected : Json) :
    ∃ w', perform (.deleteIf key field expected) w =
        (((w.cell key).deleteIf key field expected).1, w') ∧
      w.Edited key w' ∧ w'.cell key = ((w.cell key).deleteIf key field expected).2 := by
  cases hc : w.collection with
  | file c => exact h.deleteIf_file hc key field expected
  | table name =>
    obtain ⟨rows, hd⟩ := h.exists_rows hc
    exact h.deleteIf_table hc hd key field expected

theorem Edited.find {w' : World} {other : String} (h : w.Edited key w') (hw : w.Ready)
    (hother : other ≠ key) : w'.find other = w.find other := by
  rw [h.ready.find, hw.find, h.others other hother]

theorem Ready.congr {v : World} (h : w.Ready) (hv : w.SameInside v) : v.Ready := by
  obtain ⟨hnoFault, hmedium⟩ := h
  refine ⟨hv.fault.trans hnoFault, ?_⟩
  rw [hv.collection, hv.disk, hv.database]
  exact hmedium

end World

/-! ### Entries in memory -/

namespace Memory

variable {m m' : Dict StoredEntry} {key other : String}

theorem load_congr (h : Dict.get? m key = Dict.get? m' key) (now : Instant) :
    (load m now key).1 = (load m' now key).1 ∧
      Dict.get? (load m now key).2 key = Dict.get? (load m' now key).2 key := by
  unfold load
  rw [h]
  split
  · exact ⟨rfl, h⟩
  · split
    · exact ⟨rfl, by rw [Dict.get?_erase, Dict.get?_erase, if_pos rfl, if_pos rfl]⟩
    · exact ⟨rfl, h⟩

theorem get?_load_other (h : other ≠ key) (m : Dict StoredEntry) (now : Instant) :
    Dict.get? (load m now key).2 other = Dict.get? m other := by
  unfold load
  split
  · rfl
  · split
    · exact (Dict.get?_erase m key other).trans (if_neg h.symm)
    · rfl

theorem get?_save_congr (h : Dict.get? m key = Dict.get? m' key) (tokens : Tokens)
    (credentials : Option Credentials) (expiresAt : Instant) :
    Dict.get? (save m key tokens credentials expiresAt) key =
      Dict.get? (save m' key tokens credentials expiresAt) key := by
  rw [save, save, Dict.get?_insert, Dict.get?_insert, if_pos rfl, if_pos rfl, h]

theorem get?_save_other (h : other ≠ key) (m : Dict StoredEntry) (tokens : Tokens)
    (credentials : Option Credentials) (expiresAt : Instant) :
    Dict.get? (save m key tokens credentials expiresAt) other = Dict.get? m other :=
  (Dict.get?_insert m key _ other).trans (if_neg h.symm)

end Memory

/-! ### Steps for a key -/

/-- All that steps for a key can depend on, apart from nonces and locks. -/
structure Slice where
  clock : Instant
  cell : Cell
  entry : Option StoredEntry
  endpoint : Endpoint

def World.slice (w : World) (key : String) : Slice :=
  ⟨w.clock, w.cell key, Dict.get? w.memory key, w.endpoint⟩

def Op.About (key : String) : Op → Prop
  | .find k | .upsert k _ | .deleteIf k _ _ | .recall k | .keep k _ _ _ => k = key
  | .now | .nonce | .post _ | .count _ => True
  | _ => False

namespace World

variable {w v : World} {key : String}

theorem slice_eq_iff : w.slice key = v.slice key ↔ w.clock = v.clock ∧ w.cell key = v.cell key ∧
    Dict.get? w.memory key = Dict.get? v.memory key ∧ w.endpoint = v.endpoint := by
  rw [slice, slice, Slice.mk.injEq]

theorem Edited.slice (h : w.Edited key v) :
    v.slice key = { w.slice key with cell := v.cell key } := by
  rw [h.same]
  rfl

theorem Edited.slice_congr {w' v' : World} (hw : w.Edited key w') (hv : v.Edited key v')
    (h : w.slice key = v.slice key) (hcell : w'.cell key = v'.cell key) :
    w'.slice key = v'.slice key := by
  rw [hw.slice, hv.slice, h, hcell]

/-- A step for a key answers by what belongs to the key, and makes of it what it makes of the same
elsewhere. -/
theorem perform_slice (hw : w.Ready) (hv : v.Ready) (h : w.slice key = v.slice key) {op : Op}
    (hop : op.About key) (hnonce : op = .nonce → w.nonces w.drawn = v.nonces v.drawn) :
    (perform op w).1 = (perform op v).1 ∧
      (perform op w).2.slice key = (perform op v).2.slice key := by
  obtain ⟨hclock, hcell, hentry, hendpoint⟩ := slice_eq_iff.mp h
  cases op with
  | now => exact ⟨hclock, h⟩
  | find k =>
    cases hop
    refine ⟨?_, h⟩
    rw [perform, perform, hw.find, hv.find, hcell]
  | upsert k fields =>
    cases hop
    obtain ⟨w', hperform, hedited, hafter⟩ := hw.upsert key fields
    obtain ⟨v', hperform', hedited', hafter'⟩ := hv.upsert key fields
    rw [hperform, hperform', hcell]
    refine ⟨rfl, hedited.slice_congr hedited' h ?_⟩
    rw [hafter, hafter', hcell]
  | deleteIf k field expected =>
    cases hop
    obtain ⟨w', hperform, hedited, hafter⟩ := hw.deleteIf key field expected
    obtain ⟨v', hperform', hedited', hafter'⟩ := hv.deleteIf key field expected
    rw [hperform, hperform', hcell]
    refine ⟨rfl, hedited.slice_congr hedited' h ?_⟩
    rw [hafter, hafter', hcell]
  | «recall» k =>
    cases hop
    obtain ⟨hanswer, hafter⟩ := Memory.load_congr hentry w.clock
    simp only [perform, ← hclock]
    exact ⟨hanswer, slice_eq_iff.mpr ⟨rfl, hcell, hafter, hendpoint⟩⟩
  | keep k tokens credentials expiresAt =>
    cases hop
    have hafter := Memory.get?_save_congr hentry tokens credentials expiresAt
    exact ⟨rfl, slice_eq_iff.mpr ⟨hclock, hcell, hafter, hendpoint⟩⟩
  | nonce => exact ⟨hnonce rfl, h⟩
  | post form =>
    rw [perform, perform, hendpoint]
    exact ⟨rfl, slice_eq_iff.mpr ⟨hclock, hcell, hentry, rfl⟩⟩
  | count counter => exact ⟨rfl, h⟩
  | _ => contradiction

/-- What a step for a key leaves alone. -/
structure KeepsOthers (key : String) (w w' : World) : Prop where
  ready : w'.Ready
  clock : w'.clock = w.clock
  nonces : w'.nonces = w.nonces
  cells : ∀ other, other ≠ key → w'.cell other = w.cell other
  entries : ∀ other, other ≠ key → Dict.get? w'.memory other = Dict.get? w.memory other
  table : ∀ name, w.collection = .table name → w'.collection = .table name
  rows : ∀ name, w.collection ≠ .table name →
    ∀ k, Database.text? w'.rows name k = Database.text? w.rows name k

theorem Edited.keepsOthers (h : w.Edited key v) : w.KeepsOthers key v where
  ready := h.ready
  clock := by rw [h.same]
  nonces := by rw [h.same]
  cells := h.others
  entries _ _ := by rw [h.same]
  table := h.table
  rows := h.rows

theorem SameInside.keepsOthers (hw : w.Ready) (h : w.SameInside v) (hclock : v.clock = w.clock)
    (hnonces : v.nonces = w.nonces) (key : String) : w.KeepsOthers key v where
  ready := hw.congr h
  clock := hclock
  nonces := hnonces
  cells other _ := by rw [cell, cell, rows, rows, h.collection, h.database]
  entries _ _ := by rw [h.memory]
  table _ hc := h.collection.trans hc
  rows _ _ _ := by rw [rows, rows, h.database]

theorem perform_keepsOthers (hw : w.Ready) {op : Op} (hop : op.About key ∨ op.isLocking = true) :
    w.KeepsOthers key (perform op w).2 := by
  have houter : op.isOuter = true → w.KeepsOthers key (perform op w).2 := by
    intro houter
    refine SameInside.keepsOthers hw (sameInside_perform houter w) ?_ ?_ key <;>
      cases op <;> first | contradiction | rfl
  rcases hop with hop | hop
  · cases op with
    | find k => exact (hw.edited key).keepsOthers
    | upsert k fields =>
      cases hop
      obtain ⟨w', hperform, hedited, -⟩ := hw.upsert key fields
      rw [hperform]
      exact hedited.keepsOthers
    | deleteIf k field expected =>
      cases hop
      obtain ⟨w', hperform, hedited, -⟩ := hw.deleteIf key field expected
      rw [hperform]
      exact hedited.keepsOthers
    | «recall» k =>
      cases hop
      exact ⟨⟨hw.noFault, hw.medium⟩, rfl, rfl, fun _ _ => rfl,
        fun other hother => Memory.get?_load_other hother w.memory w.clock, fun _ hc => hc,
        fun _ _ _ => rfl⟩
    | keep k tokens credentials expiresAt =>
      cases hop
      exact ⟨⟨hw.noFault, hw.medium⟩, rfl, rfl, fun _ _ => rfl,
        fun other hother => Memory.get?_save_other hother w.memory tokens credentials expiresAt,
        fun _ hc => hc, fun _ _ _ => rfl⟩
    | nonce =>
      exact SameInside.keepsOthers (v := { w with drawn := w.drawn + 1 }) hw
        ⟨rfl, rfl, rfl, rfl, rfl⟩ rfl rfl key
    | now | post form | count counter => exact houter rfl
    | _ => contradiction
  · refine houter ?_
    cases op <;> first | contradiction | rfl

end World
end TokenKeeper
