import TokenKeeper.Proofs.Json.Pretty
import TokenKeeper.Proofs.Store.Programs
import TokenKeeper.Proofs.Store.Sessions

/-!
# Collections that are opened again

Stores put nothing but texts into their documents, and the file of a collection is read back as the
documents that it was written from. Every change of the memory is written first, so the file always
matches the memory, and a collection that is dropped comes back from its file as it was. No session
can tell, be it that some of its writes fail.
-/
namespace TokenKeeper

open Json (escaped Spelling)

/-! ### Files of texts -/

def Row.IsTexts (doc : Document) : Prop := Dict.Ordered doc ∧ ∃ ms, doc = strings ms

theorem Row.IsTexts.insertAll {doc : Document} (h : IsTexts doc) (fs : Dict String) :
    IsTexts (Dict.insertAll doc (strings fs)) := by
  obtain ⟨hordered, ms, rfl⟩ := h
  exact ⟨hordered.insertAll _, Dict.insertAll ms fs, Dict.insertAll_map ms fs Json.str⟩

namespace FileCollection

variable {c c' : FileCollection} {d d' : Disk} {mishap : Option WriteStep}

def members (documents : Dict Document) : List (String × Json) :=
  documents.map fun e => (e.1, .obj e.2)

theorem documentsOf?_members {documents : Dict Document} (h : ∀ e ∈ documents, Row.IsTexts e.2) :
    documentsOf? (Json.memberSpellings (members documents)) = some documents := by
  induction documents with
  | nil => rfl
  | cons e rest ih =>
    obtain ⟨key, doc⟩ := e
    obtain ⟨⟨hordered, ms, hms⟩, hrest⟩ := List.forall_mem_cons.mp h
    have hvalue : (Json.obj doc).spelling.value? (Json.nestingLimit - 1) = some (.obj doc) := by
      have hentries := Row.entries?_strings ms (Json.nestingLimit - 2)
      rw [← hms] at hentries
      change (Spelling.entries? (Json.nestingLimit - 2) (Json.memberSpellings doc)).map _ = _
      rw [hentries, Option.map_some, hordered.ofList_eq]
    change List.mapM _ ((escaped key, (Json.obj doc).spelling) ::
      Json.memberSpellings (members rest)) = _
    have htail := ih hrest
    simp only [documentsOf?, Option.bind_eq_bind, Option.pure_def] at htail
    simp [List.mapM_cons, Spelling.text?_escaped, hvalue, Json.obj?, htail]

theorem documents?_text {documents : Dict Document} (hordered : Dict.Ordered documents)
    (htexts : ∀ e ∈ documents, Row.IsTexts e.2) : documents? (text documents) = some documents := by
  have hspelled : Spelling.ofText? (text documents) =
      some (.obj (Json.memberSpellings (members documents))) := Json.ofText?_pretty _
  simp [documents?, hspelled, documentsOf?_members htexts, hordered.ofList_eq]

/-- The file spells the documents in memory, which are documents of texts. -/
structure MatchesDisk (c : FileCollection) (d : Disk) : Prop where
  ordered : Dict.Ordered c.documents
  texts : ∀ e ∈ c.documents, Row.IsTexts e.2
  onDisk : d.readText? c.path = some (text c.documents)

theorem MatchesDisk.documents? (h : c.MatchesDisk d) :
    (d.readText? c.path).bind FileCollection.documents? = some c.documents := by
  rw [h.onDisk, Option.bind_some, documents?_text h.ordered h.texts]

theorem MatchesDisk.openAt (h : c.MatchesDisk d) (mishap : Option WriteStep) :
    openAt d c.path mishap = .ok (c, d) := by
  simp [FileCollection.openAt, Disk.exists?_of_readText? h.onDisk, h.onDisk,
    documents?_text h.ordered h.texts]

theorem matchesDisk_of_store {next : Dict Document} (h : c.store d mishap next = .ok (c', d'))
    (hordered : Dict.Ordered next) (htexts : ∀ e ∈ next, Row.IsTexts e.2) :
    c'.path = c.path ∧ c'.MatchesDisk d' := by
  obtain ⟨rfl, hreplace⟩ := store_eq_ok h
  exact ⟨rfl, hordered, htexts, Disk.readText?_of_replace hreplace⟩

theorem matchesDisk_of_openAt {path : String} (hnew : d.exists? path = false)
    (h : openAt d path mishap = .ok (c, d')) : c.path = path ∧ c.MatchesDisk d' := by
  simp only [openAt, hnew, Bool.false_eq_true, if_false] at h
  exact matchesDisk_of_store h Dict.ordered_nil (by simp)

theorem MatchesDisk.upsert (h : c.MatchesDisk d) {key : String} {fs : Dict String}
    (hupsert : c.upsert d mishap key (Row.strings fs) = .ok (c', d')) :
    c'.path = c.path ∧ c'.MatchesDisk d' := by
  have hdoc : Row.IsTexts ((c.find key).getD []) := by
    cases hfind : c.find key with
    | none => exact ⟨Dict.ordered_nil, [], rfl⟩
    | some doc => exact h.texts _ (Dict.mem_of_get? hfind)
  refine matchesDisk_of_store hupsert (h.ordered.insert _ _) fun e he => ?_
  rcases Dict.eq_or_mem_of_mem_insert he with rfl | he
  · exact hdoc.insertAll fs
  · exact h.texts e he

theorem MatchesDisk.deleteIf (h : c.MatchesDisk d) {key field : String} {expected : Json}
    {removed : Bool} (hdelete : c.deleteIf d mishap key field expected = .ok (removed, c', d')) :
    c'.path = c.path ∧ c'.MatchesDisk d' := by
  unfold FileCollection.deleteIf at hdelete
  split at hdelete
  · obtain ⟨stored, hstore, hdone⟩ := bind_eq_ok_iff.mp hdelete
    cases hdone
    exact matchesDisk_of_store hstore (h.ordered.erase key)
      fun e he => h.texts e ((Dict.sublist_erase c.documents key).subset he)
  · cases hdelete
    exact ⟨rfl, h⟩

end FileCollection

/-! ### Steps of stores -/

def World.MatchesDisk (path : String) (w : World) : Prop :=
  ∃ c, w.collection = .file c ∧ c.path = path ∧ c.MatchesDisk w.disk

namespace World

variable {w w' : World} {path : String}

theorem MatchesDisk.changed (h : w.MatchesDisk path)
    {file : FileCollection → FileCollection × Disk → Prop} {table : String → Database → Prop}
    (hchanged : w.Changed file table w')
    (hfile : ∀ c changed, c.MatchesDisk w.disk → file c changed →
      changed.1.path = c.path ∧ changed.1.MatchesDisk changed.2) : w'.MatchesDisk path := by
  obtain ⟨c, hc, hpath, hstep⟩ := h
  cases hchanged with
  | @file c' changed hc' hwrite =>
    rw [hc] at hc'
    cases hc'
    obtain ⟨hsame, hnext⟩ := hfile c changed hstep hwrite
    exact ⟨changed.1, rfl, hsame.trans hpath, hnext⟩
  | table hc' =>
    rw [hc] at hc'
    cases hc'

theorem MatchesDisk.perform (h : w.MatchesDisk path) {op : Op} (hop : op.OnDocuments) :
    (perform op w).2.MatchesDisk path := by
  cases hop with
  | put key hfields =>
    obtain ⟨fs, rfl⟩ := hfields
    exact of_settle (P := MatchesDisk path) h
      fun w' hw => h.changed (changed_of_upsert hw) fun c _ hc => hc.upsert
  | deleteIf key field expected =>
    exact of_settleWith (P := MatchesDisk path) h
      fun _ w' hw => h.changed (changed_of_deleteIf hw) fun c _ hc => hc.deleteIf
  | _ => exact h

theorem MatchesDisk.run {α : Type} (h : w.MatchesDisk path) {p : Program α}
    (hp : p.OnDocuments) : (p.run World.perform w).2.MatchesDisk path :=
  hp.run (fun _ _ hop hkept => ⟨trivial, hkept.perform hop⟩) h

end World

namespace TokenStore

theorem OnDocuments.answer {store : TokenStore} (h : store.OnDocuments) {w : World} {path : String}
    (hw : w.MatchesDisk path) (call : StoreCall) : (store.answer call w).2.MatchesDisk path := by
  cases call with
  | save key tokens credentials expiresAt => exact hw.run (h.save key tokens credentials expiresAt)
  | load key => exact hw.run (h.load key)
  | clock now => exact hw

end TokenStore

/-! ### Sessions with a file -/

inductive FileCall
  | use (call : StoreCall)
  | medium (fault : Option WriteStep)
  | reopen

def FileCall.isReopen : FileCall → Bool
  | .reopen => true
  | _ => false

def World.reopen (w : World) (path : String) : Except Failure World := do
  return w.withFile (← FileCollection.openAt w.disk path w.fault)

theorem World.MatchesDisk.reopen {w : World} {path : String} (h : w.MatchesDisk path) :
    w.reopen path = .ok w := by
  obtain ⟨c, hfile, rfl, hstep⟩ := h
  have hsame : w.withFile (c, w.disk) = w := by
    rw [World.withFile, ← hfile]
  simp only [World.reopen, hstep.openAt, bind, Except.bind, pure, Except.pure, hsame]

namespace TokenStore

def fileSession (store : TokenStore) (path : String) :
    List FileCall → World → Except Failure (List StoreAnswer × World)
  | [], w => .ok ([], w)
  | .use call :: rest, w => do
    let (answers, last) ← store.fileSession path rest (store.answer call w).2
    return ((store.answer call w).1 :: answers, last)
  | .medium fault :: rest, w => store.fileSession path rest { w with fault }
  | .reopen :: rest, w => do store.fileSession path rest (← w.reopen path)

theorem OnDocuments.fileSession {store : TokenStore} (h : store.OnDocuments) {w : World}
    {path : String} (hw : w.MatchesDisk path) (calls : List FileCall) :
    ∃ answers last, store.fileSession path calls w = .ok (answers, last) ∧
      store.fileSession path (calls.filter fun call => !call.isReopen) w = .ok (answers, last) ∧
      last.MatchesDisk path := by
  -- The file matches the memory before each call, so that a reopening gives the same world.
  induction calls generalizing w with
  | nil => exact ⟨[], w, rfl, rfl, hw⟩
  | cons call rest ih =>
    cases call with
    | use call =>
      obtain ⟨answers, last, hall, hfew, hlast⟩ := ih (h.answer hw call)
      refine ⟨(store.answer call w).1 :: answers, last, ?_, ?_, hlast⟩
      · simp only [TokenStore.fileSession, hall]
        rfl
      · change (TokenStore.fileSession store path (.use call :: _) w) = _
        simp only [TokenStore.fileSession, hfew]
        rfl
    | medium fault =>
      have hset : ({ w with fault } : World).MatchesDisk path := hw
      exact ih hset
    | reopen =>
      obtain ⟨answers, last, hall, hfew, hlast⟩ := ih hw
      refine ⟨answers, last, ?_, hfew, hlast⟩
      simp only [TokenStore.fileSession, hw.reopen]
      exact hall

/-- Over a new file, a session in which the collection is dropped and opened again at any points
goes through, with the answers and the end of the session without these; and at its end, wherever
that is, the file is read as the documents in memory. -/
theorem fileSession_reopen {store : TokenStore}
    (hstore : store = documents ∨ ∃ key, store = sealedDocuments key) {w : World} {path : String}
    {c : FileCollection} {d : Disk} (hnew : w.disk.exists? path = false)
    (hopen : FileCollection.openAt w.disk path w.fault = .ok (c, d)) (calls : List FileCall) :
    ∃ answers last held, store.fileSession path calls (w.withFile (c, d)) = .ok (answers, last) ∧
      store.fileSession path (calls.filter fun call => !call.isReopen) (w.withFile (c, d)) =
        .ok (answers, last) ∧
      last.collection = .file held ∧ held.path = path ∧
      (last.disk.readText? path).bind FileCollection.documents? = some held.documents := by
  have htexts : store.OnDocuments := by
    rcases hstore with rfl | ⟨key, rfl⟩
    · exact documents_takesAtMostThree.onDocuments
    · exact (sealedDocuments_takesAtMostThree key).onDocuments
  have hw : (w.withFile (c, d)).MatchesDisk path :=
    ⟨c, rfl, FileCollection.matchesDisk_of_openAt hnew hopen⟩
  obtain ⟨answers, last, hall, hfew, held, hfile, rfl, hstep⟩ := htexts.fileSession hw calls
  exact ⟨answers, last, held, hall, hfew, hfile, rfl, hstep.documents?⟩

def trialCalls : List FileCall :=
  [.use (.save "u1" ⟨"at", "rt", 7⟩ (some ⟨"u1", "cid", "s\n\u2028"⟩) .epoch), .reopen,
    .medium (some .rename), .use (.save "u1" ⟨"at2", "rt2", 7⟩ none .epoch), .reopen,
    .use (.load "u1")]

theorem fileSession_interrupted :
    ∃ c d, Disk.empty.exists? "tokens.json" = false ∧
      FileCollection.openAt .empty "tokens.json" none = .ok (c, d) ∧
      ∃ answers last held, documents.fileSession "tokens.json" trialCalls
          ((World.isolated .epoch .empty).withFile (c, d)) = .ok (answers, last) ∧
        documents.fileSession "tokens.json" (trialCalls.filter fun call => !call.isReopen)
          ((World.isolated .epoch .empty).withFile (c, d)) = .ok (answers, last) ∧
        last.collection = .file held ∧ held.path = "tokens.json" ∧
        (last.disk.readText? "tokens.json").bind FileCollection.documents? =
          some held.documents := by
  have hnew : (World.isolated .epoch .empty).disk.exists? "tokens.json" = false := by decide
  have hopen : FileCollection.openAt (World.isolated .epoch .empty).disk "tokens.json" none =
      .ok (⟨"tokens.json", []⟩, Disk.empty.put ["work", "tokens.json"]
        (.file (Utf8.encode (FileCollection.text [])) true)) := by rfl
  exact ⟨_, _, hnew, hopen, fileSession_reopen (Or.inl rfl) hnew hopen trialCalls⟩

end TokenStore
end TokenKeeper
