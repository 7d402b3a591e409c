import TokenKeeper.Proofs.Store.Refinement

/-!
# Sessions with a store

A session is a row of saves, loads and settings of the clock. Over an empty collection that takes
every write, be it a file or a table, the sealed store answers every session as the store in memory
does, and the plain store answers with its own view of those answers.
-/
namespace TokenKeeper

inductive StoreCall
  | save (key : String) (tokens : Tokens) (credentials : Option Credentials) (expiresAt : Instant)
  | load (key : String)
  | clock (now : Instant)

inductive StoreAnswer
  | saved (result : Except Failure Unit)
  | loaded (key : String) (result : Except Failure StoredEntry)
  | set

def StoreAnswer.view (shown : String → StoredEntry → StoredEntry) : StoreAnswer → StoreAnswer
  | .loaded key result => .loaded key (result.map (shown key))
  | answer => answer

theorem StoreAnswer.view_id (answer : StoreAnswer) : answer.view (fun _ e => e) = answer := by
  cases answer with
  | saved result => rfl
  | loaded key result => cases result <;> rfl
  | set => rfl

namespace TokenStore

def answer (store : TokenStore) : StoreCall → World → StoreAnswer × World
  | .save key tokens credentials expiresAt, w =>
    let (result, w) := (store.save key tokens credentials expiresAt).run World.perform w
    (.saved result, w)
  | .load key, w =>
    let (result, w) := (store.load key).run World.perform w
    (.loaded key result, w)
  | .clock now, w => (.set, { w with clock := now })

def answers (store : TokenStore) : List StoreCall → World → List StoreAnswer
  | [], _ => []
  | call :: rest, w => (store.answer call w).1 :: store.answers rest (store.answer call w).2

theorem Keeps.answer {store : TokenStore} {shown : String → StoredEntry → StoredEntry}
    {image : Dict StoredEntry → World → Prop} (h : store.Keeps shown image) {w w₀ : World}
    (hi : image w₀.memory w) (hc : w₀.clock = w.clock) (call : StoreCall) :
    (store.answer call w).1 = ((memory.answer call w₀).1).view shown ∧
      image (memory.answer call w₀).2.memory (store.answer call w).2 ∧
      (memory.answer call w₀).2.clock = (store.answer call w).2.clock := by
  cases call with
  | save key tokens credentials expiresAt =>
    obtain ⟨w', hrun, himage, hout⟩ := h.save hi key tokens credentials expiresAt
    obtain ⟨w₀', hrun₀, himage₀, hout₀⟩ :=
      memory_keeps.save (rfl : w₀.memory = _) key tokens credentials expiresAt
    simp only [TokenStore.answer, hrun, hrun₀]
    refine ⟨rfl, ?_, ?_⟩
    · rw [himage₀]
      exact himage
    · rw [hout₀.clock, hc, hout.clock]
  | load key =>
    obtain ⟨w', hrun, himage, hout⟩ := h.load hi key
    obtain ⟨w₀', hrun₀, himage₀, hout₀⟩ := memory_keeps.load (rfl : w₀.memory = _) key
    simp only [TokenStore.answer, hrun, hrun₀, hc]
    refine ⟨?_, ?_, ?_⟩
    · cases (Memory.load w₀.memory w.clock key).1 <;> rfl
    · rw [himage₀, hc]
      exact himage
    · rw [hout₀.clock, hc, hout.clock]
  | clock now => exact ⟨rfl, h.frame hi ⟨rfl, rfl, rfl, rfl, rfl⟩, rfl⟩

theorem Keeps.answers {store : TokenStore} {shown : String → StoredEntry → StoredEntry}
    {image : Dict StoredEntry → World → Prop} (h : store.Keeps shown image) {w w₀ : World}
    (hi : image w₀.memory w) (hc : w₀.clock = w.clock) (calls : List StoreCall) :
    store.answers calls w = (memory.answers calls w₀).map (.view shown) := by
  induction calls generalizing w w₀ with
  | nil => rfl
  | cons call rest ih =>
    obtain ⟨hanswer, himage, hclock⟩ := h.answer hi hc call
    rw [TokenStore.answers, TokenStore.answers, List.map_cons, ← hanswer, ih himage hclock]

end TokenStore

/-! ### Empty collections -/

/-- The collection in use is empty, and nothing keeps it from taking writes. -/
structure World.EmptyCollection (w : World) : Prop where
  noFault : w.fault = none
  medium : match w.collection with
    | .file c => w.disk.Writable c.path ∧ c.documents = []
    | .table name => ∃ rows, w.database = .ready rows ∧ ∀ key, Database.text? rows name key = none

theorem World.EmptyCollection.holds {w : World} (h : w.EmptyCollection) :
    w.Holds fun _ => none := by
  obtain ⟨hnoFault, hmedium⟩ := h
  refine ⟨hnoFault, ?_⟩
  cases hc : w.collection with
  | file c =>
    rw [hc] at hmedium
    obtain ⟨hwrite, hdocs⟩ := hmedium
    refine ⟨hwrite, fun key => ?_⟩
    rw [hdocs]
    rfl
  | table name =>
    rw [hc] at hmedium
    obtain ⟨rows, hd, hrows⟩ := hmedium
    refine ⟨rows, hd, fun key => ?_⟩
    rw [hrows key]

theorem emptyCollection_of_openAt {w : World} {d : Disk} {path : String} {c : FileCollection}
    (hnoFault : w.fault = none) (hnew : w.disk.exists? path = false)
    (h : FileCollection.openAt w.disk path none = .ok (c, d)) :
    (w.withFile (c, d)).EmptyCollection := by
  refine ⟨hnoFault, ?_⟩
  unfold FileCollection.openAt at h
  rw [hnew, if_neg (by decide)] at h
  obtain ⟨rfl, hreplace⟩ := FileCollection.store_eq_ok h
  exact ⟨Disk.writable_after_replace hreplace, rfl⟩

theorem emptyCollection_of_create {w : World} {name : String} {db : Database}
    (hnoFault : w.fault = none) (hnew : w.database = .dropped) (h : w.database.create? = .ok db) :
    ({ w with collection := .table name, database := db } : World).EmptyCollection := by
  rw [hnew] at h
  cases h
  exact ⟨hnoFault, [], rfl, fun _ => rfl⟩

theorem emptyCollection_isolated (now : Instant) (disk : Disk) :
    (World.isolated now disk).EmptyCollection := ⟨rfl, [], rfl, fun _ => rfl⟩

/-! ### Sealed and plain documents beside the entries in memory -/

namespace TokenStore

/-- The sealed store cannot be told from the store in memory. -/
theorem sealedDocuments_answers (key : CipherKey) {w w₀ : World} (h : w.EmptyCollection)
    (hm : w₀.memory = []) (hc : w₀.clock = w.clock) (calls : List StoreCall) :
    (sealedDocuments key).answers calls w = memory.answers calls w₀ := by
  have himage : ∃ docs, w.Holds docs ∧ SealedDocument.Seals key w₀.memory docs := by
    refine ⟨_, h.holds, ?_⟩
    rw [hm]
    exact fun _ => rfl
  have hanswers := (sealedDocuments_keeps key).answers himage hc calls
  have hview : (StoreAnswer.view fun _ e => e) = id := funext StoreAnswer.view_id
  rwa [hview, List.map_id] at hanswers

def trialKey : CipherKey := ⟨List.replicate 32 0, by decide⟩

theorem sealedDocuments_half :
    (sealedDocuments trialKey).answers [.save "u1" ⟨"at", "rt", -7⟩ (some ⟨"u2", "cid", ""⟩) .epoch,
      .load "u1"] (World.isolated .epoch .empty) =
      [.saved (.ok ()), .loaded "u1" (.ok ⟨⟨"at", "rt", -7⟩, some ⟨"u2", "cid", ""⟩, .epoch⟩)] := by
  have hempty := emptyCollection_isolated .epoch .empty
  exact (sealedDocuments_answers trialKey hempty rfl rfl _).trans rfl

/-- The plain store answers with its view of what the store in memory answers, so all collections
answer alike. -/
theorem documents_answers {w w₀ : World} (h : w.EmptyCollection) (hm : w₀.memory = [])
    (hc : w₀.clock = w.clock) (calls : List StoreCall) :
    documents.answers calls w = (memory.answers calls w₀).map (.view TokenDocument.shown) ∧
      ∀ w' : World, w'.EmptyCollection → w'.clock = w.clock →
        documents.answers calls w' = documents.answers calls w := by
  have hfirst : ∀ v : World, v.EmptyCollection → w₀.clock = v.clock →
      documents.answers calls v = (memory.answers calls w₀).map (.view TokenDocument.shown) := by
    intro v hv hclock
    have himage : v.Holds (TokenDocument.holdings w₀.memory) := by
      rw [hm]
      exact hv.holds
    exact documents_keeps.answers himage hclock calls
  refine ⟨hfirst w h hc, fun w' h' hc' => ?_⟩
  rw [hfirst w' h' (hc.trans hc'.symm), hfirst w h hc]

theorem documents_half :
    documents.answers [.save "u1" ⟨"at", "rt", -7⟩ (some ⟨"u2", "cid", ""⟩) .epoch, .load "u1"]
      (World.isolated .epoch .empty) =
      [.saved (.ok ()), .loaded "u1" (.ok ⟨⟨"at", "rt", 0⟩, none, .epoch⟩)] := by
  have hempty := emptyCollection_isolated .epoch .empty
  exact (documents_answers hempty rfl rfl _).1.trans rfl

end TokenStore
end TokenKeeper
