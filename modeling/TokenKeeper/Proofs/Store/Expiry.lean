import TokenKeeper.Proofs.Store.Outcomes
import TokenKeeper.Proofs.Store.Steps

/-!
# Loads of what has expired

What has expired is never given out, and nothing else about it matters: not whether its blob opens,
nor under which key. It counts as not found, and on the way it is reclaimed. Where its document
cannot be reclaimed, the load fails as the deletion does; that this is a failure of the medium and
no other, and cannot happen while the medium takes writes, is `load_of_expired`.
-/
namespace TokenKeeper

/-! ### Failures of a deletion -/

namespace FileCollection

theorem kind_of_deleteIf {c : FileCollection} {d : Disk} {mishap : Option WriteStep}
    {key field : String} {expected : Json} {e : Failure}
    (h : c.deleteIf d mishap key field expected = .error e) : e.kind = .store := by
  unfold deleteIf at h
  split at h
  · rcases bind_eq_error_iff.mp h with hstore | ⟨changed, -, hdone⟩
    · exact kind_of_store hstore
    · cases hdone
  · cases h

end FileCollection

namespace Database

theorem kind_of_deleteIf {db : Database} {name key field : String} {expected : Json} {e : Failure}
    (h : db.deleteIf name key field expected = .error e) : e.kind = .store := by
  have hcase := deletesIf db name key field expected
  rw [h] at hcase
  cases hcase with
  | failed => rfl

end Database

namespace World

variable {w : World} {key field : String} {expected : Json} {e : Failure}

theorem kind_of_deleteIf (h : w.deleteIf key field expected = .error e) : e.kind = .store := by
  unfold deleteIf at h
  split at h
  · rcases bind_eq_error_iff.mp h with hdelete | ⟨changed, -, hdone⟩
    · exact FileCollection.kind_of_deleteIf hdelete
    · cases hdone
  · rcases bind_eq_error_iff.mp h with hrefuse | ⟨⟨⟩, -, hrest⟩
    · unfold refuse at hrefuse
      split at hrefuse <;> cases hrefuse
      rfl
    · rcases bind_eq_error_iff.mp hrest with hdelete | ⟨changed, -, hdone⟩
      · exact Database.kind_of_deleteIf hdelete
      · cases hdone

end World

/-! ### Purges on any medium -/

section

variable {w : World} {key : String} {doc : Document} {stored : Json}

theorem run_purge_deleteIf {α : Type} (h : Dict.get? doc expiryField = some stored) :
    (purge (α := α) key doc).run World.perform w =
      match w.deleteIf key expiryField stored with
      | .ok (_, w') => (.error (.expired key), w')
      | .error e => (.error e, w) := by
  rw [purge, h]
  change ((Program.ofExcept (w.settleWith (w.deleteIf key expiryField stored)).1).bind _).run
    World.perform (w.settleWith (w.deleteIf key expiryField stored)).2 = _
  rcases w.deleteIf key expiryField stored with e | ⟨removed, w'⟩ <;> rfl

theorem run_findStored_eq (w : World) (key : String) : (findStored key).run World.perform w =
    (match w.find key with
      | .ok (some doc) => .ok doc
      | .ok none => .error (.nothingStored key)
      | .error e => .error e, w) := by
  change ((Program.ofExcept (w.find key)).bind _).run World.perform w = _
  rcases w.find key with e | _ | doc <;> rfl

end

theorem exists_text_of_expiryOf? {doc : Document} {t : Instant} (h : expiryOf? doc = some t) :
    ∃ text, Dict.get? doc expiryField = some (.str text) := by
  obtain ⟨text, htext, -⟩ := Option.bind_eq_some_iff.mp h
  obtain ⟨value, hvalue, hstr⟩ := Option.bind_eq_some_iff.mp htext
  cases value with
  | str s => exact ⟨s, hvalue⟩
  | _ => cases hstr

theorem TokenDocument.expiryOf?_of_document {doc : Document} {d : TokenDocument}
    (h : ofDocument? doc = some d) : expiryOf? doc = some d.expiresAt := by
  simp only [ofDocument?, Option.bind_eq_bind, Option.bind_eq_some_iff] at h
  obtain ⟨_, -, _, -, _, -, expiresAt, hexpiry, _, -, _, -, hd⟩ := h
  cases hd
  exact hexpiry

theorem SealedDocument.expiryOf?_of_document {doc : Document} {d : SealedDocument}
    (h : ofDocument? doc = some d) : expiryOf? doc = some d.expiresAt := by
  simp only [ofDocument?, Option.bind_eq_bind, Option.bind_eq_some_iff] at h
  obtain ⟨_, -, _, -, expiresAt, hexpiry, hd⟩ := h
  cases hd
  exact hexpiry

namespace StoreKind

/-! ### What has expired -/

/-- When a document of a back end expires. Neither a blob nor a key is looked at. -/
def expiryIn? : StoreKind → Document → Option Instant
  | .memory, _ => none
  | .documents, doc => (TokenDocument.ofDocument? doc).map (·.expiresAt)
  | .sealedDocuments _, doc => (SealedDocument.ofDocument? doc).map (·.expiresAt)

def expiry? (b : StoreKind) (w : World) (key : String) : Option Instant :=
  match b with
  | .memory => (Dict.get? w.memory key).map (·.expiresAt)
  | b => do b.expiryIn? (← (← (w.find key).toOption))

/-- Why the document of a key cannot be deleted. The store in memory has none. -/
def unreclaimed? : StoreKind → World → String → Option Failure
  | .memory, _, _ => none
  | _, w, key => do
    let doc ← (← (w.find key).toOption)
    match w.deleteIf key expiryField (← Dict.get? doc expiryField) with
    | .ok _ => none
    | .error e => some e

variable {b : StoreKind} {w : World} {key : String} {t : Instant}

theorem expiry?_of_held {e : StoredEntry} (h : b.held? w key = some e) :
    b.expiry? w key = some e.expiresAt := by
  cases b with
  | memory =>
    have he : Dict.get? w.memory key = some e := h
    simp [expiry?, he]
  | documents =>
    simp only [held?, Option.bind_eq_bind, Option.bind_eq_some_iff] at h
    obtain ⟨found, hfind, doc, rfl, d, hd, he⟩ := h
    cases he
    simp [expiry?, expiryIn?, hfind, hd, TokenDocument.entry]
  | sealedDocuments ck =>
    simp only [held?, Option.bind_eq_bind, Option.bind_eq_some_iff] at h
    obtain ⟨found, hfind, doc, rfl, d, hd, p, -, he⟩ := h
    cases he
    simp [expiry?, expiryIn?, hfind, hd]

theorem expiry?_of_found (hb : b ≠ .memory) {doc : Document}
    (hfind : w.find key = .ok (some doc)) : b.expiry? w key = b.expiryIn? doc := by
  cases b with
  | memory => exact absurd rfl hb
  | _ => simp [expiry?, hfind, Except.toOption]

theorem exists_document (hb : b ≠ .memory) (h : b.expiry? w key = some t) :
    ∃ doc text, w.find key = .ok (some doc) ∧ b.expiryIn? doc = some t ∧
      Dict.get? doc expiryField = some (.str text) := by
  obtain ⟨doc, hfind⟩ : ∃ doc, w.find key = .ok (some doc) := by
    cases hfound : w.find key with
    | error e => cases b <;> simp_all [expiry?, Except.toOption]
    | ok found =>
      cases found with
      | none => cases b <;> simp_all [expiry?, Except.toOption]
      | some doc => exact ⟨doc, rfl⟩
  have hexpiry : b.expiryIn? doc = some t := (expiry?_of_found hb hfind).symm.trans h
  have htext : expiryOf? doc = some t := by
    cases b with
    | memory => exact absurd rfl hb
    | documents =>
      obtain ⟨d, hd, rfl⟩ := Option.map_eq_some_iff.mp hexpiry
      exact TokenDocument.expiryOf?_of_document hd
    | sealedDocuments ck =>
      obtain ⟨d, hd, rfl⟩ := Option.map_eq_some_iff.mp hexpiry
      exact SealedDocument.expiryOf?_of_document hd
  obtain ⟨text, hget⟩ := exists_text_of_expiryOf? htext
  exact ⟨doc, text, hfind, hexpiry, hget⟩

theorem payload_ne_expired (ck : CipherKey) (data key : String) :
    SealedDocument.payload ck data ≠ .error (.expired key) := by
  unfold SealedDocument.payload
  split
  · exact nofun
  · unfold CipherKey.decrypt
    split
    · next heq =>
      split at heq
      · cases heq
        exact nofun
      · split at heq <;> cases heq
        exact nofun
    · split <;> exact nofun

theorem opened_eq (hb : b ≠ .memory) (key : String) (doc : Document) :
    ∃ refusal result, refusal ≠ .expired key ∧ result ≠ .error (.expired key) ∧
      b.opened key doc = match b.expiryIn? doc with
        | none => .fail refusal
        | some t => .step .now fun now =>
          if t.before now then purge key doc else Program.ofExcept result := by
  cases b with
  | memory => exact absurd rfl hb
  | documents =>
    change ∃ refusal result, _ ∧ _ ∧ TokenDocument.loadFrom key doc =
      match (TokenDocument.ofDocument? doc).map (·.expiresAt) with
      | none => .fail refusal
      | some t => .step .now fun now => _
    unfold TokenDocument.loadFrom
    cases TokenDocument.ofDocument? doc with
    | none => exact ⟨.tokenDocument key, .error .payload, nofun, nofun, rfl⟩
    | some d => exact ⟨.tokenDocument key, .ok (d.entry key), nofun, nofun, rfl⟩
  | sealedDocuments ck =>
    change ∃ refusal result, _ ∧ _ ∧ SealedDocument.loadFrom ck key doc =
      match (SealedDocument.ofDocument? doc).map (·.expiresAt) with
      | none => .fail refusal
      | some t => .step .now fun now => _
    unfold SealedDocument.loadFrom
    cases SealedDocument.ofDocument? doc with
    | none => exact ⟨.sealedDocument key, .error .payload, nofun, nofun, rfl⟩
    | some d =>
      have hpayload := payload_ne_expired ck d.data key
      refine ⟨.sealedDocument key,
        (SealedDocument.payload ck d.data).map fun p => ⟨p.tokens, p.credentials, d.expiresAt⟩,
        nofun, ?_, ?_⟩
      · cases hp : SealedDocument.payload ck d.data with
        | ok p => exact nofun
        | error e =>
          rw [hp] at hpayload
          exact fun he => hpayload (by cases he; rfl)
      · refine congrArg (Program.step _) (funext fun now => ?_)
        change (if d.expiresAt.before now then purge key doc else _) = if d.expiresAt.before now
          then purge key doc else _
        cases SealedDocument.payload ck d.data <;> rfl

theorem run_load_found (hb : b ≠ .memory) {doc : Document} (hfind : w.find key = .ok (some doc)) :
    (b.store.load key).run World.perform w = (b.opened key doc).run World.perform w := by
  rw [load_eq hb, Program.run_bind, run_findStored_eq, hfind]

theorem run_load_purge (hb : b ≠ .memory) {doc : Document} (hfind : w.find key = .ok (some doc))
    (ht : b.expiryIn? doc = some t) (hpast : t.before w.clock = true) :
    (b.store.load key).run World.perform w = (purge key doc).run World.perform w := by
  obtain ⟨refusal, result, -, -, hopened⟩ := opened_eq hb key doc
  rw [run_load_found hb hfind, hopened, ht]
  change Program.run World.perform (if t.before w.clock then _ else _) w = _
  rw [if_pos hpast]

theorem unreclaimed?_of_found (hb : b ≠ .memory) {doc : Document} {text : String}
    (hfind : w.find key = .ok (some doc)) (hget : Dict.get? doc expiryField = some (.str text)) :
    b.unreclaimed? w key =
      match w.deleteIf key expiryField (.str text) with
      | .ok _ => none
      | .error e => some e := by
  cases b with
  | memory => exact absurd rfl hb
  | _ => simp [unreclaimed?, hfind, hget, Except.toOption]

theorem run_load_expired (ht : b.expiry? w key = some t) (hpast : t.before w.clock = true) :
    ∃ w', (b.store.load key).run World.perform w =
        (.error ((b.unreclaimed? w key).getD (.expired key)), w') ∧
      ∀ e, b.unreclaimed? w key = some e → e.kind = .store ∧ w' = w := by
  by_cases hb : b = .memory
  · subst hb
    obtain ⟨e, he, rfl⟩ := Option.map_eq_some_iff.mp ht
    obtain ⟨w', hrun, -⟩ := memory.keeps.load (rfl : w.memory = _) key
    rw [Memory.load_expired he hpast] at hrun
    exact ⟨w', hrun, nofun⟩
  · obtain ⟨doc, text, hfind, hin, hget⟩ := exists_document hb ht
    rw [run_load_purge hb hfind hin hpast, run_purge_deleteIf hget,
      unreclaimed?_of_found hb hfind hget]
    cases hdelete : w.deleteIf key expiryField (.str text) with
    | ok deleted => exact ⟨deleted.2, rfl, nofun⟩
    | error e =>
      refine ⟨w, rfl, ?_⟩
      rintro f ⟨⟩
      exact ⟨World.kind_of_deleteIf hdelete, rfl⟩

theorem unreclaimed?_of_holds {docs : Holdings} (h : w.Holds docs)
    (ht : b.expiry? w key = some t) : b.unreclaimed? w key = none := by
  by_cases hb : b = .memory
  · rw [hb]
    rfl
  · obtain ⟨doc, text, hfind, -, hget⟩ := exists_document hb ht
    obtain ⟨w', hdelete, -⟩ := h.deleteIf plainName_expiryField key text
    rw [unreclaimed?_of_found hb hfind hget, hdelete]

theorem holds_of_image {m : Dict StoredEntry} (hb : b ≠ .memory) (h : b.image m w) :
    ∃ docs, w.Holds docs := by
  cases b with
  | memory => exact absurd rfl hb
  | documents => exact ⟨_, h⟩
  | sealedDocuments ck =>
    obtain ⟨docs, hholds, -⟩ := h
    exact ⟨docs, hholds⟩

/-- A load of what has expired gives out nothing, and does not look at what is sealed. It reports
the expiry, or else that the medium did not let go of the document, which is then still there; where
the medium takes writes, it reports the expiry. -/
theorem load_of_expired (ht : b.expiry? w key = some t) (hpast : t.before w.clock = true) :
    ∃ w', (b.store.load key).run World.perform w =
        (.error ((b.unreclaimed? w key).getD (.expired key)), w') ∧
      (∀ e, b.held? w key = some e → e.expiresAt = t) ∧
      (∀ e, b.unreclaimed? w key = some e → e.kind = .store ∧ w' = w) ∧
      (∀ docs, w.Holds docs → b.unreclaimed? w key = none) ∧
      (∀ a : StoreKind, a ≠ .memory → a.Reached w → w.fault = none →
        b.unreclaimed? w key = none) := by
  obtain ⟨w', hrun, hunreclaimed⟩ := run_load_expired ht hpast
  refine ⟨w', hrun, fun e he => ?_, hunreclaimed,
    fun docs hholds => unreclaimed?_of_holds hholds ht, fun a ha hreached hnoFault => ?_⟩
  · rw [expiry?_of_held he] at ht
    exact Option.some.inj ht
  · obtain ⟨m, himage⟩ := hreached.image
    rw [World.withoutFault_of_noFault hnoFault] at himage
    obtain ⟨docs, hholds⟩ := holds_of_image ha himage
    exact unreclaimed?_of_holds hholds ht

end StoreKind

/-! ### Two files with an expired document -/

namespace Overdue

def later : Instant := (Instant.epoch.addSeconds? 1).getD .epoch

def world (path : String) (doc : Document) : World :=
  { World.isolated later .empty with collection := .file ⟨path, [("u1", doc)]⟩ }

def corrupt : Document :=
  [(dataField, .str "?"), (expiryField, .str (Timestamp.text .epoch))]

theorem expiry?_corrupt (key : CipherKey) : (StoreKind.sealedDocuments key).expiry?
    (world "tokens.json" corrupt) "u1" = some .epoch := by
  have hfind : (world "tokens.json" corrupt).find "u1" = .ok (some corrupt) := rfl
  have hexpiry : expiryOf? corrupt = some .epoch := Timestamp.read?_text .epoch
  have hread : SealedDocument.ofDocument? corrupt = some ⟨"?", .epoch⟩ := by
    unfold SealedDocument.ofDocument?
    rw [hexpiry]
    rfl
  rw [StoreKind.expiry?_of_found (b := .sealedDocuments key) nofun hfind, StoreKind.expiryIn?,
    hread]
  rfl

theorem reclaimed_unopened :
    (StoreKind.sealedDocuments TokenStore.trialKey).expiry? (world "tokens.json" corrupt) "u1" =
      some .epoch ∧
    Instant.epoch.before (world "tokens.json" corrupt).clock = true ∧
    (((StoreKind.sealedDocuments TokenStore.trialKey).store.load "u1").run World.perform
      (world "tokens.json" corrupt)).1 = .error (.expired "u1") := by
  have hexpiry := expiry?_corrupt TokenStore.trialKey
  have hpast : Instant.epoch.before (world "tokens.json" corrupt).clock = true := by decide
  have hholds : (world "tokens.json" corrupt).Holds fun key => Dict.get? [("u1", corrupt)] key :=
    ⟨rfl, fun text => ⟨_, rfl⟩, fun _ => rfl⟩
  obtain ⟨w', hrun, -, -, hreclaimed, -⟩ := StoreKind.load_of_expired hexpiry hpast
  rw [hreclaimed _ hholds] at hrun
  exact ⟨hexpiry, hpast, congrArg Prod.fst hrun⟩

def plain : Document := TokenDocument.fields "u1" ⟨"at_1", "rt_1", 60⟩ none .epoch

/-- In a directory that is gone, an expired document makes its load a failure of the store. -/
theorem unreclaimed_gone :
    StoreKind.documents.expiry? (world "gone/tokens.json" plain) "u1" = some .epoch ∧
    Instant.epoch.before (world "gone/tokens.json" plain).clock = true ∧
    ((StoreKind.documents.store.load "u1").run World.perform
      (world "gone/tokens.json" plain)).1 = .error (.fileWrite .temporary) ∧
    (Failure.fileWrite .temporary).kind ≠ .notFound := by
  have hfind : (world "gone/tokens.json" plain).find "u1" = .ok (some plain) := rfl
  have hexpiry : StoreKind.documents.expiry? (world "gone/tokens.json" plain) "u1" =
      some .epoch := by
    rw [StoreKind.expiry?_of_found (b := .documents) nofun hfind, StoreKind.expiryIn?, plain,
      TokenDocument.ofDocument?_fields]
    rfl
  have hpast : Instant.epoch.before (world "gone/tokens.json" plain).clock = true := by decide
  have hget : Dict.get? plain expiryField = some (.str (Timestamp.text .epoch)) :=
    TokenDocument.get?_expiry _ _ _ _
  have hdelete : (world "gone/tokens.json" plain).deleteIf "u1" expiryField
      (.str (Timestamp.text .epoch)) = .error (.fileWrite .temporary) := rfl
  have hunreclaimed := StoreKind.unreclaimed?_of_found (b := .documents) nofun hfind hget
  rw [hdelete] at hunreclaimed
  obtain ⟨w', hrun, -⟩ := StoreKind.run_load_expired hexpiry hpast
  rw [hunreclaimed] at hrun
  exact ⟨hexpiry, hpast, congrArg Prod.fst hrun, by decide⟩

end Overdue
end TokenKeeper
