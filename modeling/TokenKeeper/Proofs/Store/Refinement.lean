import TokenKeeper.Proofs.Documents
import TokenKeeper.Proofs.Store.Contents
import TokenKeeper.Store.Basic

/-!
# Stores as dictionaries of entries

Each store answers as a dictionary of entries in memory would, up to a view of its own: the store in
memory and the sealed one show an entry as it was saved, and the plain one shows what its documents
keep. `TokenStore.Keeps` says so for one step; the entries behind a world are the invariant.
-/
namespace TokenKeeper

/-- What the stores leave alone. -/
structure World.SameOutside (w w' : World) : Prop where
  clock : w'.clock = w.clock
  endpoint : w'.endpoint = w.endpoint
  posts : w'.posts = w.posts
  host : w'.host = w.host
  sent : w'.sent = w.sent
  counted : w'.counted = w.counted
  flight : w'.flight = w.flight

/-- What only the stores touch. -/
structure World.SameInside (w w' : World) : Prop where
  collection : w'.collection = w.collection
  disk : w'.disk = w.disk
  database : w'.database = w.database
  memory : w'.memory = w.memory
  fault : w'.fault = w.fault

theorem World.SameOutside.refl (w : World) : w.SameOutside w := ⟨rfl, rfl, rfl, rfl, rfl, rfl, rfl⟩

theorem World.SameOutside.symm {a b : World} (h : a.SameOutside b) : b.SameOutside a :=
  ⟨h.clock.symm, h.endpoint.symm, h.posts.symm, h.host.symm, h.sent.symm, h.counted.symm,
    h.flight.symm⟩

theorem World.SameOutside.trans {a b c : World} (h : a.SameOutside b) (h' : b.SameOutside c) :
    a.SameOutside c :=
  ⟨h'.clock.trans h.clock, h'.endpoint.trans h.endpoint, h'.posts.trans h.posts,
    h'.host.trans h.host, h'.sent.trans h.sent, h'.counted.trans h.counted,
    h'.flight.trans h.flight⟩

theorem World.SameButMedium.sameOutside {w w' : World} (h : w.SameButMedium w') :
    w.SameOutside w' := by
  rw [h]
  exact ⟨rfl, rfl, rfl, rfl, rfl, rfl, rfl⟩

theorem World.Changed.sameOutside {w w' : World}
    {file : FileCollection → FileCollection × Disk → Prop} {table : String → Database → Prop}
    (h : w.Changed file table w') : w.SameOutside w' := by
  cases h <;> exact ⟨rfl, rfl, rfl, rfl, rfl, rfl, rfl⟩

theorem World.SameButMedium.refl (w : World) : w.SameButMedium w := rfl

theorem World.Holds.congr {w w' : World} {docs : Holdings} (h : w.Holds docs)
    (hw : w.SameInside w') : w'.Holds docs := by
  obtain ⟨hnoFault, hmedium⟩ := h
  refine ⟨hw.fault.trans hnoFault, ?_⟩
  rw [hw.collection, hw.disk, hw.database]
  exact hmedium

/-- A store that holds entries in a world answers with what it shows of them. -/
structure TokenStore.Keeps (store : TokenStore) (shown : String → StoredEntry → StoredEntry)
    (image : Dict StoredEntry → World → Prop) : Prop where
  load : ∀ {m w}, image m w → ∀ key, ∃ w',
    (store.load key).run World.perform w = ((Memory.load m w.clock key).1.map (shown key), w') ∧
      image (Memory.load m w.clock key).2 w' ∧ w.SameOutside w'
  save : ∀ {m w}, image m w → ∀ key tokens credentials expiresAt, ∃ w',
    (store.save key tokens credentials expiresAt).run World.perform w = (.ok (), w') ∧
      image (Memory.save m key tokens credentials expiresAt) w' ∧ w.SameOutside w'
  frame : ∀ {m w w'}, image m w → w.SameInside w' → image m w'

/-! ### The store in memory -/

namespace Memory

variable {m : Dict StoredEntry} {now : Instant} {key : String} {e : StoredEntry}

theorem load_absent (h : Dict.get? m key = none) :
    load m now key = (.error (.nothingStored key), m) := by
  rw [load, h]

theorem load_expired (h : Dict.get? m key = some e) (he : e.isExpiredAt now = true) :
    load m now key = (.error (.expired key), Dict.erase m key) := by
  rw [load, h]
  exact if_pos he

theorem load_live (h : Dict.get? m key = some e) (he : e.isExpiredAt now = false) :
    load m now key = (.ok e, m) := by
  rw [load, h]
  exact if_neg (by rw [he]; decide)

theorem get?_save (m : Dict StoredEntry) (key : String) (tokens : Tokens)
    (credentials : Option Credentials) (expiresAt : Instant) :
    ∃ e, Dict.get? (save m key tokens credentials expiresAt) key = some e ∧
      e.tokens = tokens ∧ e.expiresAt = expiresAt := by
  rw [save, Dict.get?_insert, if_pos rfl]
  exact ⟨_, rfl, rfl, rfl⟩

end Memory

namespace TokenStore

theorem memory_keeps : memory.Keeps (fun _ e => e) fun m w => w.memory = m where
  load := by
    rintro m w rfl key
    refine ⟨{ w with memory := (Memory.load w.memory w.clock key).2 }, ?_, rfl,
      ⟨rfl, rfl, rfl, rfl, rfl, rfl, rfl⟩⟩
    change (Program.ofExcept (Memory.load w.memory w.clock key).1).run World.perform
      { w with memory := (Memory.load w.memory w.clock key).2 } = _
    cases (Memory.load w.memory w.clock key).1 <;> rfl
  save := by
    rintro m w rfl key tokens credentials expiresAt
    exact ⟨_, rfl, rfl, ⟨rfl, rfl, rfl, rfl, rfl, rfl, rfl⟩⟩
  frame := by
    rintro m w w' rfl hw
    exact hw.memory

end TokenStore

/-! ### Steps on a collection of texts -/

section

variable {w : World} {docs : Holdings}

theorem run_findStored (h : w.Holds docs) (key : String) :
    (findStored key).run World.perform w =
      match docs key with
      | some doc => (.ok doc, w)
      | none => (.error (.nothingStored key), w) := by
  change (((Program.ofExcept (w.find key)).bind _).run World.perform w) = _
  rw [h.find key]
  cases docs key <;> rfl

theorem plainName_expiryField : Row.PlainName expiryField := by
  have hall : expiryField.toList.all
      (fun c => c != '.' && c != '[' && c != '"' && c != '\x00') = true := by decide
  refine ⟨by decide, fun c hc => ?_⟩
  have hc' := List.all_eq_true.mp hall c hc
  simp only [Bool.and_eq_true, bne_iff_ne] at hc'
  exact ⟨hc'.1.1.1, hc'.1.1.2, hc'.1.2, hc'.2⟩

theorem perform_deleteIf (h : w.Holds docs) (key expiry : String) :
    ∃ w', World.perform (.deleteIf key expiryField (.str expiry)) w =
        (.ok (docs.hasText key expiryField expiry), w') ∧ w.SameButMedium w' ∧
      w'.Holds (docs.deleteIf key expiryField expiry) := by
  obtain ⟨w', hdelete, hsame, hholds⟩ := h.deleteIf plainName_expiryField key expiry
  refine ⟨w', ?_, hsame, hholds⟩
  change w.settleWith (w.deleteIf key expiryField (.str expiry)) = _
  rw [hdelete]
  rfl

theorem run_purge {α : Type} (h : w.Holds docs) {key : String} {doc : Document} {expiry : String}
    (hdoc : docs key = some doc) (hexpiry : Dict.get? doc expiryField = some (.str expiry)) :
    ∃ w', (purge (α := α) key doc).run World.perform w = (.error (.expired key), w') ∧
      w.SameButMedium w' ∧ w'.Holds (docs.put key none) := by
  obtain ⟨w', hdelete, hsame, hholds⟩ := perform_deleteIf h key expiry
  have hhas : docs.hasText key expiryField expiry = true := by
    rw [Holdings.hasText, hdoc, Option.bind_some, hexpiry, Option.bind_some]
    exact beq_self_eq_true _
  rw [Holdings.deleteIf, if_pos hhas] at hholds
  refine ⟨w', ?_, hsame, hholds⟩
  rw [purge, hexpiry]
  change (((Program.ofExcept (World.perform (.deleteIf key expiryField (.str expiry)) w).1).bind
    _).run World.perform (World.perform (.deleteIf key expiryField (.str expiry)) w).2) = _
  rw [hdelete]
  rfl

theorem run_load (h : w.Holds docs) {m : Dict StoredEntry} {key : String}
    {body : Document → Program StoredEntry} {view : StoredEntry → StoredEntry}
    (hnone : Dict.get? m key = none → docs key = none)
    (hsome : ∀ e, Dict.get? m key = some e → ∃ doc, docs key = some doc ∧
      Dict.get? doc expiryField = some (.str (Timestamp.text e.expiresAt)) ∧
      (body doc).run World.perform w =
        (if e.isExpiredAt w.clock then purge key doc else .done (view e)).run World.perform w) :
    ∃ w' docs', ((findStored key).bind body).run World.perform w =
        ((Memory.load m w.clock key).1.map view, w') ∧
      w.SameButMedium w' ∧ w'.Holds docs' ∧
      ((Memory.load m w.clock key).2 = m ∧ docs' = docs ∨
        (Memory.load m w.clock key).2 = Dict.erase m key ∧ docs' = docs.put key none) := by
  have hfind := run_findStored h key
  cases he : Dict.get? m key with
  | none =>
    rw [hnone he] at hfind
    rw [Memory.load_absent he, Program.run_bind, hfind]
    exact ⟨w, docs, rfl, .refl w, h, Or.inl ⟨rfl, rfl⟩⟩
  | some e =>
    obtain ⟨doc, hdoc, hexpiry, hbody⟩ := hsome e he
    rw [hdoc] at hfind
    rw [Program.run_bind, hfind]
    cases hexpired : e.isExpiredAt w.clock with
    | true =>
      obtain ⟨w', hpurge, hsame, hholds⟩ := run_purge (α := StoredEntry) h hdoc hexpiry
      rw [hexpired, if_pos rfl, hpurge] at hbody
      rw [Memory.load_expired he hexpired]
      exact ⟨w', _, hbody, hsame, hholds, Or.inr ⟨rfl, rfl⟩⟩
    | false =>
      rw [hexpired, if_neg (by decide)] at hbody
      rw [Memory.load_live he hexpired]
      exact ⟨w, docs, hbody, .refl w, h, Or.inl ⟨rfl, rfl⟩⟩

theorem perform_upsert (h : w.Holds docs) {fs : Dict String} (hfs : Row.WellNamed fs)
    (key : String) : ∃ w', World.perform (.upsert key (Row.strings fs)) w = (.ok (), w') ∧
      w.SameButMedium w' ∧ w'.Holds (docs.upsert key fs) := by
  obtain ⟨w', hupsert, hsame, hholds⟩ := h.upsert hfs key
  refine ⟨w', ?_, hsame, hholds⟩
  change w.settle (w.upsert key (Row.strings fs)) = _
  rw [hupsert]
  rfl

theorem run_upsert (key : String) (fields : Document) (w : World) :
    (do Program.ofExcept (← Program.perform (.upsert key fields)) : Program Unit).run
      World.perform w = World.perform (.upsert key fields) w := by
  change (Program.ofExcept (World.perform (.upsert key fields) w).1).run World.perform
    (World.perform (.upsert key fields) w).2 = _
  rcases World.perform (.upsert key fields) w with ⟨e | u, w'⟩ <;> rfl

end

/-! ### Plain documents -/

namespace TokenDocument

/-- What a plain document shows of an entry: no lifetime, and a complete registration only, under
the key of the document. -/
def shown (key : String) (e : StoredEntry) : StoredEntry :=
  ⟨⟨e.tokens.accessToken, e.tokens.refreshToken, 0⟩,
    (e.credentials.filter Credentials.isComplete).map fun c => ⟨key, c.clientId, c.clientSecret⟩,
    e.expiresAt⟩

def loadFrom (key : String) (doc : Document) : Program StoredEntry :=
  match ofDocument? doc with
  | none => .fail (.tokenDocument key)
  | some d => do
    if d.expiresAt.before (← Program.perform .now) then purge key doc
    else return d.entry key

def holdings (m : Dict StoredEntry) : Holdings := fun key =>
  (Dict.get? m key).map fun e => fields key e.tokens e.credentials e.expiresAt

theorem holdings_erase (m : Dict StoredEntry) (key : String) :
    holdings (Dict.erase m key) = (holdings m).put key none := by
  funext other
  rw [holdings, Dict.get?_erase, Holdings.put]
  split <;> rfl

theorem holdings_save (m : Dict StoredEntry) (key : String) (tokens : Tokens)
    (credentials : Option Credentials) (expiresAt : Instant) :
    holdings (Memory.save m key tokens credentials expiresAt) =
      (holdings m).upsert key (Dict.ofList (texts key tokens credentials expiresAt)) := by
  funext other
  rw [holdings, Memory.save, Dict.get?_insert, Holdings.upsert, Holdings.put]
  by_cases hk : key = other
  · subst hk
    rw [if_pos rfl, if_pos rfl, Option.map_some, ← fields_eq_strings, holdings]
    cases Dict.get? m key with
    | none =>
      have hself := (ordered_fields key tokens credentials expiresAt).ofList_eq
      have hnone : ((Credentials.given credentials).orElse fun _ => none) =
          Credentials.given credentials := by
        cases Credentials.given credentials <;> rfl
      rw [Option.map_none, Option.getD_none, Option.bind_none, hnone, fields_given]
      exact congrArg some hself.symm
    | some e =>
      rw [Option.map_some, Option.getD_some, insertAll_fields]
      rfl
  · rw [if_neg hk, if_neg hk]
    rfl

theorem entry_fields (key : String) (tokens : Tokens) (credentials : Option Credentials)
    (expiresAt : Instant) :
    entry key ⟨tokens.accessToken, tokens.refreshToken, expiresAt,
      ((Credentials.given credentials).map (·.clientId)).getD "",
      ((Credentials.given credentials).map (·.clientSecret)).getD ""⟩ =
        shown key ⟨tokens, credentials, expiresAt⟩ := by
  rw [entry, shown]
  cases credentials with
  | none => rfl
  | some c =>
    cases hblank : c.isBlank with
    | true =>
      rw [Credentials.given_of_blank hblank, Option.filter_some,
        Credentials.not_complete_of_blank hblank]
      rfl
    | false =>
      have hsame : (Credentials.mk key c.clientId c.clientSecret).isComplete = c.isComplete := rfl
      rw [Credentials.given_of_not_blank hblank, Option.filter_some]
      simp only [Option.map_some, Option.getD_some, hsame]
      cases c.isComplete <;> rfl

theorem wellNamed_texts (key : String) (tokens : Tokens) (credentials : Option Credentials)
    (expiresAt : Instant) : Row.WellNamed (Dict.ofList (texts key tokens credentials expiresAt)) :=
  ⟨(Dict.ordered_ofList _).nodup_keys, nulFree_texts key tokens credentials expiresAt⟩

theorem perform_upsert {w : World} {m : Dict StoredEntry} (h : w.Holds (holdings m)) (key : String)
    (tokens : Tokens) (credentials : Option Credentials) (expiresAt : Instant) :
    ∃ w', World.perform (.upsert key (fields key tokens credentials expiresAt)) w = (.ok (), w') ∧
      w.SameButMedium w' ∧
      w'.Holds (holdings (Memory.save m key tokens credentials expiresAt)) := by
  rw [fields_eq_strings, holdings_save]
  exact TokenKeeper.perform_upsert h (wellNamed_texts key tokens credentials expiresAt) key

end TokenDocument

theorem TokenStore.documents_keeps :
    documents.Keeps TokenDocument.shown fun m w => w.Holds (TokenDocument.holdings m) where
  load := by
    intro m w h key
    have hnone : Dict.get? m key = none → TokenDocument.holdings m key = none := by
      intro he
      rw [TokenDocument.holdings, he]
      rfl
    have hsome : ∀ e, Dict.get? m key = some e → ∃ doc, TokenDocument.holdings m key = some doc ∧
        Dict.get? doc expiryField = some (.str (Timestamp.text e.expiresAt)) ∧
        (TokenDocument.loadFrom key doc).run World.perform w =
          (if e.isExpiredAt w.clock then purge key doc
            else .done (TokenDocument.shown key e)).run World.perform w := by
      intro e he
      refine ⟨TokenDocument.fields key e.tokens e.credentials e.expiresAt, ?_,
        TokenDocument.get?_expiry _ _ _ _, ?_⟩
      · rw [TokenDocument.holdings, he]
        rfl
      · unfold TokenDocument.loadFrom
        rw [TokenDocument.ofDocument?_fields]
        simp only [TokenDocument.entry_fields]
        rfl
    obtain ⟨w', docs', hrun, hsame, hholds, hafter⟩ := run_load h hnone hsome
    refine ⟨w', hrun, ?_, hsame.sameOutside⟩
    rcases hafter with ⟨hm, hdocs⟩ | ⟨hm, hdocs⟩
    · rw [hm, ← hdocs]
      exact hholds
    · rw [hm, TokenDocument.holdings_erase, ← hdocs]
      exact hholds
  save := by
    intro m w h key tokens credentials expiresAt
    obtain ⟨w', hupsert, hsame, hholds⟩ :=
      TokenDocument.perform_upsert h key tokens credentials expiresAt
    exact ⟨w', (run_upsert key _ w).trans hupsert, hholds, hsame.sameOutside⟩
  frame := fun h hw => h.congr hw

/-! ### Sealed documents -/

namespace SealedDocument

def loadFrom (key : CipherKey) (callerKey : String) (doc : Document) : Program StoredEntry :=
  match ofDocument? doc with
  | none => .fail (.sealedDocument callerKey)
  | some d => do
    if d.expiresAt.before (← Program.perform .now) then purge callerKey doc
    else
      let p ← Program.ofExcept (payload key d.data)
      return ⟨p.tokens, p.credentials, d.expiresAt⟩

/-- Each entry is sealed in the document of its key, and there are no other documents. -/
def Seals (key : CipherKey) (m : Dict StoredEntry) (docs : Holdings) : Prop :=
  ∀ callerKey, match Dict.get? m callerKey with
    | some e => ∃ nonce,
        docs callerKey = some (fields key nonce callerKey ⟨e.tokens, e.credentials⟩ e.expiresAt)
    | none => docs callerKey = none

theorem Seals.absent {key : CipherKey} {m : Dict StoredEntry} {docs : Holdings}
    (h : Seals key m docs) {callerKey : String} (he : Dict.get? m callerKey = none) :
    docs callerKey = none := by
  have hkey := h callerKey
  rw [he] at hkey
  exact hkey

theorem Seals.present {key : CipherKey} {m : Dict StoredEntry} {docs : Holdings}
    (h : Seals key m docs) {callerKey : String} {e : StoredEntry}
    (he : Dict.get? m callerKey = some e) : ∃ nonce,
      docs callerKey = some (fields key nonce callerKey ⟨e.tokens, e.credentials⟩ e.expiresAt) := by
  have hkey := h callerKey
  rw [he] at hkey
  exact hkey

theorem Seals.credentials? {key : CipherKey} {m : Dict StoredEntry} {docs : Holdings}
    (h : Seals key m docs) (callerKey : String) :
    (docs callerKey).bind (SealedDocument.credentials? key) =
      (Dict.get? m callerKey).bind (·.credentials) := by
  cases he : Dict.get? m callerKey with
  | none =>
    rw [h.absent he]
    rfl
  | some e =>
    obtain ⟨nonce, hdoc⟩ := h.present he
    rw [hdoc, Option.bind_some, credentials?_fields]
    rfl

theorem Seals.erase {key : CipherKey} {m : Dict StoredEntry} {docs : Holdings}
    (h : Seals key m docs) (callerKey : String) :
    Seals key (Dict.erase m callerKey) (docs.put callerKey none) := by
  intro other
  rw [Dict.get?_erase]
  by_cases hk : callerKey = other
  · subst hk
    rw [if_pos rfl]
    exact Holdings.put_self docs callerKey none
  · rw [if_neg hk, Holdings.put_other _ hk]
    exact h other

theorem Seals.insert {key : CipherKey} {m : Dict StoredEntry} {docs : Holdings}
    (h : Seals key m docs) (nonce : Nonce) (callerKey : String) (p : Payload)
    (expiresAt : Instant) :
    Seals key (Dict.insert m callerKey ⟨p.tokens, p.credentials, expiresAt⟩)
      (docs.upsert callerKey (texts key nonce callerKey p expiresAt)) := by
  intro other
  rw [Dict.get?_insert, Holdings.upsert]
  by_cases hk : callerKey = other
  · subst hk
    rw [if_pos rfl, Holdings.put_self, ← fields_eq_strings]
    refine ⟨nonce, ?_⟩
    cases he : Dict.get? m callerKey with
    | none =>
      rw [h.absent he, Option.getD_none]
      exact congrArg some (ordered_fields _ _ _ _ _).ofList_eq
    | some e =>
      obtain ⟨nonce', hdoc⟩ := h.present he
      rw [hdoc, Option.getD_some, insertAll_fields]
  · rw [if_neg hk, Holdings.put_other _ hk]
    exact h other

theorem wellNamed_texts (key : CipherKey) (nonce : Nonce) (callerKey : String) (p : Payload)
    (expiresAt : Instant) : Row.WellNamed (texts key nonce callerKey p expiresAt) :=
  ⟨(Dict.ordered_ofList _).nodup_keys, nulFree_texts key nonce callerKey p expiresAt⟩

theorem perform_upsert {w : World} {key : CipherKey} {m : Dict StoredEntry} {docs : Holdings}
    (h : w.Holds docs) (hm : Seals key m docs) (nonce : Nonce) (callerKey : String) (p : Payload)
    (expiresAt : Instant) :
    ∃ w', World.perform (.upsert callerKey (fields key nonce callerKey p expiresAt)) w =
        (.ok (), w') ∧ w.SameButMedium w' ∧ ∃ docs', w'.Holds docs' ∧
      Seals key (Dict.insert m callerKey ⟨p.tokens, p.credentials, expiresAt⟩) docs' := by
  obtain ⟨w', hupsert, hsame, hholds⟩ :=
    TokenKeeper.perform_upsert h (wellNamed_texts key nonce callerKey p expiresAt) callerKey
  rw [← fields_eq_strings] at hupsert
  exact ⟨w', hupsert, hsame, _, hholds, hm.insert nonce callerKey p expiresAt⟩

theorem run_credentialsToSeal_of_found {w : World} {callerKey : String} {found : Option Document}
    (hfind : w.find callerKey = .ok found) (key : CipherKey) (credentials : Option Credentials) :
    (TokenStore.credentialsToSeal key callerKey credentials).run World.perform w =
      (.ok ((Credentials.given credentials).orElse fun _ =>
        found.bind (SealedDocument.credentials? key)), w) := by
  unfold TokenStore.credentialsToSeal
  cases Credentials.given credentials with
  | some c => rfl
  | none =>
    change ((Program.ofExcept (w.find callerKey)).bind _).run World.perform w = _
    rw [hfind]
    cases found <;> rfl

theorem run_credentialsToSeal {w : World} {key : CipherKey} {m : Dict StoredEntry} {docs : Holdings}
    (h : w.Holds docs) (hm : Seals key m docs) (callerKey : String)
    (credentials : Option Credentials) :
    (TokenStore.credentialsToSeal key callerKey credentials).run World.perform w =
      (.ok ((Credentials.given credentials).orElse fun _ =>
        (Dict.get? m callerKey).bind (·.credentials)), w) := by
  rw [run_credentialsToSeal_of_found (h.find callerKey), hm.credentials? callerKey]

end SealedDocument

theorem TokenStore.sealedDocuments_keeps (key : CipherKey) :
    (sealedDocuments key).Keeps (fun _ e => e)
      fun m w => ∃ docs, w.Holds docs ∧ SealedDocument.Seals key m docs where
  load := by
    rintro m w ⟨docs, h, hm⟩ callerKey
    have hsome : ∀ e, Dict.get? m callerKey = some e → ∃ doc, docs callerKey = some doc ∧
        Dict.get? doc expiryField = some (.str (Timestamp.text e.expiresAt)) ∧
        (SealedDocument.loadFrom key callerKey doc).run World.perform w =
          (if e.isExpiredAt w.clock then purge callerKey doc else .done e).run World.perform w := by
      intro e he
      obtain ⟨nonce, hdoc⟩ := hm.present he
      refine ⟨_, hdoc, SealedDocument.get?_expiry _ _ _ _ _, ?_⟩
      unfold SealedDocument.loadFrom
      rw [SealedDocument.ofDocument?_fields]
      simp only [SealedDocument.payload_dataOf]
      rfl
    obtain ⟨w', docs', hrun, hsame, hholds, hafter⟩ := run_load h hm.absent hsome
    refine ⟨w', hrun, ⟨docs', hholds, ?_⟩, hsame.sameOutside⟩
    rcases hafter with ⟨hm', hdocs⟩ | ⟨hm', hdocs⟩
    · rw [hm', hdocs]
      exact hm
    · rw [hm', hdocs]
      exact hm.erase callerKey
  save := by
    rintro m w ⟨docs, h, hm⟩ callerKey tokens credentials expiresAt
    have hseal := SealedDocument.run_credentialsToSeal h hm callerKey credentials
    have hdrawn : ({ w with drawn := w.drawn + 1 } : World).Holds docs :=
      h.congr ⟨rfl, rfl, rfl, rfl, rfl⟩
    have hdraw : w.SameOutside { w with drawn := w.drawn + 1 } :=
      ⟨rfl, rfl, rfl, rfl, rfl, rfl, rfl⟩
    obtain ⟨w', hupsert, hsame, hsealed⟩ := SealedDocument.perform_upsert hdrawn hm
      (w.nonces w.drawn) callerKey ⟨tokens, (Credentials.given credentials).orElse fun _ =>
        (Dict.get? m callerKey).bind (·.credentials)⟩ expiresAt
    refine ⟨w', ?_, hsealed, hdraw.trans hsame.sameOutside⟩
    change ((TokenStore.credentialsToSeal key callerKey credentials).bind _).run World.perform w = _
    rw [Program.run_bind, hseal]
    exact (run_upsert callerKey _ _).trans hupsert
  frame := by
    rintro m w w' ⟨docs, h, hm⟩ hw
    exact ⟨docs, h.congr hw, hm⟩

end TokenKeeper
