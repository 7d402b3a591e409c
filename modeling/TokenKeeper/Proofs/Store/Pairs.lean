import TokenKeeper.Proofs.Store.Upserts

/-!
# Pairs that saves store

After a save that succeeds the pair is in what is stored under the key: as the entry in memory, in
fields of a plain document, in the blob of a sealed one. This does not depend on what was stored
before, as long as a table takes the names of the fields as they are meant. A plain document is read
as an entry only if it has a registration that can be read, or none, and a save without a
registration leaves the one that is there as it is.
-/
namespace TokenKeeper.StoreKind

/-- Saves set the fields in which the back end keeps a pair. -/
def SetsPair (b : StoreKind) (w : World) (key : String) : Prop :=
  match b with
  | .memory => True
  | .documents => w.SetsFields key ["caller_key", "access_token", "refresh_token", expiryField]
  | .sealedDocuments _ => w.SetsFields key ["caller_key", dataField, expiryField]

/-- The pair is in what is stored under the key, whatever else is. -/
def StoresPair (b : StoreKind) (w : World) (key : String) (tokens : Tokens)
    (expiresAt : Instant) : Prop :=
  match b with
  | .memory => ∃ e, Dict.get? w.memory key = some e ∧ e.tokens = tokens ∧ e.expiresAt = expiresAt
  | .documents => ∃ doc, w.find key = .ok (some doc) ∧
      textField? doc "access_token" = some tokens.accessToken ∧
      textField? doc "refresh_token" = some tokens.refreshToken ∧
      expiryOf? doc = some expiresAt
  | .sealedDocuments ck => ∃ doc d p, w.find key = .ok (some doc) ∧
      SealedDocument.ofDocument? doc = some d ∧ SealedDocument.payload ck d.data = .ok p ∧
      p.tokens = tokens ∧ d.expiresAt = expiresAt

/-- The entry of a key has the tokens of a pair and its expiry. -/
def HoldsPair (b : StoreKind) (w : World) (key : String) (tokens : Tokens) (expiresAt : Instant) :
    Prop :=
  ∃ e, b.held? w key = some e ∧ e.tokens.accessToken = tokens.accessToken ∧
    e.tokens.refreshToken = tokens.refreshToken ∧ e.expiresAt = expiresAt

/-- A plain document has a registration of texts, or none. -/
def ReadsRegistration (b : StoreKind) (w : World) (key : String) : Prop :=
  match b with
  | .documents => ∀ doc, w.find key = .ok (some doc) →
      (textFieldOrEmpty? doc "client_id").isSome ∧ (textFieldOrEmpty? doc "client_secret").isSome
  | _ => True

variable {b : StoreKind} {w w' : World} {key : String} {tokens : Tokens}
  {credentials : Option Credentials} {expiresAt : Instant}

theorem SetsPair.congr (h : b.SetsPair w key) (hw : w.SameInside w') : b.SetsPair w' key := by
  unfold SetsPair World.SetsFields
  rw [hw.collection, hw.database]
  exact h

theorem held?_of_unread {doc : Document} (hfind : w.find key = .ok (some doc))
    (hdoc : textField? doc "access_token" = none ∨ textFieldOrEmpty? doc "client_id" = none) :
    documents.held? w key = none := by
  have hread : TokenDocument.ofDocument? doc = none := by
    rw [Option.eq_none_iff_forall_ne_some]
    intro d hd
    simp only [TokenDocument.ofDocument?, Option.bind_eq_bind, Option.bind_eq_some_iff] at hd
    obtain ⟨_, -, _, haccess, _, -, _, -, _, hid, -⟩ := hd
    rcases hdoc with h | h
    · rw [h] at haccess
      cases haccess
    · rw [h] at hid
      cases hid
  simp only [held?, hfind, Except.toOption, hread, Option.bind_eq_bind, Option.bind_some,
    Option.bind_none]

theorem not_storesPair_of_unread {doc : Document} (hfind : w.find key = .ok (some doc))
    (hdoc : textField? doc "access_token" = none) :
    ¬ documents.StoresPair w key tokens expiresAt := by
  rintro ⟨found, hfound, haccess, -⟩
  cases hfind.symm.trans hfound
  rw [hdoc] at haccess
  cases haccess

theorem holdsPair_of_save {m : Dict StoredEntry}
    (h : b.image (Memory.save m key tokens credentials expiresAt) w) :
    b.HoldsPair w key tokens expiresAt := by
  obtain ⟨e, he, rfl, rfl⟩ := Memory.get?_save m key tokens credentials expiresAt
  have hlooks := b.shown_looksLike key e
  refine ⟨_, ?_, hlooks.accessToken, hlooks.refreshToken, hlooks.expiresAt⟩
  rw [held?_of_image h, he]
  rfl

theorem storesPair_memory (hsave : (memory.store.save key tokens credentials expiresAt).run
    World.perform w = (.ok (), w')) : memory.StoresPair w' key tokens expiresAt := by
  obtain ⟨e, he, htokens, hexpires⟩ := Memory.get?_save w.memory key tokens credentials expiresAt
  cases hsave
  exact ⟨e, he, htokens, hexpires⟩

theorem storesPair_documents (hset : documents.SetsPair w key)
    (hsave : (documents.store.save key tokens credentials expiresAt).run World.perform w =
      (.ok (), w')) :
    documents.StoresPair w' key tokens expiresAt ∧
      (documents.ReadsRegistration w' key → documents.HoldsPair w' key tokens expiresAt) := by
  rw [run_documents_save, TokenDocument.fields_eq_strings] at hsave
  obtain ⟨doc, hdoc, hfields⟩ := World.exists_found_of_perform hset
    (TokenDocument.wellNamed_texts key tokens credentials expiresAt) hsave
  have htext : ∀ name value, name ∈ ["caller_key", "access_token", "refresh_token", expiryField] →
      Dict.get? (TokenDocument.texts key tokens credentials expiresAt) name = some value →
      Dict.get? doc name = some (.str value) := by
    intro name value hname hvalue
    refine hfields name hname value ?_
    rw [Dict.get?_ofList (TokenDocument.nodup_texts _ _ _ _), hvalue]
  have hkey := htext "caller_key" key (by simp) rfl
  have haccess := htext "access_token" tokens.accessToken (by simp) rfl
  have hrefresh := htext "refresh_token" tokens.refreshToken (by simp) rfl
  have hexpiry := htext expiryField (Timestamp.text expiresAt) (by simp) rfl
  refine ⟨⟨doc, hdoc, textField?_of_get? haccess, textField?_of_get? hrefresh,
    expiryOf?_of_get? hexpiry⟩, fun hreads => ?_⟩
  obtain ⟨hid, hsecret⟩ := hreads doc hdoc
  obtain ⟨id, hid⟩ := Option.isSome_iff_exists.mp hid
  obtain ⟨secret, hsecret⟩ := Option.isSome_iff_exists.mp hsecret
  let d : TokenDocument := ⟨tokens.accessToken, tokens.refreshToken, expiresAt, id, secret⟩
  have hd : TokenDocument.ofDocument? doc = some d := by
    simp only [TokenDocument.ofDocument?, textFieldOrEmpty?_of_get? hkey,
      textField?_of_get? haccess, textField?_of_get? hrefresh, expiryOf?_of_get? hexpiry, hid,
      hsecret, Option.bind_eq_bind, Option.bind_some, Option.pure_def, d]
  refine ⟨d.entry key, ?_, rfl, rfl, rfl⟩
  simp only [held?, hdoc, Except.toOption, hd, Option.bind_eq_bind, Option.bind_some,
    Option.pure_def]

theorem storesPair_sealedDocuments {ck : CipherKey} (hset : (sealedDocuments ck).SetsPair w key)
    (hsave : ((sealedDocuments ck).store.save key tokens credentials expiresAt).run World.perform w
      = (.ok (), w')) :
    (sealedDocuments ck).StoresPair w' key tokens expiresAt ∧
      (sealedDocuments ck).HoldsPair w' key tokens expiresAt := by
  have hrun := run_sealed_save ck key tokens credentials expiresAt w
  change ((TokenStore.sealedDocuments ck).save key tokens credentials expiresAt).run World.perform w
    = _ at hsave
  rw [hsave] at hrun
  split at hrun
  · cases hrun
  · next inside _ =>
    rw [SealedDocument.fields_eq_strings] at hrun
    obtain ⟨doc, hdoc, hfields⟩ := World.exists_found_of_perform
      (w := { w with drawn := w.drawn + 1 }) hset
      (SealedDocument.wellNamed_texts ck (w.nonces w.drawn) key ⟨tokens, inside⟩ expiresAt)
      hrun.symm
    let data := SealedDocument.dataOf ck (w.nonces w.drawn) (Payload.mk tokens inside).bytes
    have hkey : Dict.get? doc "caller_key" = some (.str key) :=
      hfields "caller_key" (by simp) key (SealedDocument.get?_texts ..)
    have hdata : Dict.get? doc dataField = some (.str data) :=
      hfields dataField (by simp) data (SealedDocument.get?_texts ..)
    have hexpiry : Dict.get? doc expiryField = some (.str (Timestamp.text expiresAt)) :=
      hfields expiryField (by simp) _ (SealedDocument.get?_texts ..)
    have hd : SealedDocument.ofDocument? doc = some ⟨data, expiresAt⟩ := by
      simp only [SealedDocument.ofDocument?, textFieldOrEmpty?_of_get? hkey,
        textField?_of_get? hdata, expiryOf?_of_get? hexpiry, Option.bind_eq_bind,
        Option.bind_some, Option.pure_def]
    have hpayload : SealedDocument.payload ck data = .ok ⟨tokens, inside⟩ :=
      SealedDocument.payload_dataOf ck (w.nonces w.drawn) ⟨tokens, inside⟩
    refine ⟨⟨doc, _, _, hdoc, hd, hpayload, rfl, rfl⟩, ⟨tokens, inside, expiresAt⟩, ?_, rfl, rfl,
      rfl⟩
    simp only [held?, hdoc, Except.toOption, hd, hpayload, Option.bind_eq_bind, Option.bind_some,
      Option.pure_def]

/-- Whatever is stored under the key, and in whatever collection: what a save stores is the pair. -/
theorem storesPair_of_save (hset : b.SetsPair w key)
    (hsave : (b.store.save key tokens credentials expiresAt).run World.perform w = (.ok (), w')) :
    b.StoresPair w' key tokens expiresAt ∧
      (b.ReadsRegistration w' key → b.HoldsPair w' key tokens expiresAt) := by
  cases b with
  | memory =>
    have hstores := storesPair_memory hsave
    obtain ⟨e, he, rfl, rfl⟩ := id hstores
    exact ⟨hstores, fun _ => ⟨e, he, rfl, rfl, rfl⟩⟩
  | documents => exact storesPair_documents hset hsave
  | sealedDocuments ck =>
    obtain ⟨hstores, hholds⟩ := storesPair_sealedDocuments hset hsave
    exact ⟨hstores, fun _ => hholds⟩

end TokenKeeper.StoreKind
