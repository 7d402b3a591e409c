import TokenKeeper.Proofs.Store.Upserts

/-!
# Sealed documents in place of others

A save of a sealed entry sets three fields of the document of its key, which may have been anything
before. What else was there stays beside the blob: the tokens and the registration of a document
that was stored openly, for one. So what is found after the save is a sealed document and nothing
else exactly if there was no other field before.
-/
namespace TokenKeeper

open Json.Spelling (NulFree)

/-! ### Sealed documents -/

namespace SealedDocument

def names : List String := ["caller_key", dataField, expiryField]

def OnlySealedFields (doc : Document) : Prop := ∀ name, name ∈ Dict.keys doc ↔ name ∈ names

variable (ck : CipherKey) (nonce : Nonce) (key : String) (p : Payload) (expiresAt : Instant)

theorem mem_keys_texts (name : String) :
    name ∈ Dict.keys (texts ck nonce key p expiresAt) ↔ name ∈ names :=
  Dict.mem_keys_ofList

theorem get?_beside (doc : Document) {name : String} (hname : name ∉ names) :
    Dict.get? (Dict.insertAll doc (fields ck nonce key p expiresAt)) name = Dict.get? doc name := by
  have hnot : name ∉ Dict.keys (fields ck nonce key p expiresAt) :=
    fun hmem => hname (Dict.mem_keys_ofList.mp hmem)
  rw [Dict.get?_insertAll (ordered_fields ck nonce key p expiresAt).nodup_keys,
    Dict.get?_eq_none_of_notMem hnot]
  rfl

theorem nulFree_names : ∀ name ∈ names, NulFree name := by decide

theorem alone_iff {before after : Document}
    (h : Merged before (texts ck nonce key p expiresAt) after) :
    OnlySealedFields after ↔ ∀ name ∈ Dict.keys before, name ∈ names := by
  refine ⟨fun honly name hname => (honly name).mp (h.kept name hname), fun hnone name => ?_⟩
  refine ⟨fun hname => ?_, fun hname => ?_⟩
  · rcases h.known name hname with hset | hbefore
    · exact (mem_keys_texts ck nonce key p expiresAt name).mp hset
    · exact hnone name hbefore
  · refine h.set (fun k hk => nulFree_names k (hnone k hk)) name ?_
    exact (mem_keys_texts ck nonce key p expiresAt name).mpr hname

end SealedDocument

def SealedDocument.payloadOver (ck : CipherKey) (tokens : Tokens)
    (credentials : Option Credentials) (before : Option Document) : Payload :=
  ⟨tokens, (Credentials.given credentials).orElse fun _ => before.bind (credentials? ck)⟩

section

variable {ck : CipherKey} {w w' : World} {key : String} {tokens : Tokens}
  {credentials : Option Credentials} {expiresAt : Instant} {before : Option Document}

theorem run_sealed_save_of_found (hfind : w.find key = .ok before) :
    ((TokenStore.sealedDocuments ck).save key tokens credentials expiresAt).run World.perform w =
      World.perform (.upsert key (SealedDocument.fields ck (w.nonces w.drawn) key
        (SealedDocument.payloadOver ck tokens credentials before) expiresAt))
        { w with drawn := w.drawn + 1 } := by
  rw [StoreKind.run_sealed_save,
    SealedDocument.run_credentialsToSeal_of_found hfind ck credentials]
  rfl

theorem find_of_sealed_save (hfind : w.find key = .ok before)
    (hsave : ((TokenStore.sealedDocuments ck).save key tokens credentials expiresAt).run
      World.perform w = (.ok (), w')) :
    ∃ after, w'.find key = .ok (some after) ∧
      Merged (before.getD []) (SealedDocument.texts ck (w.nonces w.drawn) key
        (SealedDocument.payloadOver ck tokens credentials before) expiresAt) after ∧
      (w.TellsApart key → after = Dict.insertAll (before.getD []) (SealedDocument.fields ck
        (w.nonces w.drawn) key (SealedDocument.payloadOver ck tokens credentials before)
        expiresAt)) := by
  rw [run_sealed_save_of_found hfind, SealedDocument.fields_eq_strings] at hsave
  rw [SealedDocument.fields_eq_strings]
  let v : World := { w with drawn := w.drawn + 1 }
  let fs := SealedDocument.texts ck (w.nonces w.drawn) key
    (SealedDocument.payloadOver ck tokens credentials before) expiresAt
  have hsettle : v.settle (v.upsert key (Row.strings fs)) = (.ok (), w') := hsave
  cases hupsert : v.upsert key (Row.strings fs) with
  | error e =>
    rw [hupsert] at hsettle
    cases hsettle
  | ok v' =>
    rw [hupsert] at hsettle
    cases hsettle
    obtain ⟨after, hafter, hmerged, hsame, -⟩ :=
      World.find_of_upsert (w := v) (SealedDocument.wellNamed_texts _ _ _ _ _) hfind hupsert
    exact ⟨after, hafter, hmerged, hsame⟩

/-- A sealed save leaves every other field of the former document beside the blob, whatever it was
and wherever it is kept. So there is a sealed document and nothing else exactly if there was no
other field. -/
theorem sealed_save_beside (hfind : w.find key = .ok before)
    (hsave : ((TokenStore.sealedDocuments ck).save key tokens credentials expiresAt).run
      World.perform w = (.ok (), w')) :
    ∃ after, w'.find key = .ok (some after) ∧
      (∀ name ∈ Dict.keys (before.getD []), name ∈ Dict.keys after) ∧
      (SealedDocument.OnlySealedFields after ↔
        ∀ name ∈ Dict.keys (before.getD []), name ∈ SealedDocument.names) ∧
      (w.TellsApart key → after = Dict.insertAll (before.getD []) (SealedDocument.fields ck
        (w.nonces w.drawn) key (SealedDocument.payloadOver ck tokens credentials before)
        expiresAt)) := by
  obtain ⟨after, hafter, hmerged, hsame⟩ := find_of_sealed_save hfind hsave
  exact ⟨after, hafter, hmerged.kept, SealedDocument.alone_iff _ _ _ _ _ hmerged, hsame⟩

theorem run_sealed_save_of_holds {docs : Holdings} (h : w.Holds docs) (ck : CipherKey)
    (key : String) (tokens : Tokens) (credentials : Option Credentials) (expiresAt : Instant) :
    ∃ w', ((TokenStore.sealedDocuments ck).save key tokens credentials expiresAt).run
      World.perform w = (.ok (), w') := by
  have hdrawn : ({ w with drawn := w.drawn + 1 } : World).Holds docs :=
    h.congr ⟨rfl, rfl, rfl, rfl, rfl⟩
  obtain ⟨w', hupsert, -⟩ := perform_upsert hdrawn (SealedDocument.wellNamed_texts ck
    (w.nonces w.drawn) key (SealedDocument.payloadOver ck tokens credentials (docs key))
    expiresAt) key
  refine ⟨w', ?_⟩
  rw [run_sealed_save_of_found (h.find key), SealedDocument.fields_eq_strings]
  exact hupsert

def sealedBefore : World :=
  let before := SealedDocument.fields TokenStore.trialKey ((World.isolated .epoch .empty).nonces 0)
    "u1" ⟨⟨"at_1", "rt_1", 300⟩, some ⟨"u1", "cid", "cs"⟩⟩ .epoch
  { World.isolated .epoch .empty with collection := .file ⟨"tokens.json", [("u1", before)]⟩ }

theorem sealed_save_again :
    ∃ w' before after, sealedBefore.find "u1" = .ok (some before) ∧
      SealedDocument.OnlySealedFields before ∧
      ((TokenStore.sealedDocuments TokenStore.trialKey).save "u1" ⟨"at_2", "rt_2", 300⟩ none
        .epoch).run World.perform sealedBefore = (.ok (), w') ∧
      w'.find "u1" = .ok (some after) ∧ SealedDocument.OnlySealedFields after := by
  have hholds : sealedBefore.Holds fun key => (sealedBefore.find key).toOption.join :=
    ⟨rfl, fun _ => ⟨_, rfl⟩, fun _ => rfl⟩
  obtain ⟨w', hsave⟩ := run_sealed_save_of_holds hholds TokenStore.trialKey "u1"
    ⟨"at_2", "rt_2", 300⟩ none .epoch
  have hfind := hholds.find "u1"
  have honly : SealedDocument.OnlySealedFields (SealedDocument.fields TokenStore.trialKey
      ((World.isolated .epoch .empty).nonces 0) "u1"
      ⟨⟨"at_1", "rt_1", 300⟩, some ⟨"u1", "cid", "cs"⟩⟩ .epoch) :=
    fun _ => Dict.mem_keys_ofList
  obtain ⟨after, hafter, -, honly', -⟩ := sealed_save_beside hfind hsave
  exact ⟨w', _, after, hfind, honly, hsave, hafter,
    honly'.mpr fun name hname => (honly name).mp hname⟩

end

/-! ### Switching to sealed documents -/

namespace Switched

def opened (w : World) : Except Failure Unit × World :=
  (TokenStore.documents.save "u1" ⟨"at_1", "rt_1", 300⟩ (some ⟨"u1", "cid", "cs"⟩) .epoch).run
    World.perform w

def resealed (w : World) : Except Failure Unit × World :=
  ((TokenStore.sealedDocuments TokenStore.trialKey).save "u1" ⟨"at_2", "rt_2", 300⟩ none .epoch).run
    World.perform w

/-- Both saves go through, and a token and the secret of the first are beside the blob. -/
structure Leaves (w : World) : Prop where
  opened : (opened w).1 = .ok ()
  resealed : (resealed (Switched.opened w).2).1 = .ok ()
  beside : ∃ after, (Switched.resealed (Switched.opened w).2).2.find "u1" = .ok (some after) ∧
    textField? after "access_token" = some "at_1" ∧
    textField? after "client_secret" = some "cs" ∧ ¬ SealedDocument.OnlySealedFields after

theorem leaves_of_empty {w : World} (h : w.EmptyCollection) : Leaves w := by
  obtain ⟨v, hopened, hholds, -⟩ := TokenStore.documents_keeps.save (m := []) h.holds "u1"
    ⟨"at_1", "rt_1", 300⟩ (some ⟨"u1", "cid", "cs"⟩) .epoch
  obtain ⟨v', hresealed⟩ := run_sealed_save_of_holds hholds TokenStore.trialKey "u1"
    ⟨"at_2", "rt_2", 300⟩ none .epoch
  obtain ⟨after, hafter, -, hmerged⟩ := find_of_sealed_save (hholds.find "u1") hresealed
  have hopen : opened w = (.ok (), v) := hopened
  have hreseal : resealed v = (.ok (), v') := hresealed
  -- Fields that the sealed document does not have are those of the open one.
  have hother : ∀ name, name ∉ SealedDocument.names → Dict.get? after name =
      Dict.get? (TokenDocument.fields "u1" ⟨"at_1", "rt_1", 300⟩ (some ⟨"u1", "cid", "cs"⟩) .epoch)
        name := by
    intro name hname
    rw [hmerged (hholds.contains.tellsApart "u1"), SealedDocument.get?_beside _ _ _ _ _ _ hname]
    rfl
  have htoken : textField? after "access_token" = some "at_1" := by
    rw [textField?, hother _ (by decide), TokenDocument.get?_fields]
    rfl
  have hsecret : textField? after "client_secret" = some "cs" := by
    rw [textField?, hother _ (by decide), TokenDocument.get?_fields]
    rfl
  refine ⟨congrArg Prod.fst hopen, ?_, after, ?_, htoken, hsecret, fun honly => ?_⟩
  · rw [hopen, hreseal]
  · rw [hopen, hreseal]
    exact hafter
  · obtain ⟨value, hvalue, -⟩ := Option.bind_eq_some_iff.mp htoken
    have hmem := (honly _).mp (Dict.mem_keys_of_get? hvalue)
    exact absurd hmem (by decide)

theorem secrets_remain : Leaves (World.isolated .epoch .empty) ∧
    Leaves { World.isolated .epoch .empty with collection := .file ⟨"tokens.json", []⟩ } :=
  ⟨leaves_of_empty (emptyCollection_isolated .epoch .empty),
    leaves_of_empty ⟨rfl, fun _ => ⟨_, rfl⟩, rfl⟩⟩

end Switched
end TokenKeeper
