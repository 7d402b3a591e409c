import Mathlib.Data.List.Forall2
import TokenKeeper.Proofs.Store.Expiry

/-!
# What a sealed collection gives away

Two runs over an empty collection that differ in nothing but tokens and credentials cannot be told
apart by what is in the open: the same keys are there after every turn, their documents differ in
nothing but the blobs, and the same loads find something. This is so on every medium, also on one
that refuses writes in between, as long as it does in both runs.
-/
namespace TokenKeeper

/-! ### Media that can be read, and media that take writes -/

namespace World

def Readable (w : World) : Prop :=
  match w.collection with
  | .file _ => True
  | .table _ => ∃ rows, w.database = .ready rows

def HoldsSome (w : World) : Prop := ∃ docs, w.Holds docs

variable {w w' : World} {docs : Holdings} {key : String}

theorem Readable.congr (hw : w.SameInside w') : w.Readable ↔ w'.Readable := by
  unfold Readable
  rw [hw.collection, hw.database]

theorem Holds.readable (h : w.Holds docs) : w.Readable := by
  obtain ⟨-, hmedium⟩ := h
  unfold Readable
  split
  · trivial
  · next hc =>
    rw [hc] at hmedium
    obtain ⟨rows, hd, -⟩ := hmedium
    exact ⟨rows, hd⟩

theorem Contains.find (h : w.Contains docs) (hreadable : w.Readable) (key : String) :
    w.find key = .ok (docs key) := by
  unfold Contains at h
  unfold Readable at hreadable
  unfold World.find
  cases hc : w.collection with
  | file c =>
    rw [hc] at h
    exact congrArg Except.ok (h key)
  | table name =>
    rw [hc] at h hreadable
    obtain ⟨rows, hd⟩ := hreadable
    simp only [hd]
    exact (h rows hd).find key

theorem SameInside.withoutFault (hw : w.SameInside w') :
    w.withoutFault.SameInside w'.withoutFault :=
  ⟨hw.collection, hw.disk, hw.database, hw.memory, rfl⟩

theorem HoldsSome.congr (hw : w.SameInside w') : w.HoldsSome ↔ w'.HoldsSome :=
  ⟨fun ⟨docs, h⟩ => ⟨docs, h.congr hw⟩, fun ⟨docs, h⟩ => ⟨docs, h.congr hw.symm⟩⟩

theorem holdsSome_iff : w.HoldsSome ↔ w.fault = none ∧ w.withoutFault.HoldsSome := by
  refine ⟨?_, fun ⟨hnoFault, h⟩ => withoutFault_of_noFault hnoFault ▸ h⟩
  rintro ⟨docs, h⟩
  rw [withoutFault_of_noFault h.noFault]
  exact ⟨h.noFault, docs, h⟩

theorem find_unreadable (h : ¬ w.Readable) (key : String) :
    w.find key = .error (.tableRead key) := by
  unfold Readable at h
  unfold World.find
  cases hc : w.collection with
  | file c =>
    rw [hc] at h
    exact absurd trivial h
  | table name =>
    rw [hc] at h
    cases hd : w.database with
    | ready rows => exact absurd ⟨rows, hd⟩ h
    | dropped => rfl
    | blocked => rfl

theorem Contains.holds_of_holdsSome (h : w.Contains docs) (hholdsSome : w.HoldsSome) :
    w.Holds docs := by
  obtain ⟨docs', hnoFault, hmedium⟩ := hholdsSome
  refine ⟨hnoFault, ?_⟩
  unfold Contains at h
  cases hc : w.collection with
  | file c =>
    rw [hc] at h hmedium
    exact ⟨hmedium.1, h⟩
  | table name =>
    rw [hc] at h hmedium
    obtain ⟨rows, hd, -⟩ := hmedium
    exact ⟨rows, hd, h rows hd⟩

theorem Contains.holdsSome_of_deleteIf (h : w.Contains docs) {doc : Document} {field : String}
    {value : Json} (hdoc : docs key = some doc) (hvalue : Dict.get? doc field = some value)
    (hsame : value.same value = true) {removed : Bool}
    (hdelete : w.deleteIf key field value = .ok (removed, w')) : w.HoldsSome := by
  refine ⟨docs, ?_⟩
  unfold Contains at h
  cases changed_of_deleteIf hdelete with
  | @file c changed hc hchanged =>
    rw [hc] at h
    have hhas : c.hasValue key field value = true := by
      simp only [FileCollection.hasValue, FileCollection.find, h key, hdoc, Option.bind_some,
        hvalue, hsame]
    unfold FileCollection.deleteIf at hchanged
    rw [if_pos hhas] at hchanged
    obtain ⟨stored, hstore, -⟩ := bind_eq_ok_iff.mp hchanged
    obtain ⟨-, hreplace⟩ := FileCollection.store_eq_ok hstore
    have hnoFault := Disk.mishap_of_replace hreplace
    refine ⟨hnoFault, ?_⟩
    rw [hnoFault] at hreplace
    rw [hc]
    exact ⟨Disk.writable_of_replace hreplace, h⟩
  | @table name database hc hnoFault hchanged =>
    rw [hc] at h
    refine ⟨hnoFault, ?_⟩
    rw [hc]
    cases hd : w.database with
    | ready rows => exact ⟨rows, rfl, h rows hd⟩
    | dropped =>
      rw [hd] at hchanged
      cases hchanged
    | blocked =>
      rw [hd] at hchanged
      cases hchanged

end World

/-! ### One run -/

namespace StoreKind

variable {ck : CipherKey} {m : Dict StoredEntry} {w : World} {key : String}

theorem image_of_holdsSome (h : (sealedDocuments ck).Contents m w) (hholdsSome : w.HoldsSome) :
    (sealedDocuments ck).image m w := by
  obtain ⟨docs, hdocs, hseals⟩ := h
  exact ⟨docs, hdocs.holds_of_holdsSome hholdsSome, hseals⟩

theorem holdsSome_of_image (h : (sealedDocuments ck).image m w) : w.HoldsSome := by
  obtain ⟨docs, hholds, -⟩ := h
  exact ⟨docs, hholds⟩

theorem run_save_refused (h : (sealedDocuments ck).Contents m w) (hrefused : ¬ w.HoldsSome)
    (key : String) (tokens : Tokens) (credentials : Option Credentials) (expiresAt : Instant) :
    ∃ e w', ((sealedDocuments ck).store.save key tokens credentials expiresAt).run World.perform w =
      (.error e, w') ∧ w.SameInside w' ∧ w.SameOutside w' := by
  obtain ⟨hout, hsaved⟩ := (sealedDocuments ck).saved_save key tokens credentials expiresAt w
  cases hrun : ((sealedDocuments ck).store.save key tokens credentials expiresAt).run
      World.perform w with
  | mk r w' =>
    rw [hrun] at hsaved hout
    cases hsaved with
    | failed e hinside => exact ⟨e, w', rfl, hinside, hout⟩
    | done _ himage => exact absurd (holdsSome_of_image (himage m h)) hrefused

theorem run_load_unreadable (ck : CipherKey) (h : ¬ w.Readable) (key : String) :
    ((sealedDocuments ck).store.load key).run World.perform w = (.error (.tableRead key), w) := by
  change ((findStored key).bind (SealedDocument.loadFrom ck key)).run World.perform w = _
  change (((Program.ofExcept (w.find key)).bind _).bind _).run World.perform w = _
  rw [World.find_unreadable h]
  rfl

/-- What a load answers where the medium refuses writes. -/
inductive LoadedStill (m : Dict StoredEntry) (now : Instant) (key : String) :
    Except Failure StoredEntry → Prop
  | absent (h : Dict.get? m key = none) : LoadedStill m now key (.error (.nothingStored key))
  | expired {e : StoredEntry} (h : Dict.get? m key = some e) (hexpired : e.isExpiredAt now = true)
    {f : Failure} (hf : f.kind = .store) : LoadedStill m now key (.error f)
  | live {e : StoredEntry} (h : Dict.get? m key = some e) (hlive : e.isExpiredAt now = false) :
    LoadedStill m now key (.ok e)

theorem run_load_refused (h : (sealedDocuments ck).Contents m w) (hrefused : ¬ w.HoldsSome)
    (hreadable : w.Readable) (key : String) :
    ∃ r, ((sealedDocuments ck).store.load key).run World.perform w = (r, w) ∧
      LoadedStill m w.clock key r := by
  obtain ⟨docs, hdocs, hseals⟩ := h
  have hfind := hdocs.find hreadable key
  cases he : Dict.get? m key with
  | none =>
    rw [hseals.absent he] at hfind
    refine ⟨.error (.nothingStored key), ?_, .absent he⟩
    change (((Program.ofExcept (w.find key)).bind _).bind _).run World.perform w = _
    rw [hfind]
    rfl
  | some e =>
    obtain ⟨nonce, hdoc⟩ := hseals.present he
    rw [hdoc] at hfind
    cases hexpired : e.isExpiredAt w.clock with
    | true =>
      have hb : sealedDocuments ck ≠ .memory := nofun
      have hget := SealedDocument.get?_expiry ck nonce key ⟨e.tokens, e.credentials⟩ e.expiresAt
      have hin : (sealedDocuments ck).expiryIn? (SealedDocument.fields ck nonce key
          ⟨e.tokens, e.credentials⟩ e.expiresAt) = some e.expiresAt := by
        rw [expiryIn?, SealedDocument.ofDocument?_fields]
        rfl
      rw [run_load_purge hb hfind hin hexpired, run_purge_deleteIf hget]
      cases hdelete : w.deleteIf key expiryField (.str (Timestamp.text e.expiresAt)) with
      | error f => exact ⟨.error f, rfl, .expired he hexpired (World.kind_of_deleteIf hdelete)⟩
      | ok deleted =>
        have hsame : (Json.str (Timestamp.text e.expiresAt)).same
            (.str (Timestamp.text e.expiresAt)) = true := by simp [Json.same]
        exact absurd (hdocs.holdsSome_of_deleteIf hdoc hget hsame hdelete) hrefused
    | false =>
      refine ⟨.ok e, ?_, .live he hexpired⟩
      have hload : (SealedDocument.loadFrom ck key (SealedDocument.fields ck nonce key
          ⟨e.tokens, e.credentials⟩ e.expiresAt)).run World.perform w = (.ok e, w) := by
        unfold SealedDocument.loadFrom
        rw [SealedDocument.ofDocument?_fields]
        change Program.run World.perform (if e.isExpiredAt w.clock then _ else _) w = _
        rw [hexpired, if_neg Bool.false_ne_true, SealedDocument.payload_dataOf]
        rfl
      change ((findStored key).bind (SealedDocument.loadFrom ck key)).run World.perform w = _
      rw [Program.run_bind, run_findStored_eq, hfind]
      exact hload

end StoreKind

/-! ### Two runs -/

inductive StoreTurn
  | call (call : StoreCall)
  | medium (fault : Option WriteStep)

/-- A turn without its secrets. -/
def StoreTurn.openly : StoreTurn → StoreTurn
  | .call (.save key _ _ expiresAt) => .call (.save key ⟨"", "", 0⟩ none expiresAt)
  | turn => turn

def StoreTurn.Passes (good : String → Tokens → Prop) : StoreTurn → Prop
  | .call (.save key tokens _ _) => good key tokens
  | _ => True

def PassedIn (ts : List StoreTurn) (key : String) (tokens : Tokens) : Prop :=
  ∃ credentials expiresAt, .call (.save key tokens credentials expiresAt) ∈ ts

def TokenStore.turn (store : TokenStore) : StoreTurn → World → StoreAnswer × World
  | .call call, w => store.answer call w
  | .medium fault, w => (.set, { w with fault })

def TokenStore.runAll (store : TokenStore) : List StoreTurn → World → List StoreAnswer × World
  | [], w => ([], w)
  | turn :: rest, w =>
    let (answer, w) := store.turn turn w
    let (answers, w) := store.runAll rest w
    (answer :: answers, w)

inductive StoreAnswer.SameOpenly : StoreAnswer → StoreAnswer → Prop
  | saved : SameOpenly (.saved (.ok ())) (.saved (.ok ()))
  | unsaved (f f' : Failure) : SameOpenly (.saved (.error f)) (.saved (.error f'))
  | loaded (key : String) {e e' : StoredEntry} (h : e.expiresAt = e'.expiresAt) :
    SameOpenly (.loaded key (.ok e)) (.loaded key (.ok e'))
  | unloaded (key : String) {f f' : Failure} (h : f.kind = f'.kind) :
    SameOpenly (.loaded key (.error f)) (.loaded key (.error f'))
  | set : SameOpenly .set .set

/-- The document holds the nonce and the sealed JSON of a payload, in base64. -/
def SealedDocument.HoldsSealed (ck : CipherKey) (p : Payload) (doc : Document) : Prop :=
  ∃ nonce : Nonce, textField? doc dataField =
    some (Base64.encode (nonce.bytes ++ Gcm.encrypt ck.bytes nonce.bytes
      (Utf8.encode p.json.compact)))

namespace SealedDocument

variable (ck : CipherKey) (key : String)

theorem holdsSealed_fields (nonce : Nonce) (p : Payload) (expiresAt : Instant) :
    HoldsSealed ck p (fields ck nonce key p expiresAt) := by
  refine ⟨nonce, ?_⟩
  rw [textField?, get?_fields]
  rfl

theorem get?_fields_openly (nonce nonce' : Nonce) (p p' : Payload) (expiresAt : Instant)
    (name : String) (hname : name ≠ dataField) :
    Dict.get? (fields ck nonce key p expiresAt) name =
      Dict.get? (fields ck nonce' key p' expiresAt) name := by
  rw [get?_fields, get?_fields]
  simp [Dict.get?, Ne.symm hname]

end SealedDocument

/-- What is found under a key in two runs: the same, blobs aside. -/
inductive SameButBlob (enclosed enclosed' : Document → Prop) :
    Except Failure (Option Document) → Except Failure (Option Document) → Prop
  | unreadable (f : Failure) : SameButBlob enclosed enclosed' (.error f) (.error f)
  | absent : SameButBlob enclosed enclosed' (.ok none) (.ok none)
  | present {doc doc' : Document}
    (hopen : ∀ name, name ≠ dataField → Dict.get? doc name = Dict.get? doc' name)
    (h : enclosed doc) (h' : enclosed' doc') :
    SameButBlob enclosed enclosed' (.ok (some doc)) (.ok (some doc'))

/-! ### Entries with the same expiries -/

def SameExpiries (m m' : Dict StoredEntry) : Prop :=
  ∀ key, (Dict.get? m key).map (·.expiresAt) = (Dict.get? m' key).map (·.expiresAt)

def TokensGood (good : String → Tokens → Prop) (m : Dict StoredEntry) : Prop :=
  ∀ key e, Dict.get? m key = some e → good key e.tokens

section

variable {m m' : Dict StoredEntry} {good : String → Tokens → Prop}

namespace SameExpiries

theorem absent (h : SameExpiries m m') {key : String} (he : Dict.get? m key = none) :
    Dict.get? m' key = none := by
  have hkey := h key
  rw [he] at hkey
  exact Option.map_eq_none_iff.mp hkey.symm

theorem present (h : SameExpiries m m') {key : String} {e : StoredEntry}
    (he : Dict.get? m key = some e) (now : Instant) : ∃ e', Dict.get? m' key = some e' ∧
      e.expiresAt = e'.expiresAt ∧ e'.isExpiredAt now = e.isExpiredAt now := by
  have hkey := h key
  rw [he] at hkey
  obtain ⟨e', he', hsame⟩ := Option.map_eq_some_iff.mp hkey.symm
  exact ⟨e', he', hsame.symm, by rw [StoredEntry.isExpiredAt, hsame, StoredEntry.isExpiredAt]⟩

theorem save (h : SameExpiries m m') (key : String) (tokens tokens' : Tokens)
    (credentials credentials' : Option Credentials) (expiresAt : Instant) :
    SameExpiries (Memory.save m key tokens credentials expiresAt)
      (Memory.save m' key tokens' credentials' expiresAt) := by
  intro other
  rw [Memory.save, Memory.save, Dict.get?_insert, Dict.get?_insert]
  split
  · rfl
  · exact h other

theorem erase (h : SameExpiries m m') (key : String) :
    SameExpiries (Dict.erase m key) (Dict.erase m' key) := by
  intro other
  rw [Dict.get?_erase, Dict.get?_erase]
  split
  · rfl
  · exact h other

theorem load (h : SameExpiries m m') (now : Instant) (key : String) :
    (StoreAnswer.loaded key (Memory.load m now key).1).SameOpenly
        (.loaded key (Memory.load m' now key).1) ∧
      SameExpiries (Memory.load m now key).2 (Memory.load m' now key).2 := by
  cases he : Dict.get? m key with
  | none =>
    rw [Memory.load_absent he, Memory.load_absent (h.absent he)]
    exact ⟨.unloaded key rfl, h⟩
  | some e =>
    obtain ⟨e', he', hsame, hnow⟩ := h.present he now
    cases hexpired : e.isExpiredAt now with
    | true =>
      rw [Memory.load_expired he hexpired, Memory.load_expired he' (hnow.trans hexpired)]
      exact ⟨.unloaded key rfl, h.erase key⟩
    | false =>
      rw [Memory.load_live he hexpired, Memory.load_live he' (hnow.trans hexpired)]
      exact ⟨.loaded key hsame, h⟩

theorem loadedStill (h : SameExpiries m m') {now : Instant} {key : String}
    {r r' : Except Failure StoredEntry} (hr : StoreKind.LoadedStill m now key r)
    (hr' : StoreKind.LoadedStill m' now key r') :
    (StoreAnswer.loaded key r).SameOpenly (.loaded key r') := by
  cases hr with
  | absent he =>
    cases hr' with
    | absent => exact .unloaded key rfl
    | expired he' => cases (h.absent he).symm.trans he'
    | live he' => cases (h.absent he).symm.trans he'
  | @expired e he hexpired f hf =>
    obtain ⟨e', he', -, hnow⟩ := h.present he now
    cases hr' with
    | absent hnone => cases he'.symm.trans hnone
    | expired _ _ hf' => exact .unloaded key (hf.trans hf'.symm)
    | live he'' hlive =>
      cases he'.symm.trans he''
      cases hlive.symm.trans (hnow.trans hexpired)
  | @live e he hlive =>
    obtain ⟨e', he', hsame, hnow⟩ := h.present he now
    cases hr' with
    | absent hnone => cases he'.symm.trans hnone
    | expired he'' hexpired =>
      cases he'.symm.trans he''
      cases hexpired.symm.trans (hnow.trans hlive)
    | live he'' =>
      cases he'.symm.trans he''
      exact .loaded key hsame

end SameExpiries

namespace TokensGood

theorem save (h : TokensGood good m) {key : String} {tokens : Tokens} (hgood : good key tokens)
    (credentials : Option Credentials) (expiresAt : Instant) :
    TokensGood good (Memory.save m key tokens credentials expiresAt) := by
  intro other e he
  rw [Memory.save, Dict.get?_insert] at he
  split at he
  · next hk =>
    cases he
    exact hk ▸ hgood
  · exact h other e he

theorem load (h : TokensGood good m) (now : Instant) (key : String) :
    TokensGood good (Memory.load m now key).2 := by
  intro other e he
  unfold Memory.load at he
  split at he
  · exact h other e he
  · split at he
    · rw [Dict.get?_erase] at he
      split at he
      · cases he
      · exact h other e he
    · exact h other e he

end TokensGood

end

/-! ### Runs that differ in secrets -/

/-- Two worlds that hold sealed entries with the same expiries, on media that behave alike. -/
structure SameButSecrets (ck : CipherKey) (good good' : String → Tokens → Prop)
    (m m' : Dict StoredEntry) (w w' : World) : Prop where
  contents : (StoreKind.sealedDocuments ck).Contents m w
  contents' : (StoreKind.sealedDocuments ck).Contents m' w'
  expiries : SameExpiries m m'
  tokensGood : TokensGood good m
  tokensGood' : TokensGood good' m'
  clock : w'.clock = w.clock
  fault : w'.fault = w.fault
  sound : w.withoutFault.HoldsSome ↔ w'.withoutFault.HoldsSome
  readable : w.Readable ↔ w'.Readable

namespace SameButSecrets

variable {ck : CipherKey} {good good' : String → Tokens → Prop} {m m' n n' : Dict StoredEntry}
  {w w' v v' : World}

theorem holdsSome (h : SameButSecrets ck good good' m m' w w') : w.HoldsSome ↔ w'.HoldsSome := by
  rw [World.holdsSome_iff (w := w), World.holdsSome_iff (w := w'), h.fault, h.sound]

theorem frame (h : SameButSecrets ck good good' m m' w w') (hv : w.SameInside v)
    (hv' : w'.SameInside v') (hclock : v'.clock = v.clock) :
    SameButSecrets ck good good' m m' v v' where
  contents := h.contents.congr hv
  contents' := h.contents'.congr hv'
  expiries := h.expiries
  tokensGood := h.tokensGood
  tokensGood' := h.tokensGood'
  clock := hclock
  fault := by rw [hv.fault, hv'.fault, h.fault]
  sound := by
    rw [← World.HoldsSome.congr hv.withoutFault, ← World.HoldsSome.congr hv'.withoutFault]
    exact h.sound
  readable := by
    rw [← World.Readable.congr hv, ← World.Readable.congr hv']
    exact h.readable

theorem of_images (hv : (StoreKind.sealedDocuments ck).image n v)
    (hv' : (StoreKind.sealedDocuments ck).image n' v') (hexpiries : SameExpiries n n')
    (htokens : TokensGood good n) (htokens' : TokensGood good' n') (hclock : v'.clock = v.clock) :
    SameButSecrets ck good good' n n' v v' := by
  obtain ⟨docs, hholds, -⟩ := id hv
  obtain ⟨docs', hholds', -⟩ := id hv'
  have hholdsSome := StoreKind.holdsSome_of_image hv
  have hholdsSome' := StoreKind.holdsSome_of_image hv'
  refine ⟨StoreKind.contents_of_image hv, StoreKind.contents_of_image hv', hexpiries, htokens,
    htokens', hclock, hholds'.noFault.trans hholds.noFault.symm, ?_, ?_⟩
  · exact iff_of_true (World.holdsSome_iff.mp hholdsSome).2 (World.holdsSome_iff.mp hholdsSome').2
  · exact iff_of_true hholds.readable hholds'.readable

theorem save (h : SameButSecrets ck good good' m m' w w') {key : String} {tokens tokens' : Tokens}
    (hgood : good key tokens) (hgood' : good' key tokens')
    (credentials credentials' : Option Credentials) (expiresAt : Instant) :
    let step := (TokenStore.sealedDocuments ck).answer (.save key tokens credentials expiresAt) w
    let step' :=
      (TokenStore.sealedDocuments ck).answer (.save key tokens' credentials' expiresAt) w'
    step.1.SameOpenly step'.1 ∧ ∃ n n', SameButSecrets ck good good' n n' step.2 step'.2 := by
  by_cases hholdsSome : w.HoldsSome
  · have himage := StoreKind.image_of_holdsSome h.contents hholdsSome
    have himage' := StoreKind.image_of_holdsSome h.contents' (h.holdsSome.mp hholdsSome)
    obtain ⟨v, hrun, hv, hout⟩ :=
      (TokenStore.sealedDocuments_keeps ck).save himage key tokens credentials expiresAt
    obtain ⟨v', hrun', hv', hout'⟩ :=
      (TokenStore.sealedDocuments_keeps ck).save himage' key tokens' credentials' expiresAt
    simp only [TokenStore.answer, hrun, hrun']
    refine ⟨.saved, _, _, of_images hv hv'
      (h.expiries.save key tokens tokens' credentials credentials' expiresAt)
      (h.tokensGood.save hgood credentials expiresAt)
      (h.tokensGood'.save hgood' credentials' expiresAt) ?_⟩
    rw [hout.clock, hout'.clock, h.clock]
  · -- Both saves fail, perhaps for different reasons, and neither leaves anything behind.
    have hholdsSome' : ¬ w'.HoldsSome := fun h' => hholdsSome (h.holdsSome.mpr h')
    obtain ⟨e, v, hrun, hin, hout⟩ :=
      StoreKind.run_save_refused h.contents hholdsSome key tokens credentials expiresAt
    obtain ⟨e', v', hrun', hin', hout'⟩ :=
      StoreKind.run_save_refused h.contents' hholdsSome' key tokens' credentials' expiresAt
    rw [StoreKind.store] at hrun hrun'
    simp only [TokenStore.answer, hrun, hrun']
    refine ⟨.unsaved e e', m, m', h.frame hin hin' ?_⟩
    rw [hout.clock, hout'.clock, h.clock]

theorem load (h : SameButSecrets ck good good' m m' w w') (key : String) :
    let step := (TokenStore.sealedDocuments ck).answer (.load key) w
    let step' := (TokenStore.sealedDocuments ck).answer (.load key) w'
    step.1.SameOpenly step'.1 ∧ ∃ n n', SameButSecrets ck good good' n n' step.2 step'.2 := by
  by_cases hholdsSome : w.HoldsSome
  · have himage := StoreKind.image_of_holdsSome h.contents hholdsSome
    have himage' := StoreKind.image_of_holdsSome h.contents' (h.holdsSome.mp hholdsSome)
    obtain ⟨v, hrun, hv, hout⟩ := (TokenStore.sealedDocuments_keeps ck).load himage key
    obtain ⟨v', hrun', hv', hout'⟩ := (TokenStore.sealedDocuments_keeps ck).load himage' key
    have hwhole : ∀ r : Except Failure StoredEntry, r.map (fun e => e) = r := by
      rintro (e | e) <;> rfl
    rw [hwhole] at hrun hrun'
    rw [h.clock] at hrun' hv'
    obtain ⟨hsame, hexpiries⟩ := h.expiries.load w.clock key
    simp only [TokenStore.answer, hrun, hrun']
    refine ⟨hsame, _, _, of_images hv hv' hexpiries (h.tokensGood.load w.clock key)
      (h.tokensGood'.load w.clock key) ?_⟩
    rw [hout.clock, hout'.clock, h.clock]
  · -- Nothing can be purged, so what has expired is a failure of the medium in both runs.
    have hholdsSome' : ¬ w'.HoldsSome := fun h' => hholdsSome (h.holdsSome.mpr h')
    by_cases hreadable : w.Readable
    · obtain ⟨r, hrun, hr⟩ := StoreKind.run_load_refused h.contents hholdsSome hreadable key
      obtain ⟨r', hrun', hr'⟩ :=
        StoreKind.run_load_refused h.contents' hholdsSome' (h.readable.mp hreadable) key
      rw [StoreKind.store] at hrun hrun'
      rw [h.clock] at hr'
      simp only [TokenStore.answer, hrun, hrun']
      exact ⟨h.expiries.loadedStill hr hr', m, m', h⟩
    · have hreadable' : ¬ w'.Readable := fun h' => hreadable (h.readable.mpr h')
      have hrun := StoreKind.run_load_unreadable ck hreadable key
      have hrun' := StoreKind.run_load_unreadable ck hreadable' key
      rw [StoreKind.store] at hrun hrun'
      simp only [TokenStore.answer, hrun, hrun']
      exact ⟨.unloaded key rfl, m, m', h⟩

theorem turn (h : SameButSecrets ck good good' m m' w w') {t t' : StoreTurn}
    (hopen : t.openly = t'.openly)
    (ht : t.Passes good) (ht' : t'.Passes good') :
    let step := (TokenStore.sealedDocuments ck).turn t w
    let step' := (TokenStore.sealedDocuments ck).turn t' w'
    step.1.SameOpenly step'.1 ∧ ∃ n n', SameButSecrets ck good good' n n' step.2 step'.2 := by
  cases t with
  | call call =>
    cases call with
    | save key tokens credentials expiresAt =>
      obtain ⟨tokens', credentials', rfl⟩ : ∃ tokens' credentials',
          t' = .call (.save key tokens' credentials' expiresAt) := by
        rcases t' with ⟨_ | _ | _⟩ | _ <;> cases hopen
        exact ⟨_, _, rfl⟩
      exact h.save ht ht' credentials credentials' expiresAt
    | load key =>
      obtain rfl : .call (.load key) = t' := by
        rcases t' with ⟨_ | _ | _⟩ | _ <;> cases hopen
        rfl
      exact h.load key
    | clock now =>
      obtain rfl : .call (.clock now) = t' := by
        rcases t' with ⟨_ | _ | _⟩ | _ <;> cases hopen
        rfl
      exact ⟨.set, m, m', h.frame ⟨rfl, rfl, rfl, rfl, rfl⟩ ⟨rfl, rfl, rfl, rfl, rfl⟩ rfl⟩
  | medium fault =>
    obtain rfl : .medium fault = t' := by
      rcases t' with ⟨_ | _ | _⟩ | _ <;> cases hopen
      rfl
    exact ⟨.set, m, m', h.contents, h.contents', h.expiries, h.tokensGood, h.tokensGood', h.clock,
      rfl, h.sound, h.readable⟩

theorem runAll (h : SameButSecrets ck good good' m m' w w') {ts ts' : List StoreTurn}
    (hopen : ts.map StoreTurn.openly = ts'.map StoreTurn.openly) (hts : ∀ t ∈ ts, t.Passes good)
    (hts' : ∀ t ∈ ts', t.Passes good') :
    let run := (TokenStore.sealedDocuments ck).runAll ts w
    let run' := (TokenStore.sealedDocuments ck).runAll ts' w'
    List.Forall₂ StoreAnswer.SameOpenly run.1 run'.1 ∧
      ∃ n n', SameButSecrets ck good good' n n' run.2 run'.2 := by
  induction ts generalizing ts' m m' w w' with
  | nil =>
    obtain rfl := List.map_eq_nil_iff.mp hopen.symm
    exact ⟨.nil, m, m', h⟩
  | cons t ts ih =>
    cases ts' with
    | nil => cases hopen
    | cons t' ts' =>
      rw [List.map_cons, List.map_cons, List.cons.injEq] at hopen
      obtain ⟨hanswer, n, n', hafter⟩ := h.turn hopen.1 (hts t List.mem_cons_self)
        (hts' t' List.mem_cons_self)
      obtain ⟨hanswers, hrest⟩ := ih hafter hopen.2
        (fun u hu => hts u (List.mem_cons_of_mem t hu))
        fun u hu => hts' u (List.mem_cons_of_mem t' hu)
      exact ⟨.cons hanswer hanswers, hrest⟩

theorem find (h : SameButSecrets ck good good' m m' w w') (key : String) :
    SameButBlob (fun doc => ∃ p, good key p.tokens ∧ SealedDocument.HoldsSealed ck p doc)
      (fun doc => ∃ p, good' key p.tokens ∧ SealedDocument.HoldsSealed ck p doc)
      (w.find key) (w'.find key) := by
  by_cases hreadable : w.Readable
  · obtain ⟨docs, hdocs, hseals⟩ := h.contents
    obtain ⟨docs', hdocs', hseals'⟩ := h.contents'
    rw [hdocs.find hreadable, hdocs'.find (h.readable.mp hreadable)]
    cases he : Dict.get? m key with
    | none =>
      rw [hseals.absent he, hseals'.absent (h.expiries.absent he)]
      exact .absent
    | some e =>
      obtain ⟨e', he', hsame, -⟩ := h.expiries.present he w.clock
      obtain ⟨nonce, hdoc⟩ := hseals.present he
      obtain ⟨nonce', hdoc'⟩ := hseals'.present he'
      rw [hdoc, hdoc', hsame]
      exact .present (SealedDocument.get?_fields_openly ck key nonce nonce' _ _ _)
        ⟨⟨e.tokens, e.credentials⟩, h.tokensGood key e he, SealedDocument.holdsSealed_fields ..⟩
        ⟨⟨e'.tokens, e'.credentials⟩, h.tokensGood' key e' he',
          SealedDocument.holdsSealed_fields ..⟩
  · have hreadable' : ¬ w'.Readable := fun h' => hreadable (h.readable.mpr h')
    rw [World.find_unreadable hreadable, World.find_unreadable hreadable']
    exact .unreadable _

end SameButSecrets

/-- Two runs over an empty collection that are the same but for tokens and credentials, and draw any
nonces, answer the same but for these and leave the same behind but for the blobs. Each blob is a
nonce and the sealed JSON of a payload, with tokens that were saved under its key. -/
theorem sealed_runAll_openly (ck : CipherKey) {w : World} (hempty : w.Contains fun _ => none)
    (nonces : Nat → Nonce) {ts ts' : List StoreTurn}
    (hopen : ts.map StoreTurn.openly = ts'.map StoreTurn.openly) :
    let run := (TokenStore.sealedDocuments ck).runAll ts w
    let run' := (TokenStore.sealedDocuments ck).runAll ts' { w with nonces }
    List.Forall₂ StoreAnswer.SameOpenly run.1 run'.1 ∧ ∀ key,
      SameButBlob (fun doc => ∃ p, PassedIn ts key p.tokens ∧ SealedDocument.HoldsSealed ck p doc)
        (fun doc => ∃ p, PassedIn ts' key p.tokens ∧ SealedDocument.HoldsSealed ck p doc)
        (run.2.find key) (run'.2.find key) := by
  have hseals : SealedDocument.Seals ck [] fun _ => none := fun _ => rfl
  have hnothing : ∀ good, TokensGood good [] := fun good key e he => nomatch he
  have hstart : SameButSecrets ck (PassedIn ts) (PassedIn ts') [] [] w { w with nonces } :=
    ⟨⟨_, hempty, hseals⟩, ⟨_, hempty, hseals⟩, fun _ => rfl, hnothing _, hnothing _, rfl, rfl,
      World.HoldsSome.congr ⟨rfl, rfl, rfl, rfl, rfl⟩, .rfl⟩
  have hpassed : ∀ us : List StoreTurn, ∀ t ∈ us, t.Passes (PassedIn us) := by
    intro us t ht
    rcases t with ⟨_ | _ | _⟩ | _
    · exact ⟨_, _, ht⟩
    · trivial
    · trivial
    · trivial
  obtain ⟨hanswers, n, n', hafter⟩ := hstart.runAll hopen (hpassed ts) (hpassed ts')
  exact ⟨hanswers, hafter.find⟩

/-! ### Two runs through a failing medium -/

namespace Unseen

def turns (first second : Tokens) (credentials : Option Credentials) : List StoreTurn :=
  [.call (.save "u1" first credentials .epoch), .medium (some .rename),
    .call (.save "u1" second none .epoch), .call (.load "u1")]

def plain : List StoreTurn := turns ⟨"at_1", "rt_1", 300⟩ ⟨"at_2", "rt_2", 300⟩ none

def registered : List StoreTurn :=
  turns ⟨"at", "rt", 0⟩ ⟨"", "", -1⟩ (some ⟨"u1", "cid", "cs"⟩)

theorem runAll_unseen :
    (World.isolated .epoch .empty).Contains (fun _ => none) ∧
    plain.map StoreTurn.openly = registered.map StoreTurn.openly ∧
    List.Forall₂ StoreAnswer.SameOpenly
      ((TokenStore.sealedDocuments TokenStore.trialKey).runAll plain
        (World.isolated .epoch .empty)).1
      ((TokenStore.sealedDocuments TokenStore.trialKey).runAll registered
        { World.isolated .epoch .empty with nonces := fun n => .ofNat (n + 1) }).1 := by
  have hempty := (emptyCollection_isolated .epoch .empty).holds.contains
  have hopen : plain.map StoreTurn.openly = registered.map StoreTurn.openly := rfl
  exact ⟨hempty, hopen, (sealed_runAll_openly TokenStore.trialKey hempty _ hopen).1⟩

end Unseen
end TokenKeeper
