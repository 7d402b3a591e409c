import TokenKeeper.Proofs.Client.Steps
import TokenKeeper.Proofs.Events

/-!
# The steps of saves and loads

What one step of a store finds and leaves, said exactly and for all back ends at once: a find
answers with a document of the entry, a write leaves its pair with the credentials that were passed
or kept, and a purge removes the entry if its expiry is still the one that was read. Loads and saves
are written out as the steps that they take.
-/
namespace TokenKeeper

theorem World.sameOutside_perform {op : Op} (hop : op.isOuter = false) (w : World) :
    w.SameOutside (perform op w).2 := by
  cases op with
  | upsert key fields =>
    exact of_settle (P := w.SameOutside) (.refl w) fun _ h => (changed_of_upsert h).sameOutside
  | delete key =>
    exact of_settle (P := w.SameOutside) (.refl w) fun _ h => (changed_of_delete h).sameOutside
  | deleteIf key field expected =>
    exact of_settleWith (P := w.SameOutside) (.refl w)
      fun _ _ h => (changed_of_deleteIf h).sameOutside
  | _ => first | contradiction | exact ⟨rfl, rfl, rfl, rfl, rfl, rfl, rfl⟩

/-! ### Documents of entries -/

namespace StoreKind

/-- The documents in which a back end keeps an entry. -/
def Documented : StoreKind → String → StoredEntry → Document → Prop
  | .memory => fun _ _ _ => False
  | .documents => fun key e doc => doc = TokenDocument.fields key e.tokens e.credentials e.expiresAt
  | .sealedDocuments ck => fun key e doc => ∃ nonce,
    doc = SealedDocument.fields ck nonce key ⟨e.tokens, e.credentials⟩ e.expiresAt

def entryIn? : StoreKind → String → Document → Option StoredEntry
  | .memory => fun _ _ => none
  | .documents => fun key doc => (TokenDocument.ofDocument? doc).map (TokenDocument.entry key)
  | .sealedDocuments ck => fun _ doc => do
    let d ← SealedDocument.ofDocument? doc
    let p ← (SealedDocument.payload ck d.data).toOption
    return ⟨p.tokens, p.credentials, d.expiresAt⟩

/-- The credentials that a save finds in a document to seal them again. -/
def sealedIn? : StoreKind → Document → Option Credentials
  | .sealedDocuments ck => SealedDocument.credentials? ck
  | _ => fun _ => none

section

variable {b : StoreKind} {key : String} {e : StoredEntry} {doc : Document}

theorem Documented.not_memory (h : b.Documented key e doc) : b ≠ .memory := by
  rintro rfl
  exact h

theorem Documented.entryIn? (h : b.Documented key e doc) :
    b.entryIn? key doc = some (b.shown key e) := by
  cases b with
  | memory => exact h.elim
  | documents =>
    cases h
    simp only [StoreKind.entryIn?, TokenDocument.ofDocument?_fields, Option.map_some,
      TokenDocument.entry_fields]
    rfl
  | sealedDocuments ck =>
    obtain ⟨nonce, rfl⟩ := h
    simp only [StoreKind.entryIn?, Option.bind_eq_bind, SealedDocument.ofDocument?_fields,
      Option.bind_some, SealedDocument.payload_dataOf]
    rfl

theorem Documented.get?_expiry (h : b.Documented key e doc) :
    Dict.get? doc expiryField = some (.str (Timestamp.text e.expiresAt)) := by
  cases b with
  | memory => exact h.elim
  | documents =>
    cases h
    exact TokenDocument.get?_expiry _ _ _ _
  | sealedDocuments ck =>
    obtain ⟨nonce, rfl⟩ := h
    exact SealedDocument.get?_expiry _ _ _ _ _

theorem Documented.expiryOf? (h : b.Documented key e doc) : expiryOf? doc = some e.expiresAt := by
  simp only [TokenKeeper.expiryOf?, textField?, h.get?_expiry, Option.bind_some, Json.str?,
    Timestamp.read?_text]

theorem Documented.sealedIn? {ck : CipherKey}
    (h : (sealedDocuments ck).Documented key e doc) :
    (sealedDocuments ck).sealedIn? doc = e.credentials := by
  obtain ⟨nonce, rfl⟩ := h
  exact SealedDocument.credentials?_fields _ _ _ _ _

end

/-! ### Finds, purges and writes -/

section

variable {b : StoreKind} {m : Dict StoredEntry} {w : World}

theorem find_documented (h : b.image m w) (hb : b ≠ .memory) (key : String) :
    (Dict.get? m key = none ∧ w.find key = .ok none) ∨
      ∃ e doc, Dict.get? m key = some e ∧ w.find key = .ok (some doc) ∧
        b.Documented key e doc := by
  cases b with
  | memory => exact absurd rfl hb
  | documents =>
    have hfind : w.find key = .ok (TokenDocument.holdings m key) := World.Holds.find h key
    rw [TokenDocument.holdings] at hfind
    cases he : Dict.get? m key with
    | none =>
      rw [he] at hfind
      exact Or.inl ⟨rfl, hfind⟩
    | some e =>
      rw [he] at hfind
      exact Or.inr ⟨e, _, rfl, hfind, rfl⟩
  | sealedDocuments ck =>
    obtain ⟨docs, hholds, hseals⟩ := h
    have hfind := hholds.find key
    cases he : Dict.get? m key with
    | none =>
      rw [hseals.absent he] at hfind
      exact Or.inl ⟨rfl, hfind⟩
    | some e =>
      obtain ⟨nonce, hdoc⟩ := hseals.present he
      rw [hdoc] at hfind
      exact Or.inr ⟨e, _, rfl, hfind, nonce, rfl⟩

theorem find_ne_none (h : b.image m w) (hb : b ≠ .memory) {key : String} {e : StoredEntry}
    (he : Dict.get? m key = some e) : w.find key ≠ .ok none := by
  rcases find_documented h hb key with ⟨hnone, -⟩ | ⟨e, doc, -, hfind, -⟩
  · rw [hnone] at he
    cases he
  · rw [hfind]
    exact nofun

theorem hasText_of_documented {docs : Holdings} {key text : String}
    (hnone : Dict.get? m key = none → docs key = none)
    (hsome : ∀ e, Dict.get? m key = some e →
      ∃ doc, docs key = some doc ∧ b.Documented key e doc) :
    docs.hasText key expiryField text =
      ((Dict.get? m key).map (Timestamp.text ·.expiresAt) == some text) := by
  rw [Holdings.hasText]
  cases he : Dict.get? m key with
  | none =>
    rw [hnone he]
    rfl
  | some e =>
    obtain ⟨doc, hdoc, hdocumented⟩ := hsome e he
    rw [hdoc, Option.bind_some, hdocumented.get?_expiry]
    rfl

theorem perform_purge (h : b.image m w) (hb : b ≠ .memory) (key text : String) :
    ∃ removed, (World.perform (.deleteIf key expiryField (.str text)) w).1 = .ok removed ∧
      removed = ((Dict.get? m key).map (Timestamp.text ·.expiresAt) == some text) ∧
      b.image (if removed then Dict.erase m key else m)
        (World.perform (.deleteIf key expiryField (.str text)) w).2 := by
  cases b with
  | memory => exact absurd rfl hb
  | documents =>
    have hhas : (TokenDocument.holdings m).hasText key expiryField text =
        ((Dict.get? m key).map (Timestamp.text ·.expiresAt) == some text) := by
      refine hasText_of_documented (b := documents) (fun he => ?_) fun e he => ⟨_, ?_, rfl⟩
      · rw [TokenDocument.holdings, he]
        rfl
      · rw [TokenDocument.holdings, he]
        rfl
    obtain ⟨w', hdelete, -, hholds⟩ := TokenKeeper.perform_deleteIf h key text
    refine ⟨_, congrArg Prod.fst hdelete, hhas, ?_⟩
    rw [hdelete]
    rw [Holdings.deleteIf] at hholds
    split
    · next hremoved =>
      rw [if_pos hremoved, ← TokenDocument.holdings_erase] at hholds
      exact hholds
    · next hremoved =>
      rw [if_neg hremoved] at hholds
      exact hholds
  | sealedDocuments ck =>
    obtain ⟨docs, hdocs, hseals⟩ := h
    have hhas : docs.hasText key expiryField text =
        ((Dict.get? m key).map (Timestamp.text ·.expiresAt) == some text) := by
      refine hasText_of_documented (b := sealedDocuments ck) hseals.absent fun e he => ?_
      obtain ⟨nonce, hdoc⟩ := hseals.present he
      exact ⟨_, hdoc, nonce, rfl⟩
    obtain ⟨w', hdelete, -, hholds⟩ := TokenKeeper.perform_deleteIf hdocs key text
    refine ⟨_, congrArg Prod.fst hdelete, hhas, ?_⟩
    rw [hdelete]
    rw [Holdings.deleteIf] at hholds
    split
    · next hremoved =>
      rw [if_pos hremoved] at hholds
      exact ⟨_, hholds, hseals.erase key⟩
    · next hremoved =>
      rw [if_neg hremoved] at hholds
      exact ⟨docs, hholds, hseals⟩

end

/-- The step with which a back end writes an entry; a sealed one has the credentials inside. -/
inductive Writes : StoreKind → String → Tokens → Option Credentials → Instant → Op → Prop
  | keep (key : String) (tokens : Tokens) (credentials : Option Credentials)
    (expiresAt : Instant) :
    Writes .memory key tokens credentials expiresAt (.keep key tokens credentials expiresAt)
  | merge (key : String) (tokens : Tokens) (credentials : Option Credentials)
    (expiresAt : Instant) : Writes .documents key tokens credentials expiresAt
      (.upsert key (TokenDocument.fields key tokens credentials expiresAt))
  | reseal (ck : CipherKey) (nonce : Nonce) (key : String) (tokens : Tokens)
    (credentials : Option Credentials) (expiresAt : Instant) :
    Writes (.sealedDocuments ck) key tokens credentials expiresAt
      (.upsert key (SealedDocument.fields ck nonce key ⟨tokens, credentials⟩ expiresAt))

/-- The credentials of an entry after a write: those that were passed or kept, and in a sealed
document those inside. -/
def credentialsAfter : StoreKind → Dict StoredEntry → String → Option Credentials →
    Option Credentials
  | .sealedDocuments _ => fun _ _ credentials => credentials
  | _ => fun m key credentials =>
    (Credentials.given credentials).orElse fun _ => registered m key

section

variable {b : StoreKind} {m : Dict StoredEntry} {w : World} {key : String} {tokens : Tokens}
  {credentials : Option Credentials} {expiresAt : Instant} {op : Op}

theorem Writes.image (h : b.Writes key tokens credentials expiresAt op) (himage : b.image m w) :
    b.image (Dict.insert m key ⟨tokens, b.credentialsAfter m key credentials, expiresAt⟩)
      (World.perform op w).2 := by
  cases h with
  | keep =>
    cases himage
    rfl
  | merge =>
    obtain ⟨w', hupsert, -, hholds⟩ :=
      TokenDocument.perform_upsert himage key tokens credentials expiresAt
    rw [hupsert]
    exact hholds
  | reseal ck nonce =>
    obtain ⟨docs, hdocs, hseals⟩ := himage
    obtain ⟨w', hupsert, -, hsealed⟩ :=
      SealedDocument.perform_upsert hdocs hseals nonce key ⟨tokens, credentials⟩ expiresAt
    rw [hupsert]
    exact hsealed

/-- What the steps of a store answer when nothing is the matter with the back end. -/
def Answers (b : StoreKind) : (op : Op) → op.Answer → Prop
  | .find key, answer => answer = .ok none ∨
    ∃ e doc, answer = .ok (some doc) ∧ b.Documented key e doc
  | .upsert .., answer => answer = .ok ()
  | .deleteIf .., answer => ∃ removed, answer = .ok removed
  | _, _ => True

theorem Writes.answers (h : b.Writes key tokens credentials expiresAt op)
    (himage : b.image m w) : b.Answers op (World.perform op w).1 := by
  cases h with
  | keep => exact trivial
  | merge =>
    obtain ⟨w', hupsert, -⟩ := TokenDocument.perform_upsert himage key tokens credentials expiresAt
    exact congrArg Prod.fst hupsert
  | reseal ck nonce =>
    obtain ⟨docs, hdocs, hseals⟩ := himage
    obtain ⟨w', hupsert, -⟩ :=
      SealedDocument.perform_upsert hdocs hseals nonce key ⟨tokens, credentials⟩ expiresAt
    exact congrArg Prod.fst hupsert

theorem answers_find (h : b.image m w) (hb : b ≠ .memory) (key : String) :
    b.Answers (.find key) (World.perform (.find key) w).1 := by
  rcases find_documented h hb key with ⟨-, hfind⟩ | ⟨e, doc, -, hfind, hdoc⟩
  · exact Or.inl hfind
  · exact Or.inr ⟨e, doc, hfind, hdoc⟩

theorem answers_purge (h : b.image m w) (hb : b ≠ .memory) (key text : String) :
    b.Answers (.deleteIf key expiryField (.str text))
      (World.perform (.deleteIf key expiryField (.str text)) w).1 := by
  obtain ⟨removed, hanswer, -⟩ := perform_purge h hb key text
  exact ⟨removed, hanswer⟩

theorem registered_insert (m : Dict StoredEntry) (key : String) (e : StoredEntry) :
    registered (Dict.insert m key e) key = e.credentials := by
  rw [registered, Dict.get?_insert, if_pos rfl]
  rfl

end

/-! ### Loads and saves, step by step -/

section

variable {b : StoreKind} {Phase : Type} {d : Discipline Phase} {owed : List Op} {phase : Phase}

def opened (b : StoreKind) (key : String) (doc : Document) : Program StoredEntry :=
  match b with
  | .memory => .fail (.nothingStored key)
  | .documents => TokenDocument.loadFrom key doc
  | .sealedDocuments ck => SealedDocument.loadFrom ck key doc

theorem load_eq (hb : b ≠ .memory) (key : String) :
    b.store.load key = (findStored key).bind (b.opened key) := by
  cases b with
  | memory => exact absurd rfl hb
  | documents => rfl
  | sealedDocuments ck => rfl

theorem Documented.opened {key : String} {e : StoredEntry} {doc : Document}
    (h : b.Documented key e doc) : b.opened key doc = .step .now fun now =>
      if e.isExpiredAt now then purge key doc else .done (b.shown key e) := by
  cases b with
  | memory => exact h.elim
  | documents =>
    cases h
    simp only [StoreKind.opened, TokenDocument.loadFrom, TokenDocument.ofDocument?_fields,
      TokenDocument.entry_fields]
    rfl
  | sealedDocuments ck =>
    obtain ⟨nonce, rfl⟩ := h
    simp only [StoreKind.opened, SealedDocument.loadFrom, SealedDocument.ofDocument?_fields,
      SealedDocument.payload_dataOf]
    rfl

theorem Documented.purge {α : Type} {key : String} {e : StoredEntry} {doc : Document}
    (h : b.Documented key e doc) : purge (α := α) key doc =
      .step (.deleteIf key expiryField (.str (Timestamp.text e.expiresAt))) fun answer =>
        (Program.ofExcept answer).bind fun _ => .fail (.expired key) := by
  rw [TokenKeeper.purge, h.get?_expiry]
  rfl

theorem obeys_load {ends : List Op → Phase → Except Failure StoredEntry → Prop}
    (hb : b ≠ .memory) {key : String} (hfind : d.allows owed phase (.find key))
    (hanswers : ∀ op phase answer, d.expects phase op answer → b.Answers op answer)
    (hnone : d.expects phase (.find key) (.ok none) →
      ends owed (d.next phase (.find key) (.ok none)) (.error (.nothingStored key)))
    (hsome : ∀ e doc found, b.Documented key e doc → d.expects phase (.find key) (.ok (some doc)) →
      d.next phase (.find key) (.ok (some doc)) = found →
      d.allows owed found .now ∧ ∀ now judged, d.expects found .now now →
        d.next found .now now = judged →
        (e.isExpiredAt now = false → ends owed judged (.ok (b.shown key e))) ∧
        (e.isExpiredAt now = true →
          d.allows owed judged (.deleteIf key expiryField (.str (Timestamp.text e.expiresAt))) ∧
          ∀ removed, ends owed (d.next judged
            (.deleteIf key expiryField (.str (Timestamp.text e.expiresAt))) (.ok removed))
            (.error (.expired key)))) :
    (b.store.load key).Obeys d ends owed phase := by
  rw [load_eq hb]
  refine ⟨hfind, fun answer hanswer => ?_⟩
  rcases hanswers _ _ _ hanswer with rfl | ⟨e, doc, rfl, hdoc⟩
  · exact hnone hanswer
  · obtain ⟨hnow, hjudged⟩ := hsome e doc _ hdoc hanswer rfl
    change (b.opened key doc).Obeys d ends owed _
    rw [hdoc.opened]
    refine ⟨hnow, fun now hexpects => ?_⟩
    obtain ⟨hlive, hexpired⟩ := hjudged now _ hexpects rfl
    change (if e.isExpiredAt now then purge key doc else .done (b.shown key e)).Obeys d ends owed _
    by_cases he : e.isExpiredAt now = true
    · obtain ⟨hpurge, hends⟩ := hexpired he
      rw [if_pos he, hdoc.purge]
      refine ⟨hpurge, fun answer hanswer => ?_⟩
      obtain ⟨removed, rfl⟩ := hanswers _ _ _ hanswer
      exact hends removed
    · rw [if_neg he]
      exact hlive (Bool.eq_false_iff.mpr he)

variable {key : String} {tokens : Tokens} {credentials : Option Credentials} {expiresAt : Instant}

theorem sealed_save_given {ck : CipherKey} {c : Credentials}
    (h : Credentials.given credentials = some c) :
    (sealedDocuments ck).store.save key tokens credentials expiresAt = .step .nonce fun nonce =>
      .step (.upsert key (SealedDocument.fields ck nonce key ⟨tokens, some c⟩ expiresAt))
        Program.ofExcept := by
  simp only [store, TokenStore.sealedDocuments, TokenStore.credentialsToSeal, h]
  rfl

theorem sealed_save_none {ck : CipherKey} (h : Credentials.given credentials = none) :
    (sealedDocuments ck).store.save key tokens credentials expiresAt =
      .step (.find key) fun answer => (Program.ofExcept answer).bind fun found => .step .nonce
        fun nonce => .step (.upsert key (SealedDocument.fields ck nonce key
          ⟨tokens, found.bind ((sealedDocuments ck).sealedIn?)⟩ expiresAt)) Program.ofExcept := by
  simp only [store, TokenStore.sealedDocuments, TokenStore.credentialsToSeal, h]
  refine congrArg (Program.step _) (funext fun answer => ?_)
  rcases answer with e | found
  · rfl
  · cases found <;> rfl

variable {ends : List Op → Phase → Except Failure Unit → Prop}

theorem obeys_seal {ck : CipherKey} {found : Option Credentials}
    (hanswers : ∀ op phase answer, d.expects phase op answer →
      (sealedDocuments ck).Answers op answer)
    (hnonce : d.allows owed phase .nonce ∧ ∀ nonce, d.next phase .nonce nonce = phase)
    (hwrite : ∀ op, (sealedDocuments ck).Writes key tokens found expiresAt op →
      d.allows owed phase op ∧ ∀ answer, ends owed (d.next phase op answer) (.ok ())) :
    Program.Obeys d ends (.step .nonce fun nonce => .step (.upsert key
      (SealedDocument.fields ck nonce key ⟨tokens, found⟩ expiresAt)) Program.ofExcept)
      owed phase := by
  refine ⟨hnonce.1, fun nonce _ => ?_⟩
  rw [hnonce.2 nonce]
  obtain ⟨hallows, hends⟩ := hwrite _ (.reseal ck nonce key tokens found expiresAt)
  refine ⟨hallows, fun answer hanswer => ?_⟩
  cases hanswers _ _ _ hanswer
  exact hends _

theorem obeys_save (b : StoreKind)
    (hanswers : ∀ op phase answer, d.expects phase op answer → b.Answers op answer)
    (hnonce : d.allows owed phase .nonce ∧ ∀ nonce, d.next phase .nonce nonce = phase)
    (hwrite : ∀ op, (∀ ck, b = .sealedDocuments ck →
        Credentials.given credentials = credentials ∧ credentials.isSome) →
      b.Writes key tokens credentials expiresAt op →
      d.allows owed phase op ∧ ∀ answer, ends owed (d.next phase op answer) (.ok ()))
    (hlook : ∀ ck, b = .sealedDocuments ck → Credentials.given credentials = none →
      d.allows owed phase (.find key) ∧ ∀ found looked,
        d.next phase (.find key) (.ok found) = looked →
        (d.allows owed looked .nonce ∧ ∀ nonce, d.next looked .nonce nonce = looked) ∧
        ∀ op, b.Writes key tokens (found.bind b.sealedIn?) expiresAt op →
          d.allows owed looked op ∧ ∀ answer, ends owed (d.next looked op answer) (.ok ())) :
    (b.store.save key tokens credentials expiresAt).Obeys d ends owed phase := by
  cases b with
  | memory =>
    obtain ⟨hallows, hends⟩ := hwrite _ nofun (.keep key tokens credentials expiresAt)
    exact ⟨hallows, fun _ _ => hends _⟩
  | documents =>
    obtain ⟨hallows, hends⟩ := hwrite _ nofun (.merge key tokens credentials expiresAt)
    refine ⟨hallows, fun answer hanswer => ?_⟩
    cases hanswers _ _ _ hanswer
    exact hends _
  | sealedDocuments ck =>
    cases hgiven : Credentials.given credentials with
    | some c =>
      have hsame : credentials = some c := (Option.filter_eq_some_iff.mp hgiven).1
      rw [sealed_save_given hgiven]
      refine obeys_seal hanswers hnonce fun op hop => hwrite op ?_ ?_
      · exact fun _ _ => ⟨hgiven.trans hsame.symm, by rw [hsame]; rfl⟩
      · rw [hsame]
        exact hop
    | none =>
      obtain ⟨hallows, hlooked⟩ := hlook ck rfl hgiven
      rw [sealed_save_none hgiven]
      refine ⟨hallows, fun answer hanswer => ?_⟩
      have hfound : ∃ found, answer = .ok found := by
        rcases hanswers _ _ _ hanswer with h | ⟨e, doc, h, -⟩
        · exact ⟨_, h⟩
        · exact ⟨_, h⟩
      obtain ⟨found, rfl⟩ := hfound
      obtain ⟨hnonce', hwrite'⟩ := hlooked found _ rfl
      exact obeys_seal hanswers hnonce' hwrite'

end

end StoreKind
end TokenKeeper
