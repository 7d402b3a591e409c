import TokenKeeper.Proofs.Client.Backends

/-!
# The steps of loads and refreshes

A load, or a client that hands out an access token, takes few kinds of steps on a back end: it looks
at what is stored, deletes what has expired, and saves without a registration. Such a step leaves
entries behind, and the registration of each of them was there before; only a sealed document gets
the registration that its save saw earlier, of which all that is known is that it was good then.
-/
namespace TokenKeeper

variable {good : String → Option Credentials → Prop}

def registered (m : Dict StoredEntry) (key : String) : Option Credentials :=
  (Dict.get? m key).bind (·.credentials)

def Follows (good : String → Option Credentials → Prop) (m m' : Dict StoredEntry) : Prop :=
  ∀ key e, Dict.get? m' key = some e → e.credentials = registered m key ∨ good key e.credentials

namespace Follows

variable (good)

theorem refl (m : Dict StoredEntry) : Follows good m m := by
  intro key e he
  rw [registered, he]
  exact Or.inl rfl

theorem erase (m : Dict StoredEntry) (key : String) : Follows good m (Dict.erase m key) := by
  intro other e he
  rw [Dict.get?_erase] at he
  split at he
  · cases he
  · exact refl good m other e he

theorem load (m : Dict StoredEntry) (now : Instant) (key : String) :
    Follows good m (Memory.load m now key).2 := by
  unfold Memory.load
  split
  · exact refl good m
  · split
    · exact erase good m key
    · exact refl good m

variable {good}

theorem insert (m : Dict StoredEntry) {key : String} {e : StoredEntry}
    (he : e.credentials = registered m key ∨ good key e.credentials) :
    Follows good m (Dict.insert m key e) := by
  intro other e' he'
  rw [Dict.get?_insert] at he'
  by_cases hk : key = other
  · rw [if_pos hk] at he'
    cases he'
    cases hk
    exact he
  · rw [if_neg hk] at he'
    exact refl good m other e' he'

end Follows

namespace StoreKind

/-! ### What a back end holds -/

/-- The entry of a key as a back end shows it, expired or not. -/
def held? (b : StoreKind) (w : World) (key : String) : Option StoredEntry :=
  match b with
  | .memory => Dict.get? w.memory key
  | .documents => do
    let doc ← (← (w.find key).toOption)
    let d ← TokenDocument.ofDocument? doc
    return d.entry key
  | .sealedDocuments ck => do
    let doc ← (← (w.find key).toOption)
    let d ← SealedDocument.ofDocument? doc
    let p ← (SealedDocument.payload ck d.data).toOption
    return ⟨p.tokens, p.credentials, d.expiresAt⟩

def credentials? (b : StoreKind) (w : World) (key : String) : Option Credentials :=
  (b.held? w key).bind (·.credentials)

theorem held?_memory (w : World) (key : String) : memory.held? w key = Dict.get? w.memory key :=
  rfl

theorem held?_of_image {b : StoreKind} {m : Dict StoredEntry} {w : World} (h : b.image m w)
    (key : String) : b.held? w key = (Dict.get? m key).map (b.shown key) := by
  cases b with
  | memory =>
    cases h
    exact Option.map_id'.symm
  | documents =>
    have hfind : w.find key = .ok (TokenDocument.holdings m key) := World.Holds.find h key
    simp only [held?, hfind, TokenDocument.holdings, Except.toOption]
    cases Dict.get? m key with
    | none => rfl
    | some e =>
      simp only [Option.map_some, Option.bind_eq_bind, Option.bind_some,
        TokenDocument.ofDocument?_fields, TokenDocument.entry_fields]
      rfl
  | sealedDocuments ck =>
    obtain ⟨docs, hholds, hseals⟩ := h
    simp only [held?, hholds.find key, Except.toOption]
    cases he : Dict.get? m key with
    | none =>
      rw [hseals.absent he]
      rfl
    | some e =>
      obtain ⟨nonce, hdoc⟩ := hseals.present he
      simp only [hdoc, Option.bind_eq_bind, Option.bind_some, SealedDocument.ofDocument?_fields,
        SealedDocument.payload_dataOf]
      rfl

theorem shown_credentials (b : StoreKind) (key : String) (tokens : Tokens) (expiresAt : Instant)
    (e : Option StoredEntry) :
    (b.shown key ⟨tokens, e.bind (·.credentials), expiresAt⟩).credentials =
      (e.map (b.shown key)).bind (·.credentials) := by
  cases e with
  | none => cases b <;> rfl
  | some e => cases b <;> rfl

theorem credentials?_of_image {b : StoreKind} {m : Dict StoredEntry} {w : World} (h : b.image m w)
    (key : String) (tokens : Tokens) (expiresAt : Instant) : b.credentials? w key =
      (b.shown key ⟨tokens, registered m key, expiresAt⟩).credentials := by
  rw [credentials?, held?_of_image h, registered, shown_credentials]

/-! ### What the steps do -/

/-- The steps of loads, and of saves without a registration. -/
inductive Allows (good : String → Option Credentials → Prop) : StoreKind → Op → Prop
  | outer {b : StoreKind} {op : Op} (h : op.isOuter = true) : Allows good b op
  | reload (key : String) : Allows good .memory (.recall key)
  | keep (key : String) (tokens : Tokens) (expiresAt : Instant) :
    Allows good .memory (.keep key tokens none expiresAt)
  | find {b : StoreKind} (hb : b ≠ .memory) (key : String) : Allows good b (.find key)
  | purge {b : StoreKind} (hb : b ≠ .memory) (key expiry : String) :
    Allows good b (.deleteIf key expiryField (.str expiry))
  | nonce {b : StoreKind} : Allows good b .nonce
  | merge (key : String) (tokens : Tokens) (expiresAt : Instant) :
    Allows good .documents (.upsert key (TokenDocument.fields key tokens none expiresAt))
  | reseal (ck : CipherKey) (nonce : Nonce) (key : String) {p : Payload} (expiresAt : Instant)
    (h : good key p.credentials) :
    Allows good (.sealedDocuments ck) (.upsert key (SealedDocument.fields ck nonce key p expiresAt))

/-- What such steps answer: what is found has an expiry, and what was sealed in it is good. -/
def Expects (good : String → Option Credentials → Prop) (b : StoreKind) :
    (op : Op) → op.Answer → Prop
  | .find key, answer => ∃ found, answer = .ok found ∧
    (∀ doc ∈ found, ∃ expiry, Dict.get? doc expiryField = some (.str expiry)) ∧
    ∀ ck, b = .sealedDocuments ck → good key (found.bind (SealedDocument.credentials? ck))
  | _, _ => True

variable {b : StoreKind} {op : Op} {m : Dict StoredEntry} {w : World}

theorem find_of_image (h : b.image m w) (hb : b ≠ .memory) (key : String) :
    ∃ found, w.find key = .ok found ∧
      (∀ doc ∈ found, ∃ expiry, Dict.get? doc expiryField = some (.str expiry)) ∧
      ∀ ck, b = .sealedDocuments ck →
        found.bind (SealedDocument.credentials? ck) = registered m key := by
  cases b with
  | memory => exact absurd rfl hb
  | documents =>
    refine ⟨_, World.Holds.find h key, ?_, fun ck hck => nomatch hck⟩
    intro doc hdoc
    obtain ⟨e, -, rfl⟩ := Option.map_eq_some_iff.mp hdoc
    exact ⟨_, TokenDocument.get?_expiry _ _ _ _⟩
  | sealedDocuments ck =>
    obtain ⟨docs, hholds, hseals⟩ := h
    refine ⟨_, hholds.find key, ?_, ?_⟩
    · intro doc hdoc
      cases he : Dict.get? m key with
      | none =>
        rw [hseals.absent he] at hdoc
        cases hdoc
      | some e =>
        obtain ⟨nonce, hsome⟩ := hseals.present he
        rw [hsome] at hdoc
        cases hdoc
        exact ⟨_, SealedDocument.get?_expiry _ _ _ _ _⟩
    · rintro _ ⟨⟩
      exact hseals.credentials? key

theorem image_deleteIf (h : b.image m w) (hb : b ≠ .memory) (key expiry : String) :
    ∃ m', b.image m' (World.perform (.deleteIf key expiryField (.str expiry)) w).2 ∧
      (m' = m ∨ m' = Dict.erase m key) := by
  have hafter : ∀ docs : Holdings, docs.deleteIf key expiryField expiry = docs ∨
      docs.deleteIf key expiryField expiry = docs.put key none := by
    intro docs
    rw [Holdings.deleteIf]
    split
    · exact Or.inr rfl
    · exact Or.inl rfl
  cases b with
  | memory => exact absurd rfl hb
  | documents =>
    obtain ⟨w', hdelete, -, hholds⟩ := perform_deleteIf h key expiry
    rw [hdelete]
    rcases hafter (TokenDocument.holdings m) with hsame | herased
    · rw [hsame] at hholds
      exact ⟨m, hholds, Or.inl rfl⟩
    · rw [herased, ← TokenDocument.holdings_erase] at hholds
      exact ⟨_, hholds, Or.inr rfl⟩
  | sealedDocuments ck =>
    obtain ⟨docs, hdocs, hseals⟩ := h
    obtain ⟨w', hdelete, -, hholds⟩ := perform_deleteIf hdocs key expiry
    rw [hdelete]
    rcases hafter docs with hsame | herased
    · rw [hsame] at hholds
      exact ⟨m, ⟨docs, hholds, hseals⟩, Or.inl rfl⟩
    · rw [herased] at hholds
      exact ⟨_, ⟨_, hholds, hseals.erase key⟩, Or.inr rfl⟩

theorem Allows.follows (h : Allows good b op) (himage : b.image m w) :
    ∃ m', b.image m' (World.perform op w).2 ∧ Follows good m m' := by
  cases h with
  | outer h => exact ⟨m, b.keeps.frame himage (World.sameInside_perform h w), .refl good m⟩
  | reload key =>
    cases himage
    exact ⟨_, rfl, .load good w.memory w.clock key⟩
  | keep key tokens expiresAt =>
    cases himage
    exact ⟨_, rfl, .insert w.memory (Or.inl rfl)⟩
  | find hb key => exact ⟨m, himage, .refl good m⟩
  | purge hb key expiry =>
    obtain ⟨m', himage', rfl | rfl⟩ := image_deleteIf himage hb key expiry
    · exact ⟨m', himage', .refl good m'⟩
    · exact ⟨_, himage', .erase good m key⟩
  | nonce => exact ⟨m, b.keeps.frame himage ⟨rfl, rfl, rfl, rfl, rfl⟩, .refl good m⟩
  | merge key tokens expiresAt =>
    obtain ⟨w', hupsert, -, hholds⟩ :=
      TokenDocument.perform_upsert himage key tokens none expiresAt
    rw [hupsert]
    exact ⟨_, hholds, .insert m (Or.inl rfl)⟩
  | reseal ck nonce key expiresAt h =>
    obtain ⟨docs, hdocs, hseals⟩ := himage
    obtain ⟨w', hupsert, -, hsealed⟩ :=
      SealedDocument.perform_upsert hdocs hseals nonce key _ expiresAt
    rw [hupsert]
    exact ⟨_, hsealed, .insert m (Or.inr h)⟩

theorem Allows.expects (h : Allows good b op) (himage : b.image m w)
    (hgood : ∀ key, good key (registered m key)) :
    Expects good b op (World.perform op w).1 := by
  cases h with
  | outer h => cases op <;> first | contradiction | exact trivial
  | reload key => exact trivial
  | keep key tokens expiresAt => exact trivial
  | find hb key =>
    obtain ⟨found, hfind, hexpiry, hregistered⟩ := find_of_image himage hb key
    refine ⟨found, hfind, hexpiry, fun ck hck => ?_⟩
    rw [hregistered ck hck]
    exact hgood key
  | purge hb key expiry => exact trivial
  | nonce => exact trivial
  | merge key tokens expiresAt => exact trivial
  | reseal ck nonce key expiresAt h => exact trivial

end StoreKind
end TokenKeeper
