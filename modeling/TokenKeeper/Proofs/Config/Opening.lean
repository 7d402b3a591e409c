import TokenKeeper.Config.Opening
import TokenKeeper.Proofs.Config.Validity
import TokenKeeper.Proofs.Documents

/-!
# Opening the store of a loaded configuration

What a loaded configuration says about its store is enough to open it. Which store that is, and
under which key it seals, is settled by the configuration (`Chosen`); whether it opens depends on
the medium alone (`Medium`).
-/
namespace TokenKeeper

open Secret (Sourced)

variable {env : Environment} {disk : Disk} {path : String} {c : Config} {w : World}

theorem CipherKey.decode_of_ofText {text : String} {key : CipherKey}
    (h : CipherKey.ofText text = .ok key) : Base64.decode (Text.trim text) = .ok key.bytes := by
  unfold ofText at h
  cases hdecode : Base64.decode (Text.trim text) with
  | error e =>
    rw [hdecode] at h
    cases h
  | ok bytes =>
    rw [hdecode] at h
    change ofBytes bytes = .ok key at h
    unfold ofBytes at h
    split at h
    · cases h
      rfl
    · cases h

theorem FileCollection.kind_of_openAt {d : Disk} {path : String} {mishap : Option WriteStep}
    {e : Failure} (h : openAt d path mishap = .error e) :
    e.kind = .store ∨ e.kind = .serialization := by
  unfold openAt at h
  split at h
  · cases hread : d.readText? path with
    | none =>
      rw [hread] at h
      cases h
      exact .inl rfl
    | some text =>
      simp only [hread] at h
      split at h <;> cases h
      exact .inr rfl
  · exact .inl (kind_of_store h)

theorem TokenStore.ne_memory_of_find {store : TokenStore}
    {next : Except Failure (Option Document) → Program StoredEntry}
    (h : store.load "" = .step (.find "") next) : store ≠ .memory := by
  rintro rfl
  cases h

namespace StoreConfig

/-- What opening the medium of a store comes to. There are no failures but those of the file, of the
database, and of its table. -/
inductive Medium (s : StoreConfig) (w : World) : Except OpenFailure World → Prop
  | memory (hbackend : s.backend = .memory) : Medium s w (.ok w)
  | file {p : String} {opened : FileCollection × Disk} (hbackend : s.backend = .file)
    (hpath : s.path = some p) (h : FileCollection.openAt w.disk p w.fault = .ok opened) :
    Medium s w (.ok (w.withFile opened))
  | badFile {p : String} {e : Failure} (hbackend : s.backend = .file) (hpath : s.path = some p)
    (h : FileCollection.openAt w.disk p w.fault = .error e)
    (hkind : e.kind = .store ∨ e.kind = .serialization) : Medium s w (.error (.file p e))
  | table {p : String} {db created : Database} (hbackend : s.backend = .sqlite)
    (hpath : s.path = some p) (h : w.disk.database? p = some db)
    (hcreate : db.create? = .ok created) :
    Medium s w (.ok { w with database := created, collection := .table s.collection,
                             disk := w.disk.saveDatabase p created })
  | badDatabase {p : String} (hbackend : s.backend = .sqlite) (hpath : s.path = some p)
    (h : w.disk.database? p = none) : Medium s w (.error (.database p))
  | badTable {p : String} {db : Database} (hbackend : s.backend = .sqlite)
    (hpath : s.path = some p) (h : w.disk.database? p = some db)
    (hcreate : db.create? = .error .tableCreate) : Medium s w (.error (.table .tableCreate))

/-- The store that a loaded configuration asks for, and the key that was checked while loading. -/
inductive Chosen (env : Environment) (disk : Disk) (s : StoreConfig) : TokenStore → Prop
  | memory (hbackend : s.backend = .memory) (hplain : s.encrypted = false) (hkey : s.key = none) :
    Chosen env disk s .memory
  | documents (hbackend : s.backend ≠ .memory) (hplain : s.encrypted = false)
    (hkey : s.key = none) : Chosen env disk s .documents
  | sealedDocuments {secret : Secret} {key : CipherKey} (hbackend : s.backend ≠ .memory)
    (hencrypted : s.encrypted = true) (hkey : s.key = some secret)
    (hsource : Sourced env disk Config.keyVariable s.keyFile (.ok (some secret)))
    (hbytes : Base64.decode secret.text = .ok key.bytes) :
    Chosen env disk s (.sealedDocuments key)

section

variable {s : StoreConfig} {p : String} {store : TokenStore}

theorem medium_openFile (hbackend : s.backend = .file) (hpath : s.path = some p) (w : World) :
    s.Medium w (openFile p w) := by
  unfold openFile
  cases h : FileCollection.openAt w.disk p w.fault with
  | ok opened => exact .file hbackend hpath h
  | error e => exact .badFile hbackend hpath h (FileCollection.kind_of_openAt h)

theorem medium_openDatabase (hbackend : s.backend = .sqlite) (hpath : s.path = some p)
    (w : World) : s.Medium w (openDatabase p s.collection w) := by
  unfold openDatabase
  cases h : w.disk.database? p with
  | none => exact .badDatabase hbackend hpath h
  | some db =>
    cases db with
    | ready | dropped => exact .table hbackend hpath h rfl
    | blocked => exact .badTable hbackend hpath h rfl

theorem openStore_file (hbackend : s.backend = .file) (hpath : s.path = some p)
    (hstore : s.documentStore = .ok store) (w : World) :
    s.openStore w = (openFile p w).map fun w' => (store, w') := by
  unfold openStore requirePath
  rw [hbackend, hpath, hstore]
  change (openFile p w).bind _ = _
  cases openFile p w <;> rfl

theorem openStore_sqlite (hbackend : s.backend = .sqlite) (hpath : s.path = some p)
    (hstore : s.documentStore = .ok store) (w : World) :
    s.openStore w = (openDatabase p s.collection w).map fun w' => (store, w') := by
  unfold openStore requirePath
  rw [hbackend, hpath, hstore]
  change (openDatabase p s.collection w).bind _ = _
  cases openDatabase p s.collection w <;> rfl

theorem exists_medium (hfault : Config.storeFault? s = none)
    (hmemory : s.backend = .memory → store = .memory)
    (hstore : s.backend ≠ .memory → s.documentStore = .ok store) (w : World) :
    ∃ medium, s.Medium w medium ∧ s.openStore w = medium.map fun w' => (store, w') := by
  obtain ⟨-, hpath, -⟩ := Config.storeFault?_eq_none_iff.mp hfault
  have hplace (hne : s.backend ≠ .memory) : ∃ p, s.path = some p :=
    Option.ne_none_iff_exists'.mp (hpath hne)
  cases hbackend : s.backend with
  | memory =>
    refine ⟨.ok w, .memory hbackend, ?_⟩
    unfold openStore
    rw [hbackend, hmemory hbackend]
    rfl
  | file =>
    have hne : s.backend ≠ .memory := by simp [hbackend]
    obtain ⟨p, hp⟩ := hplace hne
    exact ⟨_, medium_openFile hbackend hp w, openStore_file hbackend hp (hstore hne) w⟩
  | sqlite =>
    have hne : s.backend ≠ .memory := by simp [hbackend]
    obtain ⟨p, hp⟩ := hplace hne
    exact ⟨_, medium_openDatabase hbackend hp w, openStore_sqlite hbackend hp (hstore hne) w⟩

end

theorem Medium.failure {s : StoreConfig} {e : OpenFailure} (h : s.Medium w (.error e)) :
    (∀ b, e ≠ .noPath b) ∧ e ≠ .noKey ∧ ∀ f, e ≠ .badKey f := by
  cases h <;> exact ⟨nofun, nofun, nofun⟩

theorem documentStore_plain {s : StoreConfig} (h : s.encrypted = false) :
    s.documentStore = .ok .documents := by
  rw [documentStore, h]
  rfl

theorem documentStore_sealed {s : StoreConfig} {secret : Secret} {key : CipherKey}
    (h : s.encrypted = true) (hsecret : s.key = some secret)
    (hkey : CipherKey.ofText secret.text = .ok key) :
    s.documentStore = .ok (.sealedDocuments key) := by
  unfold documentStore
  rw [h, hsecret]
  simp only [hkey]
  rfl

theorem exists_chosen (h : Config.load env disk path = .ok c) :
    ∃ store, Chosen env disk c.store store ∧ (c.store.backend = .memory → store = .memory) ∧
      (c.store.backend ≠ .memory → c.store.documentStore = .ok store) := by
  have hfault := (Config.fault?_eq_none_iff.mp (Config.fault?_of_load h)).2
  obtain ⟨hmemory, -, -⟩ := Config.storeFault?_eq_none_iff.mp hfault
  obtain ⟨c, secret, key, -, rfl, -, hkey⟩ := Config.exists_read_of_load h
  cases hkey with
  | plain hplain =>
    by_cases hbackend : c.store.backend = .memory
    · exact ⟨_, .memory hbackend hplain rfl, fun _ => rfl, fun hne => absurd hbackend hne⟩
    · exact ⟨_, .documents hbackend hplain rfl, fun hb => absurd hb hbackend,
        fun _ => documentStore_plain hplain⟩
  | found hencrypted hsource hcipher =>
    have hbackend : c.store.backend ≠ .memory := fun hb => hmemory ⟨hb, hencrypted⟩
    -- Opening trims the key again, which changes nothing in one that was found.
    have hbytes := CipherKey.decode_of_ofText hcipher
    rw [Text.trim_eq_iff.mpr hsource.holds.1] at hbytes
    exact ⟨_, .sealedDocuments hbackend hencrypted rfl hsource hbytes,
      fun hb => absurd hb hbackend, fun _ => documentStore_sealed hencrypted rfl hcipher⟩

theorem Chosen.ne_memory {s : StoreConfig} {store : TokenStore} (h : Chosen env disk s store)
    (hkind : s.encrypted = true ∨ s.backend ≠ .memory) : store ≠ .memory := by
  cases h with
  | memory hbackend hplain =>
    rcases hkind with hencrypted | hne
    · exact absurd (hplain.symm.trans hencrypted) Bool.false_ne_true
    · exact absurd hbackend hne
  | documents => exact TokenStore.ne_memory_of_find rfl
  | sealedDocuments => exact TokenStore.ne_memory_of_find rfl

theorem openStore_plain_congr {s : StoreConfig} (h : s.encrypted = false) (key : Option Secret)
    (w : World) : ({ s with key }).openStore w = s.openStore w := by
  have hstore : ({ s with key }).documentStore = s.documentStore :=
    (documentStore_plain (s := { s with key }) h).trans (documentStore_plain h).symm
  unfold openStore
  rw [hstore]
  rfl

/-- A loaded configuration opens its store. -/
theorem openStore_of_load (h : Config.load env disk path = .ok c) :
    ∃ store, Chosen env disk c.store store ∧
      (∀ w, ∃ medium, c.store.Medium w medium ∧
        c.store.openStore w = medium.map fun w' => (store, w')) ∧
      (∀ w, (∀ b, c.store.openStore w ≠ .error (.noPath b)) ∧
        c.store.openStore w ≠ .error .noKey ∧ ∀ e, c.store.openStore w ≠ .error (.badKey e)) ∧
      (c.store.encrypted = true ∨ c.store.backend ≠ .memory → store ≠ .memory) ∧
      (c.store.encrypted = false →
        (∀ key w, ({ c.store with key }).openStore w = c.store.openStore w) ∧
        ∀ env' disk', Dict.get? env' Config.clientSecretVariable =
            Dict.get? env Config.clientSecretVariable →
          disk'.read? path = disk.read? path →
          (∀ p ∈ c.client.clientSecretFile, disk'.read? p = disk.read? p) →
          Config.load env' disk' path = .ok c) := by
  obtain ⟨store, hchosen, hmemory, hstore⟩ := exists_chosen h
  have hfault := (Config.fault?_eq_none_iff.mp (Config.fault?_of_load h)).2
  have hmedium := exists_medium hfault hmemory hstore
  refine ⟨store, hchosen, hmedium, fun w => ?_, hchosen.ne_memory, fun hplain => ⟨?_, ?_⟩⟩
  · obtain ⟨medium, hopened, hopen⟩ := hmedium w
    rw [hopen]
    cases medium with
    | ok w' => exact ⟨nofun, nofun, nofun⟩
    | error e =>
      obtain ⟨hpath, hkey, hbad⟩ := hopened.failure
      exact ⟨fun b he => hpath b (Except.error.inj he), fun he => hkey (Except.error.inj he),
        fun f he => hbad f (Except.error.inj he)⟩
  · exact openStore_plain_congr hplain
  · exact fun env' disk' henv hpath hdisk => Config.load_plain_congr h hplain henv hpath hdisk

end StoreConfig

theorem Padded.opens_sealed :
    Config.load environment Padded.disk "config.toml" = .ok config ∧
    ∃ key : CipherKey, key.bytes = List.replicate 32 7 ∧
      TokenStore.sealedDocuments key ≠ .memory ∧
      ∀ w opened, FileCollection.openAt w.disk "tokens.json" w.fault = .ok opened →
        config.store.openStore w = .ok (.sealedDocuments key, w.withFile opened) := by
  obtain ⟨store, hchosen, hmedium, -, hmemory, -⟩ := StoreConfig.openStore_of_load load_config
  cases hchosen with
  | memory hbackend => cases hbackend
  | documents _ hplain => cases hplain
  | @sealedDocuments secret key _ hencrypted hkey _ hbytes =>
    have hsecret : (⟨Padded.key⟩ : Secret) = secret := Option.some.inj hkey
    have hdecode : Base64.decode Padded.key = .ok (List.replicate 32 7) := by decide +kernel
    rw [← hsecret] at hbytes
    refine ⟨load_config, key, Except.ok.inj (hbytes.symm.trans hdecode),
      hmemory (.inl hencrypted), fun w opened hopened => ?_⟩
    obtain ⟨medium, hcase, hopen⟩ := hmedium w
    rw [hopen]
    cases hcase with
    | memory hbackend => cases hbackend
    | file _ hpath h =>
      cases hpath
      cases h.symm.trans hopened
      rfl
    | badFile _ hpath h =>
      cases hpath
      cases h.symm.trans hopened
    | table hbackend => cases hbackend
    | badDatabase hbackend => cases hbackend
    | badTable hbackend => cases hbackend

end TokenKeeper
