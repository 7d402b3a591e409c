import TokenKeeper.Config.Load
import TokenKeeper.Proofs.Binds
import TokenKeeper.Proofs.Secrets

/-!
# What a loaded configuration holds

A configuration is loaded if its file holds a valid one, the file of the client secret can be read
where it is needed, and a store that is to be encrypted finds its key. What the text says under the
names of the secrets plays no part: only the files that it names do.
-/
namespace TokenKeeper

open Secret (Sourced Unreadable)

/-! ### Entries for secrets -/

namespace Toml

variable {key name : String}

theorem Members.get?_filter (h : name ≠ key) (members : Members) :
    Members.get? (members.filter fun m => m.1 != key) name = Members.get? members name := by
  unfold Members.get?
  rw [List.find?_filter]
  congr 2
  funext m
  by_cases hm : m.1 = name
  · simp [hm, h]
  · simp [hm]

theorem Members.get?_map (members : Members) (f : String → Value → Value) (name : String) :
    Members.get? (members.map fun m => (m.1, f m.1 m.2)) name =
      (Members.get? members name).map (f name) := by
  unfold Members.get?
  rw [List.find?_map]
  change ((members.find? fun m => m.1 == name).map _).map _ = _
  cases hfind : members.find? fun m => m.1 == name with
  | none => rfl
  | some m =>
    have hfound := List.find?_some hfind
    have hname : m.1 = name := beq_iff_eq.mp hfound
    rw [Option.map_some, Option.map_some, Option.map_some, Option.map_some, hname]

def Value.without (key : String) : Value → Value
  | .table origin members => .table origin (members.filter fun m => m.1 != key)
  | v => v

theorem Value.record?_without {names : List String} (h : key ∉ names) (v : Value) :
    (v.without key).record? names = v.record? names := by
  cases v with
  | table origin members =>
    refine congrArg some (List.map_congr_left fun name hname => ?_)
    refine Members.get?_filter ?_ members
    rintro rfl
    exact h hname
  | _ => rfl

end Toml

theorem ClientConfig.ofToml?_without (v : Toml.Value) :
    ofToml? (v.without "client_secret") = ofToml? v := by
  rw [ofToml?, ofToml?, Toml.Value.record?_without (by decide)]

theorem StoreConfig.ofToml?_without (v : Toml.Value) :
    ofToml? (v.without "key") = ofToml? v := by
  rw [ofToml?, ofToml?, Toml.Value.record?_without (by decide)]

namespace Config

variable {env : Environment} {disk : Disk} {path text : String} {c : Config}

/-- What stands in a configuration text under a name, without an entry for the secret. -/
def openPart (name : String) (v : Toml.Value) : Toml.Value :=
  if name = "oauth" then v.without "client_secret"
  else if name = "store" then v.without "key"
  else v

/-- Two texts that hold the same tables but for the entries that are named after the secrets. -/
def SameOpenly (text text' : String) : Prop :=
  (Toml.read? text).map (List.map fun m => (m.1, openPart m.1 m.2)) =
    (Toml.read? text').map (List.map fun m => (m.1, openPart m.1 m.2))

def ofMembers? (root : Toml.Members) : Option Config := do
  let client ← Toml.Value.required ClientConfig.ofToml? (root.get? "oauth")
  let store ← Toml.Value.orDefault StoreConfig.ofToml? .default (root.get? "store")
  return { client, store }

theorem ofText?_eq (text : String) : ofText? text = (Toml.read? text).bind ofMembers? := rfl

theorem ofMembers?_openPart (root : Toml.Members) :
    ofMembers? (root.map fun m => (m.1, openPart m.1 m.2)) = ofMembers? root := by
  have hclient : Toml.Value.required ClientConfig.ofToml?
      (Toml.Members.get? (root.map fun m => (m.1, openPart m.1 m.2)) "oauth") =
      Toml.Value.required ClientConfig.ofToml? (root.get? "oauth") := by
    rw [Toml.Members.get?_map]
    cases root.get? "oauth" with
    | none => rfl
    | some v => exact ClientConfig.ofToml?_without v
  have hstore : Toml.Value.orDefault StoreConfig.ofToml? .default
      (Toml.Members.get? (root.map fun m => (m.1, openPart m.1 m.2)) "store") =
      Toml.Value.orDefault StoreConfig.ofToml? .default (root.get? "store") := by
    rw [Toml.Members.get?_map]
    cases root.get? "store" with
    | none => rfl
    | some v => exact StoreConfig.ofToml?_without v
  rw [ofMembers?, hclient, hstore, ofMembers?]

theorem ofText?_of_sameOpenly {text' : String} (h : SameOpenly text text') :
    ofText? text = ofText? text' := by
  have hopen (root : Option Toml.Members) : root.bind ofMembers? =
      (root.map (List.map fun m => (m.1, openPart m.1 m.2))).bind ofMembers? := by
    cases root with
    | none => rfl
    | some root => exact (ofMembers?_openPart root).symm
  rw [ofText?_eq, ofText?_eq, hopen, hopen (Toml.read? text')]
  exact congrArg (fun o => o.bind ofMembers?) h

/-! ### Loading -/

def withSecrets (c : Config) (clientSecret key : Option Secret) : Config where
  client := { c.client with clientSecret }
  store := { c.store with key }

theorem read_eq_ok_iff : read disk path = .ok c ↔
    ∃ text, disk.read? path = some (Utf8.encode text) ∧ ofText? text = some c ∧
      c.fault? = none := by
  simp only [← Disk.readText?_eq_some_iff]
  unfold read
  cases disk.readText? path with
  | none => simp
  | some text =>
    simp only [Option.some_inj, exists_eq_left']
    cases ofText? text with
    | none => simp
    | some c' =>
      simp only [Option.some_inj]
      cases hfault : c'.fault? with
      | none =>
        simp only [Except.ok.injEq]
        refine ⟨?_, And.left⟩
        rintro rfl
        exact ⟨rfl, hfault⟩
      | some e =>
        refine iff_of_false nofun ?_
        rintro ⟨rfl, hnone⟩
        rw [hfault] at hnone
        cases hnone

theorem load_of_read (h : read disk path = .ok c) (env : Environment) : load env disk path =
    Secret.resolve env disk clientSecretVariable c.client.clientSecretFile >>= fun secret =>
      resolveKey env disk c.store >>= fun key => .ok (c.withSecrets secret key) := by
  unfold load
  rw [h]
  rfl

/-- What looking up the key of a store comes to: a store that is not encrypted needs none, and any
other one needs a key of the right length. -/
inductive KeyFor (env : Environment) (disk : Disk) (s : StoreConfig) :
    Except ConfigFailure (Option Secret) → Prop
  | plain (h : s.encrypted = false) : KeyFor env disk s (.ok none)
  | found {secret : Secret} {key : CipherKey} (h : s.encrypted = true)
    (hsource : Sourced env disk keyVariable s.keyFile (.ok (some secret)))
    (hkey : CipherKey.ofText secret.text = .ok key) : KeyFor env disk s (.ok (some secret))
  | bad {secret : Secret} {e : Failure} (h : s.encrypted = true)
    (hsource : Sourced env disk keyVariable s.keyFile (.ok (some secret)))
    (hkey : CipherKey.ofText secret.text = .error e) : KeyFor env disk s (.error (.badKey e))
  | missing (h : s.encrypted = true)
    (hsource : Sourced env disk keyVariable s.keyFile (.ok none)) :
    KeyFor env disk s (.error .noKey)
  | failed {e : ConfigFailure} (h : s.encrypted = true)
    (hsource : Sourced env disk keyVariable s.keyFile (.error e)) : KeyFor env disk s (.error e)

theorem resolveKey_plain {s : StoreConfig} (h : s.encrypted = false) (env : Environment)
    (disk : Disk) : resolveKey env disk s = .ok none := by
  unfold resolveKey
  rw [h]
  rfl

theorem resolveKey_encrypted {s : StoreConfig} (h : s.encrypted = true) (env : Environment)
    (disk : Disk) : resolveKey env disk s =
      (Secret.resolve env disk keyVariable s.keyFile).bind fun
        | none => .error .noKey
        | some key =>
          match CipherKey.ofText key.text with
          | .ok _ => .ok (some key)
          | .error e => .error (.badKey e) := by
  unfold resolveKey
  rw [h]
  rfl

theorem keyFor_resolveKey (env : Environment) (disk : Disk) (s : StoreConfig) :
    KeyFor env disk s (resolveKey env disk s) := by
  cases hencrypted : s.encrypted with
  | false =>
    rw [resolveKey_plain hencrypted]
    exact .plain hencrypted
  | true =>
    have hsource := Secret.sourced_resolve env disk keyVariable s.keyFile
    rw [resolveKey_encrypted hencrypted]
    cases hresolve : Secret.resolve env disk keyVariable s.keyFile with
    | error e => exact .failed hencrypted (hresolve ▸ hsource)
    | ok found =>
      rw [hresolve] at hsource
      cases found with
      | none => exact .missing hencrypted hsource
      | some secret =>
        cases hkey : CipherKey.ofText secret.text with
        | ok key =>
          simp only [Except.bind, hkey]
          exact .found hencrypted hsource hkey
        | error e =>
          simp only [Except.bind, hkey]
          exact .bad hencrypted hsource hkey

theorem KeyFor.resolveKey_eq {s : StoreConfig} {r : Except ConfigFailure (Option Secret)}
    (h : KeyFor env disk s r) : resolveKey env disk s = r := by
  cases h with
  | plain h => exact resolveKey_plain h env disk
  | found h hsource hkey | bad h hsource hkey =>
    rw [resolveKey_encrypted h, hsource.resolve_eq]
    simp only [Except.bind, hkey]
  | missing h hsource | failed h hsource =>
    rw [resolveKey_encrypted h, hsource.resolve_eq]
    rfl

theorem resolveKey_eq_iff {s : StoreConfig} {r : Except ConfigFailure (Option Secret)} :
    resolveKey env disk s = r ↔ KeyFor env disk s r :=
  ⟨fun h => h ▸ keyFor_resolveKey env disk s, KeyFor.resolveKey_eq⟩

theorem load_eq_ok_iff (h : read disk path = .ok c) {loaded : Config} :
    load env disk path = .ok loaded ↔ ∃ secret key, loaded = c.withSecrets secret key ∧
      Sourced env disk clientSecretVariable c.client.clientSecretFile (.ok secret) ∧
      KeyFor env disk c.store (.ok key) := by
  rw [load_of_read h, bind_eq_ok_iff]
  simp only [bind_eq_ok_iff, Secret.resolve_eq_iff, resolveKey_eq_iff]
  constructor
  · rintro ⟨secret, hsecret, key, hkey, hdone⟩
    cases hdone
    exact ⟨secret, key, rfl, hsecret, hkey⟩
  · rintro ⟨secret, key, rfl, hsecret, hkey⟩
    exact ⟨secret, hsecret, key, hkey, rfl⟩

theorem load_eq_error_iff (h : read disk path = .ok c) {e : ConfigFailure} :
    load env disk path = .error e ↔
      Sourced env disk clientSecretVariable c.client.clientSecretFile (.error e) ∨
      (∃ secret, Sourced env disk clientSecretVariable c.client.clientSecretFile (.ok secret)) ∧
        KeyFor env disk c.store (.error e) := by
  rw [load_of_read h, bind_eq_error_iff]
  simp only [bind_eq_error_iff, Secret.resolve_eq_iff, resolveKey_eq_iff]
  refine or_congr_right ⟨?_, ?_⟩
  · rintro ⟨secret, hsecret, hkey | ⟨key, -, hdone⟩⟩
    · exact ⟨⟨secret, hsecret⟩, hkey⟩
    · cases hdone
  · rintro ⟨⟨secret, hsecret⟩, hkey⟩
    exact ⟨secret, hsecret, .inl hkey⟩

theorem exists_read_of_load {loaded : Config} (h : load env disk path = .ok loaded) :
    ∃ c secret key, read disk path = .ok c ∧ loaded = c.withSecrets secret key ∧
      Sourced env disk clientSecretVariable c.client.clientSecretFile (.ok secret) ∧
      KeyFor env disk c.store (.ok key) := by
  obtain ⟨c, hread, -⟩ := bind_eq_ok_iff.mp h
  obtain ⟨secret, key, hloaded⟩ := (load_eq_ok_iff hread).mp h
  exact ⟨c, secret, key, hread, hloaded⟩

theorem KeyFor.holds {s : StoreConfig} {secret : Secret}
    (h : KeyFor env disk s (.ok (some secret))) : secret.Holds secret.text := by
  cases h with
  | found _ hsource _ => exact hsource.holds

theorem exists_keyFor_iff {s : StoreConfig} : (∃ found, KeyFor env disk s (.ok found)) ↔
    (s.encrypted = true → ∃ secret key,
      Sourced env disk keyVariable s.keyFile (.ok (some secret)) ∧
      CipherKey.ofText secret.text = .ok key) := by
  constructor
  · rintro ⟨found, hfound⟩ hencrypted
    cases hfound with
    | plain hplain => rw [hplain] at hencrypted; cases hencrypted
    | found _ hsource hkey => exact ⟨_, _, hsource, hkey⟩
  · intro h
    cases hencrypted : s.encrypted with
    | false => exact ⟨none, .plain hencrypted⟩
    | true =>
      obtain ⟨secret, key, hsource, hkey⟩ := h hencrypted
      exact ⟨some secret, .found hencrypted hsource hkey⟩

theorem keyFor_unreadable_iff {s : StoreConfig} {p : String} :
    KeyFor env disk s (.error (.secretFile p)) ↔
      s.encrypted = true ∧ Unreadable env disk keyVariable s.keyFile p := by
  constructor
  · intro h
    cases h with
    | failed hencrypted hsource => exact ⟨hencrypted, Secret.sourced_unreadable_iff.mp hsource⟩
  · rintro ⟨hencrypted, hunreadable⟩
    exact .failed hencrypted (.unreadable hunreadable)

theorem keyFor_missing_iff {s : StoreConfig} : KeyFor env disk s (.error .noKey) ↔
    s.encrypted = true ∧ Sourced env disk keyVariable s.keyFile (.ok none) := by
  constructor
  · intro h
    cases h with
    | missing hencrypted hsource => exact ⟨hencrypted, hsource⟩
    | failed _ hsource => cases hsource
  · rintro ⟨hencrypted, hsource⟩
    exact .missing hencrypted hsource

theorem resolveKey_congr {disk' : Disk} {s s' : StoreConfig}
    (hencrypted : s'.encrypted = s.encrypted) (hfile : s'.keyFile = s.keyFile)
    (hdisk : ∀ p ∈ s.keyFile, disk'.read? p = disk.read? p) :
    resolveKey env disk' s' = resolveKey env disk s := by
  unfold resolveKey
  rw [hencrypted, hfile, Secret.resolve_congr rfl hdisk]

theorem read_congr {disk' : Disk} (h : disk'.read? path = disk.read? path) :
    read disk' path = read disk path := by
  unfold read Disk.readText?
  rw [h]

theorem load_plain_congr {env' : Environment} {disk' : Disk} {loaded : Config}
    (h : load env disk path = .ok loaded) (hplain : loaded.store.encrypted = false)
    (henv : Dict.get? env' clientSecretVariable = Dict.get? env clientSecretVariable)
    (hpath : disk'.read? path = disk.read? path)
    (hdisk : ∀ p ∈ loaded.client.clientSecretFile, disk'.read? p = disk.read? p) :
    load env' disk' path = .ok loaded := by
  obtain ⟨c, secret, key, hread, rfl, hsecret, hkey⟩ := exists_read_of_load h
  have hplain : c.store.encrypted = false := hplain
  have hread' : read disk' path = .ok c := (read_congr hpath).trans hread
  have hsecret' := (Secret.resolve_congr henv hdisk).trans hsecret.resolve_eq
  have hkey' := (resolveKey_plain hplain env' disk').trans
    ((resolveKey_plain hplain env disk).symm.trans hkey.resolveKey_eq)
  exact (load_eq_ok_iff hread').mpr ⟨secret, key, rfl, Secret.resolve_eq_iff.mp hsecret',
    resolveKey_eq_iff.mp hkey'⟩

theorem secrets_congr {disk' : Disk} {path' : String} {loaded loaded' : Config}
    (h : load env disk path = .ok loaded) (h' : load env disk' path' = .ok loaded') :
    (loaded'.client.clientSecretFile = loaded.client.clientSecretFile →
      (∀ p ∈ loaded.client.clientSecretFile, disk'.read? p = disk.read? p) →
      loaded'.client.clientSecret = loaded.client.clientSecret) ∧
    (loaded'.store.encrypted = loaded.store.encrypted →
      loaded'.store.keyFile = loaded.store.keyFile →
      (∀ p ∈ loaded.store.keyFile, disk'.read? p = disk.read? p) →
      loaded'.store.key = loaded.store.key) := by
  obtain ⟨c, secret, key, -, rfl, hsecret, hkey⟩ := exists_read_of_load h
  obtain ⟨c', secret', key', -, rfl, hsecret', hkey'⟩ := exists_read_of_load h'
  constructor
  · intro hfile hdisk
    change c'.client.clientSecretFile = c.client.clientSecretFile at hfile
    rw [hfile] at hsecret'
    have hsame := hsecret'.resolve_eq.symm.trans (Secret.resolve_congr rfl hdisk)
    exact Except.ok.inj (hsame.trans hsecret.resolve_eq)
  · intro hencrypted hfile hdisk
    have hsame := hkey'.resolveKey_eq.symm.trans (resolveKey_congr hencrypted hfile hdisk)
    exact Except.ok.inj (hsame.trans hkey.resolveKey_eq)

/-- The secrets of a loaded configuration. -/
theorem secrets_of_load (htext : disk.read? path = some (Utf8.encode text))
    (hc : ofText? text = some c) (hvalid : c.fault? = none) (env : Environment) :
    (∀ loaded, load env disk path = .ok loaded →
      Sourced env disk clientSecretVariable c.client.clientSecretFile
        (.ok loaded.client.clientSecret) ∧
      (c.store.encrypted = true → loaded.store.key ≠ none ∧
        Sourced env disk keyVariable c.store.keyFile (.ok loaded.store.key)) ∧
      (c.store.encrypted = false → loaded.store.key = none) ∧
      ∀ secret, loaded.client.clientSecret = some secret ∨ loaded.store.key = some secret →
        secret.text ≠ "" ∧ Text.Trimmed secret.text secret.text) ∧
    (∀ p, load env disk path = .error (.secretFile p) ↔
      Unreadable env disk clientSecretVariable c.client.clientSecretFile p ∨
      (∀ q, ¬ Unreadable env disk clientSecretVariable c.client.clientSecretFile q) ∧
        c.store.encrypted = true ∧ Unreadable env disk keyVariable c.store.keyFile p) ∧
    (load env disk path = .error .noKey ↔
      (∀ q, ¬ Unreadable env disk clientSecretVariable c.client.clientSecretFile q) ∧
        c.store.encrypted = true ∧ Sourced env disk keyVariable c.store.keyFile (.ok none)) ∧
    ((∃ loaded, load env disk path = .ok loaded) ↔
      (∀ q, ¬ Unreadable env disk clientSecretVariable c.client.clientSecretFile q) ∧
        (c.store.encrypted = true → ∃ secret key,
          Sourced env disk keyVariable c.store.keyFile (.ok (some secret)) ∧
          CipherKey.ofText secret.text = .ok key)) ∧
    (∀ text', SameOpenly text text' → ofText? text' = some c) ∧
    ∀ disk' path' loaded loaded', load env disk path = .ok loaded →
      load env disk' path' = .ok loaded' →
      (loaded'.client.clientSecretFile = c.client.clientSecretFile →
        (∀ p ∈ c.client.clientSecretFile, disk'.read? p = disk.read? p) →
        loaded'.client.clientSecret = loaded.client.clientSecret) ∧
      (loaded'.store.encrypted = c.store.encrypted → loaded'.store.keyFile = c.store.keyFile →
        (∀ p ∈ c.store.keyFile, disk'.read? p = disk.read? p) →
        loaded'.store.key = loaded.store.key) := by
  have hread : read disk path = .ok c := read_eq_ok_iff.mpr ⟨text, htext, hc, hvalid⟩
  refine ⟨fun loaded hloaded => ?_, fun p => ?_, ?_, ?_, fun text' hsame => ?_, ?_⟩
  · obtain ⟨secret, key, rfl, hsecret, hkey⟩ := (load_eq_ok_iff hread).mp hloaded
    refine ⟨hsecret, fun hencrypted => ?_, fun hplain => ?_, ?_⟩
    · cases hkey with
      | plain hplain => exact absurd (hplain.symm.trans hencrypted) Bool.false_ne_true
      | found _ hsource _ => exact ⟨nofun, hsource⟩
    · cases hkey with
      | plain _ => rfl
      | found hencrypted _ _ => exact absurd (hplain.symm.trans hencrypted) Bool.false_ne_true
    · rintro secret (rfl | rfl)
      · exact hsecret.holds.symm
      · exact hkey.holds.symm
  · rw [load_eq_error_iff hread, Secret.sourced_unreadable_iff, Secret.exists_sourced_iff,
      keyFor_unreadable_iff]
  · rw [load_eq_error_iff hread, Secret.exists_sourced_iff, keyFor_missing_iff]
    exact or_iff_right nofun
  · rw [← Secret.exists_sourced_iff, ← exists_keyFor_iff]
    simp only [load_eq_ok_iff hread]
    constructor
    · rintro ⟨-, secret, key, -, hsecret, hkey⟩
      exact ⟨⟨secret, hsecret⟩, key, hkey⟩
    · rintro ⟨⟨secret, hsecret⟩, key, hkey⟩
      exact ⟨_, secret, key, rfl, hsecret, hkey⟩
  · rw [← ofText?_of_sameOpenly hsame, hc]
  · intro disk' path' loaded loaded' h h'
    obtain ⟨secret, key, rfl, -⟩ := (load_eq_ok_iff hread).mp h
    exact secrets_congr h h'

end Config

/-! ### A configuration with entries for secrets -/

namespace Padded

def text : String :=
  "[oauth]\nclient_id = \"c\"\nclient_secret = 5\nclient_secret_file = \"secret\"\n" ++
  "[store]\nbackend = \"file\"\npath = \"tokens.json\"\nencrypted = true\n" ++
  "key = []\nkey_file = \"key\"\n"

def key : String := "BwcHBwcHBwcHBwcHBwcHBwcHBwcHBwcHBwcHBwcHBwc="

def environment : Environment :=
  [(Config.clientSecretVariable, [0xFF]), (Config.keyVariable, Utf8.encode ("\n" ++ key ++ "\t"))]

def disk : Disk :=
  Disk.ofFiles [("config.toml", .file (Utf8.encode text) false),
    ("secret", .file (Utf8.encode "\u3000s3cret\n") false)]

def config : Config where
  client :=
    { clientId := "c", clientSecret := some ⟨"s3cret"⟩, clientSecretFile := some "secret",
      defaultCallerKey := "default", tokenEndpoint := defaultEndpoint, apiHost := defaultApiHost,
      timeout := defaultTimeout, refreshSkew := Config.defaultRefreshSkew,
      refreshMode := .independent, persistPolicy := .bestEffort }
  store :=
    { backend := .file, path := some "tokens.json", collection := "tokens", encrypted := true,
      keyFile := some "key", key := some ⟨key⟩ }

theorem text_stored : disk.read? "config.toml" = some (Utf8.encode text) := by
  decide +kernel

theorem text_describes : Config.ofText? text = some (config.withSecrets none none) := by
  decide +kernel

theorem config_valid : (config.withSecrets none none).fault? = none := by
  decide +kernel

theorem load_config : Config.load environment disk "config.toml" = .ok config := by
  rw [Config.load_of_read (Config.read_eq_ok_iff.mpr
    ⟨text, text_stored, text_describes, config_valid⟩)]
  decide +kernel

theorem secrets_found :
    (disk.read? "config.toml" = some (Utf8.encode text) ∧
      Config.ofText? text = some (config.withSecrets none none) ∧
      (config.withSecrets none none).fault? = none) ∧
    Config.load environment disk "config.toml" = .ok config ∧
    Sourced environment disk Config.clientSecretVariable (some "secret")
      (.ok (some ⟨"s3cret"⟩)) ∧
    Sourced environment disk Config.keyVariable (some "key") (.ok (some ⟨key⟩)) := by
  obtain ⟨hloaded, -⟩ :=
    Config.secrets_of_load text_stored text_describes config_valid environment
  obtain ⟨hsecret, hkey, -⟩ := hloaded config load_config
  exact ⟨⟨text_stored, text_describes, config_valid⟩, load_config, hsecret, (hkey rfl).2⟩

end Padded
end TokenKeeper
