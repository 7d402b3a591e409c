import TokenKeeper.Proofs.Json.Fields
import TokenKeeper.Proofs.Json.Grammar
import TokenKeeper.Proofs.Store.Contents

/-!
# Token data as text

Pairs of tokens, credentials and what is inside a sealed document are written as compact objects,
without a lifetime of zero and without credentials that are not there. They are read from any text
of a record that has their fields. What is written is read back, and so whatever text a value was
read from, the text that is written for it stands for the same value.
-/
namespace TokenKeeper

open Json (Spelling)

namespace Json.Spelling

inductive IsTokens (s : Spelling) (t : Tokens) : Prop
  | record {access refresh : Spelling} {lifetime : Option Spelling}
    (hs : s.Gives ["access_token", "refresh_token", "expires_in"]
      [some access, some refresh, lifetime])
    (haccess : access.IsText t.accessToken) (hrefresh : refresh.IsText t.refreshToken)
    (hlifetime : OrDefault IsInt64 0 lifetime t.expiresIn)

inductive IsCredentials (s : Spelling) (c : Credentials) : Prop
  | record {key id secret : Option Spelling}
    (hs : s.Gives ["caller_key", "client_id", "client_secret"] [key, id, secret])
    (hkey : OrDefault IsText "" key c.callerKey) (hid : OrDefault IsText "" id c.clientId)
    (hsecret : OrDefault IsText "" secret c.clientSecret)

inductive MayBeCredentials : Option Spelling → Option Credentials → Prop
  | missing : MayBeCredentials none none
  | null : MayBeCredentials (some .null) none
  | there {s : Spelling} {c : Credentials} (h : s.IsCredentials c) :
    MayBeCredentials (some s) (some c)

inductive IsPayload (s : Spelling) (p : Payload) : Prop
  | record {tokens : Spelling} {credentials : Option Spelling}
    (hs : s.Gives ["tokens", "credentials"] [some tokens, credentials])
    (htokens : tokens.IsTokens p.tokens)
    (hcredentials : MayBeCredentials credentials p.credentials)

end Json.Spelling

open Json.Spelling

/-! ### What is read from a tree -/

theorem Tokens.exact_ofSpelling? : Exact Tokens.ofSpelling? IsTokens := by
  intro s h t
  refine (bind_record?_eq_some_iff h).trans ⟨?_, ?_⟩
  · rintro ⟨fields, hgives, hread⟩
    have hprinted := printed_of_gives h hgives
    split at hread
    · obtain ⟨_, ha, hread⟩ := Option.bind_eq_some_iff.mp hread
      obtain ⟨_, hr, hread⟩ := Option.bind_eq_some_iff.mp hread
      obtain ⟨_, hl, ⟨⟩⟩ := Option.bind_eq_some_iff.mp hread
      obtain ⟨access, rfl, haccess⟩ := (exact_string?.required (hprinted _ (by simp))).mp ha
      obtain ⟨refresh, rfl, hrefresh⟩ := (exact_string?.required (hprinted _ (by simp))).mp hr
      have hlifetime := (exact_int64?.orDefault (hprinted _ (by simp))).mp hl
      exact .record hgives haccess hrefresh hlifetime
    · cases hread
  · rintro ⟨hs, haccess, hrefresh, hlifetime⟩
    have hprinted := printed_of_gives h hs
    have ha := (exact_string?.required (hprinted _ (by simp))).mpr ⟨_, rfl, haccess⟩
    have hr := (exact_string?.required (hprinted _ (by simp))).mpr ⟨_, rfl, hrefresh⟩
    have hl := (exact_int64?.orDefault (hprinted _ (by simp))).mpr hlifetime
    refine ⟨_, hs, ?_⟩
    simp only [ha, hr, hl, Option.bind_eq_bind, Option.bind_some, Option.pure_def]

theorem Credentials.exact_ofSpelling? : Exact Credentials.ofSpelling? IsCredentials := by
  intro s h c
  refine (bind_record?_eq_some_iff h).trans ⟨?_, ?_⟩
  · rintro ⟨fields, hgives, hread⟩
    have hprinted := printed_of_gives h hgives
    split at hread
    · obtain ⟨_, hk, hread⟩ := Option.bind_eq_some_iff.mp hread
      obtain ⟨_, hi, hread⟩ := Option.bind_eq_some_iff.mp hread
      obtain ⟨_, hc, ⟨⟩⟩ := Option.bind_eq_some_iff.mp hread
      have hkey := (exact_string?.orDefault (hprinted _ (by simp))).mp hk
      have hid := (exact_string?.orDefault (hprinted _ (by simp))).mp hi
      have hsecret := (exact_string?.orDefault (hprinted _ (by simp))).mp hc
      exact .record hgives hkey hid hsecret
    · cases hread
  · rintro ⟨hs, hkey, hid, hsecret⟩
    have hprinted := printed_of_gives h hs
    have hk := (exact_string?.orDefault (hprinted _ (by simp))).mpr hkey
    have hi := (exact_string?.orDefault (hprinted _ (by simp))).mpr hid
    have hc := (exact_string?.orDefault (hprinted _ (by simp))).mpr hsecret
    refine ⟨_, hs, ?_⟩
    simp only [hk, hi, hc, Option.bind_eq_bind, Option.bind_some, Option.pure_def]

namespace Payload

theorem credentials?_eq_some_iff {field : Option Spelling}
    (h : ∀ v, field = some v → v.Printed) {c : Option Credentials} :
    credentials? field = some c ↔ MayBeCredentials field c := by
  unfold credentials?
  split
  · constructor
    · rintro ⟨⟩
      exact .missing
    · rintro ⟨⟩
      rfl
  · constructor
    · rintro ⟨⟩
      exact .null
    · -- A null gives no field, so it stands for no credentials but those that are missing.
      rintro (_ | _ | ⟨⟨⟨⟩⟩⟩)
      rfl
  · next s hnull =>
    rw [Option.map_eq_some_iff]
    constructor
    · rintro ⟨c, hc, rfl⟩
      exact .there ((Credentials.exact_ofSpelling? s (h s rfl) c).mp hc)
    · rintro (_ | _ | hc)
      · exact absurd rfl hnull
      · exact ⟨_, (Credentials.exact_ofSpelling? s (h s rfl) _).mpr hc, rfl⟩

theorem exact_ofSpelling? : Exact Payload.ofSpelling? IsPayload := by
  intro s h p
  refine (bind_record?_eq_some_iff h).trans ⟨?_, ?_⟩
  · rintro ⟨fields, hgives, hread⟩
    have hprinted := printed_of_gives h hgives
    split at hread
    · obtain ⟨_, ht, hread⟩ := Option.bind_eq_some_iff.mp hread
      obtain ⟨_, hc, ⟨⟩⟩ := Option.bind_eq_some_iff.mp hread
      obtain ⟨tokens, rfl, htokens⟩ :=
        (Tokens.exact_ofSpelling?.required (hprinted _ (by simp))).mp ht
      have hcredentials := (credentials?_eq_some_iff (hprinted _ (by simp))).mp hc
      exact .record hgives htokens hcredentials
    · cases hread
  · rintro ⟨hs, htokens, hcredentials⟩
    have hprinted := printed_of_gives h hs
    have ht := (Tokens.exact_ofSpelling?.required (hprinted _ (by simp))).mpr ⟨_, rfl, htokens⟩
    have hc := (credentials?_eq_some_iff (hprinted _ (by simp))).mpr hcredentials
    refine ⟨_, hs, ?_⟩
    simp only [ht, hc, Option.bind_eq_bind, Option.bind_some, Option.pure_def]

end Payload

/-! ### Texts and values -/

/-- A way of writing and reading values in which nothing gets lost. -/
structure Lossless {α : Type} (bytes : α → Bytes) (ofBytes? : Bytes → Option α)
    (Stands : Spelling → α → Prop) : Prop where
  written : ∀ a, ofBytes? (bytes a) = some a
  normal : ∀ input, (ofBytes? input).bind (fun a => ofBytes? (bytes a)) = ofBytes? input
  /-- The texts of a value are those of the trees that stand for it. -/
  texts : ∀ text a, ofBytes? (Utf8.encode text) = some a ↔
    ∃ s, Json.TextOf s.tokens text.toList ∧ Stands s a

theorem Lossless.of_exact {α : Type} {json : α → Json} {ofSpelling? : Spelling → Option α}
    {Stands : Spelling → α → Prop} (hexact : Exact ofSpelling? Stands)
    (hjson : ∀ a, ofSpelling? (json a).spelling = some a) :
    Lossless (fun a => Utf8.encode (json a).compact)
      (fun input => (Spelling.ofBytes? input).bind ofSpelling?) Stands := by
  have hwritten : ∀ a, (Spelling.ofBytes? (Utf8.encode (json a).compact)).bind ofSpelling? =
      some a := by
    intro a
    rw [Json.ofBytes?_compact, Option.bind_some, hjson]
  refine ⟨hwritten, fun input => ?_, fun text a => ?_⟩
  · simp only [hwritten, Option.bind_fun_some]
  · rw [Spelling.ofBytes?, Utf8.glyphs_encode, Option.bind_eq_some_iff]
    change (∃ s, Spelling.ofText? text = some s ∧ _) ↔ _
    refine exists_congr fun s => ?_
    rw [← ofText?_eq_some_iff]
    exact and_congr_right fun hs => hexact s (printed_of_ofText? hs) a

theorem Tokens.gives_lifetime (t : Tokens) : t.json.spelling.Gives ["expires_in"]
    [if t.expiresIn = 0 then none else some (.num (Text.intChars t.expiresIn.toInt))] := by
  unfold Tokens.json
  by_cases hzero : t.expiresIn = 0
  · rw [if_pos hzero, if_pos hzero]
    exact gives_spelling [("access_token", .str t.accessToken),
      ("refresh_token", .str t.refreshToken)] (by simp [Dict.keys]) ["expires_in"]
  · rw [if_neg hzero, if_neg hzero]
    exact gives_spelling [("access_token", .str t.accessToken),
      ("refresh_token", .str t.refreshToken), ("expires_in", .int t.expiresIn.toInt)]
      (by simp [Dict.keys]) ["expires_in"]

theorem Payload.gives_credentials (p : Payload) : p.json.spelling.Gives ["credentials"]
    [p.credentials.map fun c => c.json.spelling] := by
  unfold Payload.json
  cases p.credentials with
  | none =>
    exact gives_spelling [("tokens", p.tokens.json)] (by simp [Dict.keys]) ["credentials"]
  | some c =>
    exact gives_spelling [("tokens", p.tokens.json), ("credentials", c.json)]
      (by simp [Dict.keys]) ["credentials"]

/-- No value gets lost in its text, which leaves out a lifetime of zero and credentials that are not
there, and every text of a value is as good as its own. -/
theorem tokenData_lossless :
    Lossless (fun t : Tokens => Utf8.encode t.json.compact) Tokens.ofBytes? IsTokens ∧
    Lossless (fun c : Credentials => Utf8.encode c.json.compact) Credentials.ofBytes?
      IsCredentials ∧
    Lossless Payload.bytes Payload.ofBytes? IsPayload ∧
    (∀ t : Tokens, ∃ s, Spelling.ofText? t.json.compact = some s ∧ s.Gives ["expires_in"]
      [if t.expiresIn = 0 then none else some (.num (Text.intChars t.expiresIn.toInt))]) ∧
    ∀ p : Payload, ∃ s, Spelling.ofText? p.json.compact = some s ∧ s.Gives ["credentials"]
      [p.credentials.map fun c => c.json.spelling] := by
  refine ⟨.of_exact Tokens.exact_ofSpelling? Tokens.ofSpelling?_json,
    .of_exact Credentials.exact_ofSpelling? Credentials.ofSpelling?_json,
    .of_exact Payload.exact_ofSpelling? Payload.ofSpelling?_json, fun t => ?_, fun p => ?_⟩
  · exact ⟨_, Json.ofText?_compact t.json, t.gives_lifetime⟩
  · exact ⟨_, Json.ofText?_compact p.json, p.gives_credentials⟩

example : Tokens.ofBytes? (Utf8.encode
    " \x7b\"refresh_token\": \"\\u0072\", \"x\": [1e400], \"access\\u005ftoken\" : \"a\"\x7d") =
      some ⟨"a", "r", 0⟩ := by decide +kernel

end TokenKeeper
