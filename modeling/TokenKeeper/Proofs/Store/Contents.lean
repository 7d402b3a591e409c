import TokenKeeper.Proofs.Base64
import TokenKeeper.Proofs.Json.Flat
import TokenKeeper.Proofs.Json.Record
import TokenKeeper.Proofs.Sealing
import TokenKeeper.Proofs.Timestamp
import TokenKeeper.Store.Sealed

/-!
# What stored documents hold

Both kinds of documents are documents of texts, and give back what was put into them. A plain
document gives back the two tokens, the expiry, and the registration if it is complete, now under
the key of the document; a sealed one gives back the whole entry. To set the fields of a save in a
document means the same as to save with the credentials of both.
-/
namespace TokenKeeper

open Json (Spelling)

/-! ### Records -/

theorem Credentials.ofSpelling?_json (c : Credentials) : ofSpelling? c.json.spelling = some c := by
  have hrecord := Spelling.record?_spelling [("caller_key", .str c.callerKey),
    ("client_id", .str c.clientId), ("client_secret", .str c.clientSecret)] (by simp [Dict.keys])
    ["caller_key", "client_id", "client_secret"]
  unfold ofSpelling? Credentials.json
  rw [hrecord]
  simp [Dict.get?, Spelling.orDefault, Spelling.string?_spelling]

theorem Tokens.ofSpelling?_json (t : Tokens) : ofSpelling? t.json.spelling = some t := by
  unfold ofSpelling? Tokens.json
  by_cases h : t.expiresIn = 0
  · have hrecord := Spelling.record?_spelling [("access_token", .str t.accessToken),
      ("refresh_token", .str t.refreshToken)] (by simp [Dict.keys])
      ["access_token", "refresh_token", "expires_in"]
    rw [if_pos h, List.append_nil, hrecord]
    simp [Dict.get?, Spelling.orDefault, Spelling.required, Spelling.string?_spelling, ← h]
  · have hrecord := Spelling.record?_spelling [("access_token", .str t.accessToken),
      ("refresh_token", .str t.refreshToken), ("expires_in", .int t.expiresIn.toInt)]
      (by simp [Dict.keys]) ["access_token", "refresh_token", "expires_in"]
    rw [if_neg h, List.cons_append, List.cons_append, List.nil_append, hrecord]
    simp [Dict.get?, Spelling.orDefault, Spelling.required, Spelling.string?_spelling,
      Spelling.int64?_spelling]

theorem Exchange.tokens_granted (grant : GrantKind) (t : Tokens) :
    (answer 200 (some (Utf8.encode t.json.compact))).tokens grant = .ok t := by
  have hread : Tokens.ofBytes? (Utf8.encode t.json.compact) = some t := by
    rw [Tokens.ofBytes?, Json.ofBytes?_compact t.json, Option.bind_some,
      Tokens.ofSpelling?_json]
  simp only [tokens, Status.isSuccess, hread]
  rfl

namespace Payload

theorem ofSpelling?_json (p : Payload) : ofSpelling? p.json.spelling = some p := by
  obtain ⟨tokens, credentials⟩ := p
  unfold ofSpelling? Payload.json
  cases credentials with
  | none =>
    have hrecord := Spelling.record?_spelling [("tokens", tokens.json)] (by simp [Dict.keys])
      ["tokens", "credentials"]
    simp only [hrecord]
    simp [Dict.get?, Spelling.required, Tokens.ofSpelling?_json, credentials?]
  | some c =>
    have hrecord := Spelling.record?_spelling [("tokens", tokens.json),
      ("credentials", c.json)] (by simp [Dict.keys]) ["tokens", "credentials"]
    simp only [hrecord]
    have hc : credentials? (some c.json.spelling) = some (some c) := by
      change (Credentials.ofSpelling? c.json.spelling).map some = _
      rw [Credentials.ofSpelling?_json]
      rfl
    simp [Dict.get?, Spelling.required, Tokens.ofSpelling?_json, hc]

theorem ofBytes?_bytes (p : Payload) : ofBytes? p.bytes = some p := by
  rw [ofBytes?, Payload.bytes, Json.ofBytes?_compact p.json, Option.bind_some,
    ofSpelling?_json]

end Payload

/-! ### Fields -/

theorem textField?_of_get? {doc : Document} {name value : String}
    (h : Dict.get? doc name = some (.str value)) : textField? doc name = some value := by
  rw [textField?, h]
  rfl

theorem textFieldOrEmpty?_of_get? {doc : Document} {name value : String}
    (h : Dict.get? doc name = some (.str value)) : textFieldOrEmpty? doc name = some value := by
  rw [textFieldOrEmpty?, h]
  rfl

theorem textFieldOrEmpty?_eq_none {doc : Document} {name : String} {value : Json}
    (h : Dict.get? doc name = some value) (hvalue : value.str? = none) :
    textFieldOrEmpty? doc name = none := by
  rw [textFieldOrEmpty?, h]
  exact hvalue

theorem expiryOf?_of_get? {doc : Document} {expiresAt : Instant}
    (h : Dict.get? doc expiryField = some (.str (Timestamp.text expiresAt))) :
    expiryOf? doc = some expiresAt := by
  rw [expiryOf?, textField?_of_get? h, Option.bind_some, Timestamp.read?_text]

/-! ### Sealed documents -/

namespace SealedDocument

theorem payload_dataOf (key : CipherKey) (nonce : Nonce) (p : Payload) :
    payload key (dataOf key nonce p.bytes) = .ok p := by
  simp only [payload, dataOf, Base64.decode_encode, CipherKey.decrypt_encrypt,
    Payload.ofBytes?_bytes]

def texts (key : CipherKey) (nonce : Nonce) (callerKey : String) (p : Payload)
    (expiresAt : Instant) : Dict String :=
  Dict.ofList [("caller_key", callerKey), (dataField, dataOf key nonce p.bytes),
    (expiryField, Timestamp.text expiresAt)]

theorem fields_eq_strings (key : CipherKey) (nonce : Nonce) (callerKey : String) (p : Payload)
    (expiresAt : Instant) :
    fields key nonce callerKey p expiresAt = Row.strings (texts key nonce callerKey p expiresAt) :=
  Dict.ofList_map [("caller_key", callerKey), (dataField, dataOf key nonce p.bytes),
    (expiryField, Timestamp.text expiresAt)] Json.str

theorem get?_texts (key : CipherKey) (nonce : Nonce) (callerKey : String) (p : Payload)
    (expiresAt : Instant) (name : String) :
    Dict.get? (texts key nonce callerKey p expiresAt) name =
      Dict.get? [("caller_key", callerKey), (dataField, dataOf key nonce p.bytes),
        (expiryField, Timestamp.text expiresAt)] name :=
  Dict.get?_ofList (by simp [Dict.keys, dataField, expiryField]) name

theorem nulFree_texts (key : CipherKey) (nonce : Nonce) (callerKey : String) (p : Payload)
    (expiresAt : Instant) :
    ∀ name ∈ Dict.keys (texts key nonce callerKey p expiresAt), Spelling.NulFree name := by
  intro name hname
  have hmem := Dict.mem_keys_ofList.mp hname
  simp only [Dict.keys, List.map_cons, List.map_nil, List.mem_cons, List.not_mem_nil,
    or_false] at hmem
  rcases hmem with rfl | rfl | rfl <;> decide

theorem ordered_fields (key : CipherKey) (nonce : Nonce) (callerKey : String) (p : Payload)
    (expiresAt : Instant) : Dict.Ordered (fields key nonce callerKey p expiresAt) :=
  Dict.ordered_ofList _

theorem get?_fields (key : CipherKey) (nonce : Nonce) (callerKey : String) (p : Payload)
    (expiresAt : Instant) (name : String) :
    Dict.get? (fields key nonce callerKey p expiresAt) name =
      Dict.get? [("caller_key", Json.str callerKey), (dataField, .str (dataOf key nonce p.bytes)),
        (expiryField, .str (Timestamp.text expiresAt))] name :=
  Dict.get?_ofList (by simp [Dict.keys, dataField, expiryField]) name

theorem get?_expiry (key : CipherKey) (nonce : Nonce) (callerKey : String) (p : Payload)
    (expiresAt : Instant) : Dict.get? (fields key nonce callerKey p expiresAt) expiryField =
      some (.str (Timestamp.text expiresAt)) := by
  rw [get?_fields]
  rfl

theorem ofDocument?_fields (key : CipherKey) (nonce : Nonce) (callerKey : String) (p : Payload)
    (expiresAt : Instant) : ofDocument? (fields key nonce callerKey p expiresAt) =
      some ⟨dataOf key nonce p.bytes, expiresAt⟩ := by
  have hdata : Dict.get? (fields key nonce callerKey p expiresAt) dataField =
      some (.str (dataOf key nonce p.bytes)) := by
    rw [get?_fields]
    rfl
  have hkey : Dict.get? (fields key nonce callerKey p expiresAt) "caller_key" =
      some (.str callerKey) := by
    rw [get?_fields]
    rfl
  simp only [ofDocument?, textFieldOrEmpty?, textField?, expiryOf?, hkey, hdata, get?_expiry,
    Json.str?, Option.bind_eq_bind, Option.bind_some, Timestamp.read?_text, Option.pure_def]

theorem credentials?_fields (key : CipherKey) (nonce : Nonce) (callerKey : String) (p : Payload)
    (expiresAt : Instant) :
    credentials? key (fields key nonce callerKey p expiresAt) = p.credentials := by
  simp only [credentials?, ofDocument?_fields, payload_dataOf]

theorem insertAll_fields (key : CipherKey) (nonce nonce' : Nonce) (callerKey : String)
    (p p' : Payload) (expiresAt expiresAt' : Instant) :
    Dict.insertAll (fields key nonce callerKey p expiresAt)
      (fields key nonce' callerKey p' expiresAt') =
        fields key nonce' callerKey p' expiresAt' := by
  have hordered := ordered_fields key nonce' callerKey p' expiresAt'
  refine ((ordered_fields key nonce callerKey p expiresAt).insertAll _).ext hordered fun name => ?_
  rw [Dict.get?_insertAll hordered.nodup_keys, get?_fields, get?_fields]
  simp only [Dict.get?]
  split
  · rfl
  · split
    · rfl
    · split <;> rfl

end SealedDocument

/-! ### Plain documents -/

namespace Credentials

theorem given_of_blank {c : Credentials} (h : c.isBlank = true) : given (some c) = none := by
  rw [given, Option.filter_some, h]
  rfl

theorem given_of_not_blank {c : Credentials} (h : c.isBlank = false) :
    given (some c) = some c := by
  rw [given, Option.filter_some, h]
  rfl

theorem given_given (credentials : Option Credentials) :
    given (given credentials) = given credentials := by
  cases credentials with
  | none => rfl
  | some c =>
    cases hblank : c.isBlank with
    | true =>
      rw [given_of_blank hblank]
      rfl
    | false => rw [given_of_not_blank hblank, given_of_not_blank hblank]

theorem not_complete_of_blank {c : Credentials} (h : c.isBlank = true) : c.isComplete = false := by
  rw [isBlank, Bool.and_eq_true, beq_iff_eq, beq_iff_eq] at h
  rw [isComplete, h.1]
  rfl

end Credentials

namespace TokenDocument

def registration (credentials : Option Credentials) : Dict String :=
  match Credentials.given credentials with
  | some c => [("client_id", c.clientId), ("client_secret", c.clientSecret)]
  | none => []

def texts (key : String) (tokens : Tokens) (credentials : Option Credentials)
    (expiresAt : Instant) : List (String × String) :=
  [("caller_key", key), ("access_token", tokens.accessToken),
    ("refresh_token", tokens.refreshToken), (expiryField, Timestamp.text expiresAt)]
    ++ registration credentials

theorem fields_eq_strings (key : String) (tokens : Tokens) (credentials : Option Credentials)
    (expiresAt : Instant) : fields key tokens credentials expiresAt =
      Row.strings (Dict.ofList (texts key tokens credentials expiresAt)) := by
  have hmap := Dict.ofList_map (texts key tokens credentials expiresAt) Json.str
  rw [Row.strings, ← hmap, fields, texts, registration]
  cases Credentials.given credentials <;> rfl

theorem nodup_texts (key : String) (tokens : Tokens) (credentials : Option Credentials)
    (expiresAt : Instant) : (Dict.keys (texts key tokens credentials expiresAt)).Nodup := by
  rw [texts, registration]
  cases Credentials.given credentials <;> simp [Dict.keys, expiryField]

theorem nulFree_texts (key : String) (tokens : Tokens) (credentials : Option Credentials)
    (expiresAt : Instant) :
    ∀ name ∈ Dict.keys (Dict.ofList (texts key tokens credentials expiresAt)),
      Spelling.NulFree name := by
  intro name hname
  have hmem := Dict.mem_keys_ofList.mp hname
  rw [texts, registration, Dict.keys] at hmem
  cases hgiven : Credentials.given credentials with
  | none =>
    simp only [hgiven, List.append_nil, List.map_cons, List.map_nil, List.mem_cons,
      List.not_mem_nil, or_false] at hmem
    rcases hmem with rfl | rfl | rfl | rfl <;> decide
  | some c =>
    simp only [hgiven, List.cons_append, List.nil_append, List.map_cons, List.map_nil,
      List.mem_cons, List.not_mem_nil, or_false] at hmem
    rcases hmem with rfl | rfl | rfl | rfl | rfl | rfl <;> decide

theorem ordered_fields (key : String) (tokens : Tokens) (credentials : Option Credentials)
    (expiresAt : Instant) : Dict.Ordered (fields key tokens credentials expiresAt) :=
  Dict.ordered_ofList _

theorem get?_fields (key : String) (tokens : Tokens) (credentials : Option Credentials)
    (expiresAt : Instant) (name : String) :
    Dict.get? (fields key tokens credentials expiresAt) name =
      (Dict.get? (texts key tokens credentials expiresAt) name).map Json.str := by
  rw [fields_eq_strings, Row.strings, Dict.get?_map, Dict.get?_ofList (nodup_texts _ _ _ _)]

theorem get?_expiry (key : String) (tokens : Tokens) (credentials : Option Credentials)
    (expiresAt : Instant) : Dict.get? (fields key tokens credentials expiresAt) expiryField =
      some (.str (Timestamp.text expiresAt)) := by
  rw [get?_fields]
  rfl

theorem get?_registration_or (credentials credentials' : Option Credentials) (name : String) :
    (Dict.get? (registration credentials') name).or (Dict.get? (registration credentials) name) =
      Dict.get? (registration ((Credentials.given credentials').orElse fun _ => credentials))
        name := by
  cases hgiven : Credentials.given credentials' with
  | none =>
    rw [registration, hgiven]
    rfl
  | some c =>
    have hagain : Credentials.given (some c) = some c := by
      rw [← hgiven, Credentials.given_given]
    rw [registration, hgiven, registration, Option.orElse_some, registration, hagain]
    simp only [Dict.get?]
    split
    · rfl
    · next hid =>
      split
      · rfl
      · next hsecret =>
        cases Credentials.given credentials with
        | none => rfl
        | some d => simp only [Dict.get?, if_neg hid, if_neg hsecret, Option.or_none]

theorem insertAll_fields (key : String) (tokens tokens' : Tokens)
    (credentials credentials' : Option Credentials) (expiresAt expiresAt' : Instant) :
    Dict.insertAll (fields key tokens credentials expiresAt)
      (fields key tokens' credentials' expiresAt') =
        fields key tokens' ((Credentials.given credentials').orElse fun _ => credentials)
          expiresAt' := by
  have hordered := ordered_fields key tokens' credentials' expiresAt'
  refine ((ordered_fields key tokens credentials expiresAt).insertAll _).ext
    (ordered_fields _ _ _ _) fun name => ?_
  rw [Dict.get?_insertAll hordered.nodup_keys, get?_fields, get?_fields, get?_fields, texts, texts,
    texts, Dict.get?_append, Dict.get?_append, Dict.get?_append, ← get?_registration_or]
  simp only [Dict.get?]
  split
  · rfl
  · split
    · rfl
    · split
      · rfl
      · split
        · rfl
        · simp only [Option.none_or, Option.map_or]

theorem fields_given (key : String) (tokens : Tokens) (credentials : Option Credentials)
    (expiresAt : Instant) : fields key tokens (Credentials.given credentials) expiresAt =
      fields key tokens credentials expiresAt := by
  rw [fields, fields, Credentials.given_given]

theorem ofDocument?_fields (key : String) (tokens : Tokens) (credentials : Option Credentials)
    (expiresAt : Instant) : ofDocument? (fields key tokens credentials expiresAt) =
      some ⟨tokens.accessToken, tokens.refreshToken, expiresAt,
        ((Credentials.given credentials).map (·.clientId)).getD "",
        ((Credentials.given credentials).map (·.clientSecret)).getD ""⟩ := by
  simp only [ofDocument?, textFieldOrEmpty?, textField?, expiryOf?, get?_fields, texts,
    Dict.get?_append, registration]
  cases Credentials.given credentials with
  | none => simp [Dict.get?, expiryField, Json.str?, Timestamp.read?_text]
  | some c => simp [Dict.get?, expiryField, Json.str?, Timestamp.read?_text]

end TokenDocument
end TokenKeeper
