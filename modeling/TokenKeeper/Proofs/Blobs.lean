import TokenKeeper.Proofs.Sealing

/-!
# Which blobs open

A blob opens under a key exactly when it is what the key makes of some payload and some nonce, and
then it opens to that payload: the ciphertext is the payload under the key stream of the nonce, and
there is one tag for it. A blob too short for a nonce is told apart from all the others that do not
open, among them those that are too short for a tag.

Galois/counter mode is meant for payloads of up to `2 ^ 36 - 32` bytes. Nothing below depends on
that, since past it the counter starts over.
-/
namespace TokenKeeper

namespace Gcm

theorem le_of_decrypt? {key nonce sealed text : Bytes}
    (h : decrypt? key nonce sealed = some text) : tagLength ≤ sealed.length := by
  unfold decrypt? at h
  split at h
  · cases h
  · omega

theorem encrypt_of_decrypt? {key nonce sealed text : Bytes} (hnonce : nonce.length = nonceLength)
    (h : decrypt? key nonce sealed = some text) : encrypt key nonce text = sealed := by
  have hle := le_of_decrypt? h
  unfold decrypt? at h
  rw [if_neg (by omega)] at h
  simp only at h
  split at h
  · next htag =>
    cases h
    simp only [encrypt, mask_mask key hnonce, htag]
    exact List.take_append_drop _ _
  · cases h

theorem decrypt?_eq_some_iff {key nonce sealed text : Bytes} (h : nonce.length = nonceLength) :
    decrypt? key nonce sealed = some text ↔ encrypt key nonce text = sealed :=
  ⟨encrypt_of_decrypt? h, fun he => he ▸ decrypt?_encrypt key h text⟩

end Gcm

namespace CipherKey

variable {key : CipherKey} {blob payload : Bytes}

theorem length_encrypt (key : CipherKey) (nonce : Nonce) (payload : Bytes) :
    (key.encrypt nonce payload).length = nonceLength + payload.length + Gcm.tagLength := by
  rw [encrypt, List.length_append, nonce.length_eq, Gcm.length_encrypt key.bytes nonce.length_eq,
    Nat.add_assoc]

theorem decrypt_of_short (h : blob.length < nonceLength) :
    key.decrypt blob = .error (.shortBlob blob.length) :=
  if_pos h

theorem decrypt_of_long (h : nonceLength ≤ blob.length) : key.decrypt blob =
    match Gcm.decrypt? key.bytes (blob.take nonceLength) (blob.drop nonceLength) with
    | some payload => .ok payload
    | none => .error .notAuthentic :=
  if_neg (Nat.not_lt.mpr h)

theorem decrypt_eq_ok_iff : key.decrypt blob = .ok payload ↔ nonceLength ≤ blob.length ∧
    blob = blob.take nonceLength ++ Gcm.encrypt key.bytes (blob.take nonceLength) payload := by
  by_cases h : nonceLength ≤ blob.length
  · have hnonce : (blob.take nonceLength).length = nonceLength := List.length_take_of_le h
    have hopen : key.decrypt blob = .ok payload ↔
        Gcm.decrypt? key.bytes (blob.take nonceLength) (blob.drop nonceLength) = some payload := by
      rw [decrypt_of_long h]
      cases Gcm.decrypt? key.bytes (blob.take nonceLength) (blob.drop nonceLength) <;> simp
    rw [hopen, Gcm.decrypt?_eq_some_iff hnonce]
    -- Both sides compare what comes after the nonce.
    have hparts : blob = blob.take nonceLength ++ blob.drop nonceLength :=
      (List.take_append_drop nonceLength blob).symm
    constructor
    · intro he
      rw [he]
      exact ⟨h, hparts⟩
    · rintro ⟨-, he⟩
      exact (List.append_cancel_left (hparts.symm.trans he)).symm
  · rw [decrypt_of_short (Nat.not_le.mp h)]
    exact ⟨nofun, fun hlong => absurd hlong.1 h⟩

theorem decrypt_eq_ok_iff_exists : key.decrypt blob = .ok payload ↔
    ∃ nonce, key.encrypt nonce payload = blob := by
  constructor
  · intro h
    obtain ⟨hlong, hblob⟩ := decrypt_eq_ok_iff.mp h
    exact ⟨⟨blob.take nonceLength, List.length_take_of_le hlong⟩, hblob.symm⟩
  · rintro ⟨nonce, rfl⟩
    exact decrypt_encrypt key nonce payload

theorem decrypt_eq_error_iff {e : Failure} : key.decrypt blob = .error e ↔
    blob.length < nonceLength ∧ e = .shortBlob blob.length ∨
    nonceLength ≤ blob.length ∧ e = .notAuthentic ∧ ∀ payload, key.decrypt blob ≠ .ok payload := by
  by_cases h : nonceLength ≤ blob.length
  · simp only [Nat.not_lt.mpr h, h, false_and, true_and, false_or]
    rw [decrypt_of_long h]
    cases Gcm.decrypt? key.bytes (blob.take nonceLength) (blob.drop nonceLength) <;>
      simp [eq_comm]
  · simp only [Nat.not_le.mp h, h, false_and, true_and, or_false]
    rw [decrypt_of_short (Nat.not_le.mp h)]
    simp [eq_comm]

theorem le_of_decrypt (h : key.decrypt blob = .ok payload) :
    nonceLength + Gcm.tagLength ≤ blob.length := by
  obtain ⟨nonce, rfl⟩ := decrypt_eq_ok_iff_exists.mp h
  rw [length_encrypt]
  omega

theorem decrypt_refuses_short_iff :
    (∃ e, key.decrypt blob = .error e ∧ e.kind = .invalidCiphertext) ↔
      blob.length < nonceLength := by
  constructor
  · rintro ⟨e, he, hkind⟩
    rcases decrypt_eq_error_iff.mp he with ⟨hshort, -⟩ | ⟨-, rfl, -⟩
    · exact hshort
    · cases hkind
  · intro h
    exact ⟨_, decrypt_of_short h, rfl⟩

theorem decrypt_refuses_forged_iff : key.decrypt blob = .error .notAuthentic ↔
    nonceLength ≤ blob.length ∧ ∀ nonce payload, key.encrypt nonce payload ≠ blob := by
  rw [decrypt_eq_error_iff]
  constructor
  · rintro (⟨-, he⟩ | ⟨hlong, -, hclosed⟩)
    · cases he
    · exact ⟨hlong, fun nonce payload he =>
        hclosed payload (decrypt_eq_ok_iff_exists.mpr ⟨nonce, he⟩)⟩
  · rintro ⟨hlong, hforged⟩
    refine Or.inr ⟨hlong, rfl, fun payload hopen => ?_⟩
    obtain ⟨nonce, he⟩ := decrypt_eq_ok_iff_exists.mp hopen
    exact hforged nonce payload he

/-- The format of blobs, both ways: what the key makes opens, and nothing else does. -/
theorem opens_exactly (key : CipherKey) :
    (∀ nonce payload,
      (key.encrypt nonce payload).length = nonceLength + payload.length + Gcm.tagLength ∧
      key.decrypt (key.encrypt nonce payload) = .ok payload) ∧
    ∀ blob,
      ((∃ e, key.decrypt blob = .error e ∧ e.kind = .invalidCiphertext) ↔
        blob.length < nonceLength) ∧
      (∀ payload, key.decrypt blob = .ok payload ↔ nonceLength ≤ blob.length ∧
        blob = blob.take nonceLength ++ Gcm.encrypt key.bytes (blob.take nonceLength) payload) ∧
      (∀ payload, key.decrypt blob = .ok payload ↔ ∃ nonce, key.encrypt nonce payload = blob) ∧
      (key.decrypt blob = .error .notAuthentic ↔
        nonceLength ≤ blob.length ∧ ∀ nonce payload, key.encrypt nonce payload ≠ blob) ∧
      (nonceLength ≤ blob.length → blob.length < nonceLength + Gcm.tagLength →
        key.decrypt blob = .error .notAuthentic) := by
  refine ⟨fun nonce payload =>
      ⟨length_encrypt key nonce payload, decrypt_encrypt key nonce payload⟩,
    fun blob => ⟨decrypt_refuses_short_iff, fun payload => decrypt_eq_ok_iff,
      fun payload => decrypt_eq_ok_iff_exists, decrypt_refuses_forged_iff,
      fun hlong hshort => ?_⟩⟩
  refine decrypt_refuses_forged_iff.mpr ⟨hlong, fun nonce payload he => ?_⟩
  have hroom := le_of_decrypt (decrypt_eq_ok_iff_exists.mpr ⟨nonce, he⟩)
  omega

theorem tagless_does_not_open :
    (⟨List.replicate 32 0, rfl⟩ : CipherKey).decrypt (List.replicate 27 7) = .error .notAuthentic :=
  (((opens_exactly ⟨List.replicate 32 0, rfl⟩).2 (List.replicate 27 7)).2.2.2.2) (by decide)
    (by decide)

end CipherKey
end TokenKeeper
