import TokenKeeper.Cipher.Blob

/-!
# What is sealed opens again

The key stream does not depend on the text, and adding it twice changes nothing as long as it covers
the text. All that is needed of the block cipher is that it makes blocks of sixteen bytes, so the
lengths are followed through the key schedule and the rounds, and no byte is computed.
-/
namespace TokenKeeper

namespace Aes

def blockLength : Nat := 16

theorem length_xorBytes (a b : Bytes) : (xorBytes a b).length = min a.length b.length :=
  List.length_zipWith

theorem xorBytes_cancel {text stream : Bytes} (h : text.length ≤ stream.length) :
    xorBytes (xorBytes text stream) stream = text := by
  induction text generalizing stream with
  | nil => rfl
  | cons a text ih =>
    cases stream with
    | nil => simp at h
    | cons b stream =>
      have hle : text.length ≤ stream.length := by simpa using h
      have hrest := ih hle
      have hhead : a ^^^ b ^^^ b = a := by
        rw [UInt8.xor_assoc, UInt8.xor_self, UInt8.xor_zero]
      simpa [xorBytes, hhead] using hrest

theorem length_shiftRows (block : Bytes) : (shiftRows block).length = blockLength := by
  rw [shiftRows, List.length_map, List.length_range]
  rfl

theorem length_mixColumns (block : Bytes) : (mixColumns block).length = block.length := by
  fun_induction mixColumns block with
  | case1 a b c d rest ih => simp [ih]
  | case2 rest h => rfl

theorem length_rounds {keys : List Bytes} (hkeys : ∀ k ∈ keys, k.length = blockLength)
    {block : Bytes} (hblock : block.length = blockLength) :
    (rounds keys block).length = blockLength := by
  fun_induction rounds keys block with
  | case1 block => exact hblock
  | case2 last block =>
    rw [length_xorBytes, length_shiftRows, hkeys last List.mem_cons_self, Nat.min_self]
  | case3 key keys block h ih =>
    refine ih (fun k hk => hkeys k (List.mem_cons_of_mem _ hk)) ?_
    rw [length_xorBytes, length_mixColumns, length_shiftRows, hkeys key List.mem_cons_self,
      Nat.min_self]

theorem length_encryptBlock {keys : List Bytes} (hkeys : ∀ k ∈ keys, k.length = blockLength)
    {block : Bytes} (hblock : block.length = blockLength) :
    (encryptBlock keys block).length = blockLength := by
  cases keys with
  | nil => exact hblock
  | cons first rest =>
    refine length_rounds (fun k hk => hkeys k (List.mem_cons_of_mem _ hk)) ?_
    rw [length_xorBytes, hblock, hkeys first List.mem_cons_self, Nat.min_self]

/-! ### The key schedule -/

def AreWords (ws : List Bytes) : Prop := ∀ w ∈ ws, w.length = 4

theorem areWords_words (bytes : Bytes) : AreWords (words bytes) := by
  fun_induction words bytes with
  | case1 a b c d rest ih =>
    intro w hw
    rcases List.mem_cons.mp hw with rfl | hw
    · rfl
    · exact ih w hw
  | case2 bytes h => intro w hw; cases hw

theorem areWords_nextWords (constant : UInt8) {ws : List Bytes} (h : AreWords ws) :
    AreWords (nextWords constant ws) := by
  unfold nextWords
  split
  · next a b c d e f g i =>
    have hw : ∀ w ∈ [a, b, c, d, e, f, g, i], w.length = 4 := h
    simp only [List.mem_cons, List.not_mem_nil, or_false, forall_eq_or_imp, forall_eq] at hw
    intro w hmem
    simp only [List.mem_cons, List.not_mem_nil, or_false] at hmem
    rcases hmem with rfl | rfl | rfl | rfl | rfl | rfl | rfl | rfl <;>
      simp [length_xorBytes, hw]
  · exact h

theorem areWords_expand (n : Nat) (constant : UInt8) {ws : List Bytes} (h : AreWords ws) :
    AreWords (expand n constant ws) := by
  induction n generalizing constant ws with
  | zero => exact h
  | succ n ih =>
    intro w hw
    rcases List.mem_append.mp hw with hw | hw
    · exact h w hw
    · exact ih (double constant) (areWords_nextWords constant h) w hw

theorem length_of_mem_roundKeys {ws : List Bytes} (h : AreWords ws) :
    ∀ k ∈ roundKeys ws, k.length = blockLength := by
  fun_induction roundKeys ws with
  | case1 a b c d rest ih =>
    intro k hk
    rcases List.mem_cons.mp hk with rfl | hk
    · simp [h a, h b, h c, h d, blockLength]
    · exact ih (fun w hw => h w (by simp [hw])) k hk
  | case2 ws h => intro k hk; cases hk

theorem length_of_mem_schedule (key : Bytes) : ∀ k ∈ schedule key, k.length = blockLength :=
  fun k hk => length_of_mem_roundKeys (areWords_expand 7 1 (areWords_words key)) k
    (List.mem_of_mem_take hk)

end Aes

namespace Gcm

open Aes (length_xorBytes length_encryptBlock length_of_mem_schedule blockLength)

theorem length_counterBlock {nonce : Bytes} (h : nonce.length = nonceLength) (n : Nat) :
    (counterBlock nonce n).length = blockLength := by
  simp [counterBlock, h, nonceLength, blockLength]

theorem length_keyStream (key : Bytes) {nonce : Bytes} (h : nonce.length = nonceLength)
    (count : Nat) : (keyStream (Aes.schedule key) nonce count).length = count * blockLength := by
  induction count with
  | zero => rfl
  | succ n ih =>
    rw [keyStream, List.range_succ, List.flatMap_append, List.length_append]
    have hblock := length_encryptBlock (length_of_mem_schedule key) (length_counterBlock h (n + 2))
    rw [List.flatMap_cons, List.flatMap_nil, List.append_nil, hblock, Nat.succ_mul]
    exact congrArg (· + blockLength) ih

theorem length_mask (key : Bytes) {nonce : Bytes} (h : nonce.length = nonceLength) (text : Bytes) :
    (mask (Aes.schedule key) nonce text).length = text.length := by
  rw [mask, length_xorBytes, length_keyStream key h, blockLength]
  omega

theorem mask_mask (key : Bytes) {nonce : Bytes} (h : nonce.length = nonceLength) (text : Bytes) :
    mask (Aes.schedule key) nonce (mask (Aes.schedule key) nonce text) = text := by
  have hlen := length_mask key h text
  rw [mask, hlen, mask]
  apply Aes.xorBytes_cancel
  rw [length_keyStream key h, blockLength]
  omega

theorem length_tag (key : Bytes) {nonce : Bytes} (h : nonce.length = nonceLength)
    (ciphertext : Bytes) : (tag (Aes.schedule key) nonce ciphertext).length = tagLength := by
  have hblock := length_encryptBlock (length_of_mem_schedule key) (length_counterBlock h 1)
  rw [tag, length_xorBytes, hblock, ofBlock, List.length_map, List.length_range]
  rfl

theorem length_encrypt (key : Bytes) {nonce : Bytes} (h : nonce.length = nonceLength)
    (text : Bytes) : (encrypt key nonce text).length = text.length + tagLength := by
  rw [encrypt, List.length_append, length_mask key h, length_tag key h]

theorem decrypt?_encrypt (key : Bytes) {nonce : Bytes} (h : nonce.length = nonceLength)
    (text : Bytes) : decrypt? key nonce (encrypt key nonce text) = some text := by
  have hlen := length_encrypt key h text
  have hcut : (encrypt key nonce text).length - tagLength =
      (mask (Aes.schedule key) nonce text).length := by
    rw [hlen, length_mask key h]
    omega
  unfold decrypt?
  rw [if_neg (by omega), hcut]
  simp only [encrypt, List.take_left, List.drop_left, if_true, mask_mask key h]

end Gcm

namespace CipherKey

theorem decrypt_encrypt (key : CipherKey) (nonce : Nonce) (payload : Bytes) :
    key.decrypt (key.encrypt nonce payload) = .ok payload := by
  have hlen : nonceLength ≤ (key.encrypt nonce payload).length := by
    rw [encrypt, List.length_append, nonce.length_eq]
    omega
  have htake : (key.encrypt nonce payload).take nonceLength = nonce.bytes := by
    rw [encrypt, ← nonce.length_eq, List.take_left]
  have hdrop : (key.encrypt nonce payload).drop nonceLength =
      Gcm.encrypt key.bytes nonce.bytes payload := by
    rw [encrypt, ← nonce.length_eq, List.drop_left]
  rw [decrypt, if_neg (by omega), htake, hdrop, Gcm.decrypt?_encrypt key.bytes nonce.length_eq]

end CipherKey
end TokenKeeper
