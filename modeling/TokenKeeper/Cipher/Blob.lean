import TokenKeeper.Cipher.Gcm
import TokenKeeper.Failure
import TokenKeeper.Text.Blank

/-!
# Sealed blobs

A blob is a nonce of twelve bytes, the ciphertext of a payload under AES-256 in Galois/counter mode,
and its tag of sixteen bytes. `CipherKey.decrypt` opens exactly the blobs that `CipherKey.encrypt`
makes under the same key.
-/
namespace TokenKeeper

def keyLength : Nat := 32

def nonceLength : Nat := 12

structure CipherKey where
  bytes : Bytes
  length_eq : bytes.length = keyLength
  deriving DecidableEq

structure Nonce where
  bytes : Bytes
  length_eq : bytes.length = nonceLength
  deriving DecidableEq

def Nonce.ofNat (n : Nat) : Nonce :=
  ⟨(List.range nonceLength).map fun i => .ofNat (n / Nat.pow 256 (nonceLength - 1 - i)), by simp⟩

namespace CipherKey

def ofBytes (bytes : Bytes) : Except Failure CipherKey :=
  if h : bytes.length = keyLength then .ok ⟨bytes, h⟩ else .error (.keyLength bytes.length)

def ofText (text : String) : Except Failure CipherKey :=
  match Base64.decode (Text.trim text) with
  | .ok bytes => ofBytes bytes
  | .error fault => .error (.keyEncoding fault)

def encrypt (key : CipherKey) (nonce : Nonce) (payload : Bytes) : Bytes :=
  nonce.bytes ++ Gcm.encrypt key.bytes nonce.bytes payload

def decrypt (key : CipherKey) (blob : Bytes) : Except Failure Bytes :=
  if blob.length < nonceLength then .error (.shortBlob blob.length)
  else
    match Gcm.decrypt? key.bytes (blob.take nonceLength) (blob.drop nonceLength) with
    | some payload => .ok payload
    | none => .error .notAuthentic

end CipherKey
end TokenKeeper
