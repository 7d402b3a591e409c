import TokenKeeper.Cipher.Aes

/-!
# Galois/counter mode

A text is encrypted by adding the encryptions of successive counter blocks, which begin with the
nonce. The tag is a polynomial of the ciphertext in the field of `2 ^ 128` elements, masked by the
encryption of the first counter block. There is no associated data. `encrypt` gives the ciphertext
followed by its tag, and `decrypt?` gives the text back if the tag is the right one.
-/
namespace TokenKeeper.Gcm

abbrev Block := BitVec 128

def toBlock (bytes : Bytes) : Block :=
  BitVec.ofNat 128 (((bytes ++ List.replicate (16 - bytes.length) 0).take 16).foldl
    (fun (n : Nat) (b : UInt8) => n * 256 + b.toNat) 0)

def ofBlock (x : Block) : Bytes :=
  (List.range 16).map fun i => .ofNat (x.toNat / Nat.pow 256 (15 - i) % 256)

def blocks (bytes : Bytes) : List Block :=
  (List.range ((bytes.length + 15) / 16)).map fun i => toBlock ((bytes.drop (16 * i)).take 16)

/-- The polynomial by which products are reduced, its first bit the constant term. -/
def modulus : Block := BitVec.ofNat 128 (0xE1 <<< 120)

def productStep (x : Block) (state : Block × Block) (i : Nat) : Block × Block :=
  let (sum, multiple) := state
  (if x.getMsbD i then sum ^^^ multiple else sum,
    if multiple.getLsbD 0 then (multiple >>> 1) ^^^ modulus else multiple >>> 1)

def product (x y : Block) : Block :=
  ((List.range 128).foldl (productStep x) (0, y)).1

def hash (point : Block) (xs : List Block) : Block :=
  xs.foldl (fun sum x => product (sum ^^^ x) point) 0

def counterBlock (nonce : Bytes) (n : Nat) : Bytes :=
  nonce ++ [.ofNat (n / 16777216), .ofNat (n / 65536), .ofNat (n / 256), .ofNat n]

def keyStream (keys : List Bytes) (nonce : Bytes) (count : Nat) : Bytes :=
  (List.range count).flatMap fun i => Aes.encryptBlock keys (counterBlock nonce (i + 2))

def mask (keys : List Bytes) (nonce text : Bytes) : Bytes :=
  Aes.xorBytes text (keyStream keys nonce ((text.length + 15) / 16))

def tag (keys : List Bytes) (nonce ciphertext : Bytes) : Bytes :=
  let point := toBlock (Aes.encryptBlock keys (List.replicate 16 0))
  let lengths := BitVec.ofNat 128 (8 * ciphertext.length)
  Aes.xorBytes (ofBlock (hash point (blocks ciphertext ++ [lengths])))
    (Aes.encryptBlock keys (counterBlock nonce 1))

def tagLength : Nat := 16

def encrypt (key nonce text : Bytes) : Bytes :=
  let keys := Aes.schedule key
  let ciphertext := mask keys nonce text
  ciphertext ++ tag keys nonce ciphertext

def decrypt? (key nonce sealed : Bytes) : Option Bytes :=
  if sealed.length < tagLength then none
  else
    let keys := Aes.schedule key
    let ciphertext := sealed.take (sealed.length - tagLength)
    if tag keys nonce ciphertext = sealed.drop (sealed.length - tagLength) then
      some (mask keys nonce ciphertext)
    else none

end TokenKeeper.Gcm
