import TokenKeeper.Text.Utf8

/-!
# The AES-256 block cipher

Bytes are elements of the field with 256 elements, written as polynomials modulo
`x^8 + x^4 + x^3 + x + 1`. A block is a list of sixteen bytes, four columns of four. Encryption adds
a round key, then thirteen times substitutes, shifts, mixes and adds, and a last time without
mixing.
-/
namespace TokenKeeper.Aes

def double (a : UInt8) : UInt8 :=
  (a <<< 1) ^^^ (if a < 128 then 0 else 0x1B)

def product (a b : UInt8) : UInt8 :=
  go 8 a b 0
where
  go : Nat → UInt8 → UInt8 → UInt8 → UInt8
    | 0, _, _, sum => sum
    | n + 1, a, b, sum => go n (a >>> 1) (double b) (if a % 2 = 1 then sum ^^^ b else sum)

def square (a : UInt8) : UInt8 := product a a

def inverse (a : UInt8) : UInt8 :=
  let a2 := square a
  let a4 := square a2
  let a8 := square a4
  let a16 := square a8
  let a32 := square a16
  let a64 := square a32
  let a128 := square a64
  product (product (product a2 a4) (product a8 a16)) (product (product a32 a64) a128)

def rotateLeft (a : UInt8) (n : UInt8) : UInt8 := (a <<< n) ||| (a >>> (8 - n))

def substituteByte (a : UInt8) : UInt8 :=
  let b := inverse a
  b ^^^ rotateLeft b 1 ^^^ rotateLeft b 2 ^^^ rotateLeft b 3 ^^^ rotateLeft b 4 ^^^ 0x63

def substitutions : Array UInt8 :=
  (Array.range 256).map fun n => substituteByte (.ofNat n)

def substitute (a : UInt8) : UInt8 := substitutions.getD a.toNat 0

def xorBytes (a b : Bytes) : Bytes := List.zipWith (· ^^^ ·) a b

def shiftRows (block : Bytes) : Bytes :=
  (List.range 16).map fun i => block.getD ((i % 4) + 4 * ((i / 4 + i % 4) % 4)) 0

def mixColumns : Bytes → Bytes
  | a :: b :: c :: d :: rest =>
    (double a ^^^ double b ^^^ b ^^^ c ^^^ d) :: (a ^^^ double b ^^^ double c ^^^ c ^^^ d)
      :: (a ^^^ b ^^^ double c ^^^ double d ^^^ d) :: (double a ^^^ a ^^^ b ^^^ c ^^^ double d)
      :: mixColumns rest
  | rest => rest

def nextWords (constant : UInt8) (words : List Bytes) : List Bytes :=
  match words with
  | [a, b, c, d, e, f, g, h] =>
    let turned := (h.drop 1 ++ h.take 1).map substitute
    let a := xorBytes (xorBytes a turned) [constant, 0, 0, 0]
    let b := xorBytes b a
    let c := xorBytes c b
    let d := xorBytes d c
    let e := xorBytes e (d.map substitute)
    let f := xorBytes f e
    let g := xorBytes g f
    let h := xorBytes h g
    [a, b, c, d, e, f, g, h]
  | words => words

def roundKeys : List Bytes → List Bytes
  | a :: b :: c :: d :: rest => (a ++ b ++ c ++ d) :: roundKeys rest
  | _ => []

def words : Bytes → List Bytes
  | a :: b :: c :: d :: rest => [a, b, c, d] :: words rest
  | _ => []

def expand : Nat → UInt8 → List Bytes → List Bytes
  | 0, _, ws => ws
  | n + 1, constant, ws => ws ++ expand n (double constant) (nextWords constant ws)

def schedule (key : Bytes) : List Bytes :=
  (roundKeys (expand 7 1 (words key))).take 15

def rounds : List Bytes → Bytes → Bytes
  | [], block => block
  | [last], block => xorBytes (shiftRows (block.map substitute)) last
  | key :: keys, block =>
    rounds keys (xorBytes (mixColumns (shiftRows (block.map substitute))) key)

def encryptBlock (keys : List Bytes) (block : Bytes) : Bytes :=
  match keys with
  | first :: rest => rounds rest (xorBytes block first)
  | [] => block

end TokenKeeper.Aes
