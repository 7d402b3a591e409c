/-!
# UTF-8

`encode` writes a text as bytes and `decode?` reads it back; it refuses every sequence that is not
the encoding of a text. `scan` reads any bytes at all: each well-formed part is a character, and
each maximal ill-formed part counts as one gap. `glyphs` is the same reading for a program that
wants characters wherever there are any.
-/
namespace TokenKeeper

abbrev Bytes := List UInt8

namespace Utf8

def encode (s : String) : Bytes :=
  s.toUTF8.data.toList

def decode? (bytes : Bytes) : Option String :=
  String.fromUTF8? ⟨⟨bytes⟩⟩

@[simp] theorem decode?_encode (s : String) : decode? (encode s) = some s := by
  unfold decode? encode String.fromUTF8?
  simp [String.fromUTF8, s.isValidUTF8]

theorem decode?_eq_some_iff {bytes : Bytes} {s : String} :
    decode? bytes = some s ↔ bytes = encode s := by
  refine ⟨fun h => ?_, fun h => h ▸ decode?_encode s⟩
  unfold decode? String.fromUTF8? at h
  split at h
  next =>
    cases h
    simp [encode, String.fromUTF8]
  next => cases h

/-- A character whose first bytes have been read: how many are still owed, the bounds of the next
one, and the bits so far. -/
structure Pending where
  owed : Nat
  low : Nat
  high : Nat
  bits : Nat
  deriving DecidableEq, Repr

inductive Lead
  | whole (c : Char)
  | first (p : Pending)
  | stray

def Lead.ofByte (b : Nat) : Lead :=
  if b < 0x80 then .whole (Char.ofNat b)
  else if b < 0xC2 then .stray
  else if b < 0xE0 then .first ⟨1, 0x80, 0xBF, b - 0xC0⟩
  else if b = 0xE0 then .first ⟨2, 0xA0, 0xBF, 0⟩
  else if b = 0xED then .first ⟨2, 0x80, 0x9F, 0xD⟩
  else if b < 0xF0 then .first ⟨2, 0x80, 0xBF, b - 0xE0⟩
  else if b = 0xF0 then .first ⟨3, 0x90, 0xBF, 0⟩
  else if b < 0xF4 then .first ⟨3, 0x80, 0xBF, b - 0xF0⟩
  else if b = 0xF4 then .first ⟨3, 0x80, 0x8F, 4⟩
  else .stray

def scanFrom : Option Pending → Bytes → List (Option Char)
  | none, [] => []
  | some _, [] => [none]
  | none, b :: rest => start b rest
  | some p, b :: rest =>
    let n := b.toNat
    if p.low ≤ n ∧ n ≤ p.high then
      let bits := p.bits * 64 + n % 64
      if p.owed ≤ 1 then some (Char.ofNat bits) :: scanFrom none rest
      else scanFrom (some ⟨p.owed - 1, 0x80, 0xBF, bits⟩) rest
    else none :: start b rest
where
  start (b : UInt8) (rest : Bytes) : List (Option Char) :=
    match Lead.ofByte b.toNat with
    | .whole c => some c :: scanFrom none rest
    | .first p => scanFrom (some p) rest
    | .stray => none :: scanFrom none rest

def scan (bytes : Bytes) : List (Option Char) :=
  scanFrom none bytes

def glyphs (bytes : Bytes) : List (Option Char) :=
  match decode? bytes with
  | some s => s.toList.map some
  | none => scan bytes

@[simp] theorem glyphs_encode (s : String) : glyphs (encode s) = s.toList.map some := by
  simp [glyphs]

def decodeLossy (bytes : Bytes) : String :=
  String.ofList ((glyphs bytes).map fun g => g.getD '\uFFFD')

@[simp] theorem decodeLossy_encode (s : String) : decodeLossy (encode s) = s := by
  simp [decodeLossy, List.map_map, Function.comp_def]

end Utf8
end TokenKeeper
