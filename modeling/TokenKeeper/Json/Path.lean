import TokenKeeper.Json.Label
import TokenKeeper.Json.Number

/-!
# Paths into JSON text

A path is a chain of steps: `.name`, `."name"`, `[3]`, `[#]` past the last item, or `[#-2]` from the
end. A step is read only when the value before it has been found, so a mistake further on does not
show when the search has ended before. What a path finds is compared as a database compares: null
equals nothing, the truth values are 1 and 0, numbers compare by their value, texts by their code
points, and lists and objects as their minified text.
-/
namespace TokenKeeper.Json.Spelling

inductive Found
  | value (s : Spelling)
  | nothing
  | badPath

def plainName (path : List Char) : List Char × List Char :=
  (path.takeWhile fun c => c != '.' && c != '[', path.dropWhile fun c => c != '.' && c != '[')

/-- Digits and what follows them; the number wraps at 32 bits. -/
def index (path : List Char) : List Char × Nat × List Char :=
  let ds := path.takeWhile Text.isDigit
  (ds, Text.decimal ds % (1 <<< 32), path.drop ds.length)

def place? (length : Nat) (path : List Char) : Found ⊕ (Nat × List Char) :=
  match index path with
  | (_ :: _, n, ']' :: rest) => .inr (n, rest)
  | _ =>
    match path with
    | '#' :: ']' :: rest => .inr (length, rest)
    | '#' :: '-' :: rest =>
      match index rest with
      | ([], _, _) => .inl .badPath
      | (_, n, rest) =>
        if length < n then .inl .nothing
        else
          match rest with
          | ']' :: rest => .inr (length - n, rest)
          | _ => .inl .badPath
    | _ => .inl .badPath

def member? (name : List Nat) (s : Spelling) : Option Spelling :=
  ((s.members?.getD []).find? fun m => labelKey (label m.1) == labelKey name).map (·.2)

def followUpTo : Nat → Spelling → List Char → Found
  | _, s, [] => .value s
  | 0, _, _ :: _ => .badPath
  | fuel + 1, s, '.' :: '"' :: path =>
    let name := path.takeWhile (· != '"')
    match path.dropWhile (· != '"') with
    | [] => .badPath
    | _ :: rest =>
      match member? (label (name.map some)) s with
      | some v => followUpTo fuel v rest
      | none => .nothing
  | fuel + 1, s, '.' :: path =>
    let (name, rest) := plainName path
    if name.isEmpty then .badPath
    else
      match member? (name.map Char.toNat) s with
      | some v => followUpTo fuel v rest
      | none => .nothing
  | fuel + 1, .arr items, '[' :: path =>
    match place? items.length path with
    | .inl found => found
    | .inr (n, rest) =>
      match items[n]? with
      | some v => followUpTo fuel v rest
      | none => .nothing
  | _ + 1, _, '[' :: _ => .nothing
  | _ + 1, _, _ :: _ => .badPath

/-- Follows a path, which ends before the first NUL. -/
def follow (s : Spelling) (path : String) : Found :=
  let path := path.toList.takeWhile (· != '\x00')
  followUpTo path.length s path

inductive Scalar
  | null
  | integer (n : Int)
  | real (x : Option Binary64)
  | text (codePoints : List Nat)

def nearest? (n : Numeral) : Option Binary64 :=
  let digits := Text.ofDigits 10 (n.whole ++ n.fraction.getD [])
  let exponent : Int := n.exponent.getD 0 - (n.fraction.getD []).length
  if exponent < 0 then
    -- beyond this many places no digit is left of the point of the least number
    if digits = 0 ∨ (-exponent).toNat > 400 + 4 * (Nat.log2 digits + 1) then some (.zero n.negative)
    else Binary64.ofRatio? n.negative digits (Nat.pow 10 (-exponent).toNat)
  else if digits = 0 then some (.zero n.negative)
  else if exponent.toNat > 400 then none
  else Binary64.ofRatio? n.negative (digits * Nat.pow 10 exponent.toNat) 1

def numberScalar (spelled : List Char) : Scalar :=
  let n := Numeral.ofChars spelled
  if n.fraction.isNone ∧ n.exponent.isNone then
    let m : Int := Text.ofDigits 10 n.whole
    let i := if n.negative then -m else m
    if -(1 <<< 63 : Nat) ≤ i ∧ i < (1 <<< 63 : Nat) then .integer i else .real (nearest? n)
  else .real (nearest? n)

def scalar : Spelling → Scalar
  | .null => .null
  | .bool b => .integer (if b then 1 else 0)
  | .num spelled => numberScalar spelled
  | .str spelled => .text (label spelled)
  | s => .text ((minifiedChars s).map Char.toNat)

def Scalar.equals : Scalar → Scalar → Bool
  | .integer a, .integer b => a == b
  | .real (some x), .real (some y) => x.sameNumber y
  | .integer a, .real (some x) => x.equalsInt a
  | .real (some x), .integer a => x.equalsInt a
  | .text a, .text b => a == b
  | _, _ => false

end TokenKeeper.Json.Spelling
