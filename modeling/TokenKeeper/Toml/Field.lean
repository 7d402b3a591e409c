import TokenKeeper.Toml.Basic

/-!
# Records in TOML

A record with named fields is a table with some of the names among its keys, or a list of the fields
in order. A moment stands for a table without any of them. A choice between words is one of the
words, or a table with it as its only key and nothing under it.
-/
namespace TokenKeeper.Toml.Value

def record? (names : List String) : Value → Option (List (Option Value))
  | .table _ members => some (names.map (Members.get? members))
  | .list items => some (names.zipIdx.map fun (_, i) => items[i]?)
  | .elements tables =>
    some (names.zipIdx.map fun (_, i) => tables.reverse[i]?.map (Value.table .header))
  | .moment => some (names.map fun _ => none)
  | _ => none

def string? : Value → Option String
  | .string s => some s
  | _ => none

def boolean? : Value → Option Bool
  | .boolean b => some b
  | _ => none

def natural? : Value → Option Nat
  | .integer (.ofNat n) => if n < 1 <<< 64 then some n else none
  | _ => none

def isEmpty : Value → Bool
  | .list items => items.isEmpty
  | .table _ members => members.isEmpty
  | _ => false

def word? : Value → Option String
  | .string s => some s
  | .table _ [(s, v)] => if v.isEmpty then some s else none
  | _ => none

def choice? {α : Type} (choices : List (String × α)) (v : Value) : Option α :=
  v.word?.bind fun s => (choices.find? fun c => c.1 == s).map (·.2)

def orDefault {α : Type} (read : Value → Option α) (default : α) : Option Value → Option α
  | some v => read v
  | none => some default

def required {α : Type} (read : Value → Option α) (field : Option Value) : Option α :=
  field.bind read

end TokenKeeper.Toml.Value
