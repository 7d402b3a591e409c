import TokenKeeper.Text.Utf8

/-!
# Damaging bytes

Trials damage a sealed blob and see what becomes of it. A place that is negative counts from the
end.
-/
namespace TokenKeeper.Damage

def place (length : Nat) (spot : Int) : Nat :=
  if spot < 0 then (length + spot).toNat else spot.toNat

def toggle (mask : UInt8) (spot : Int) (bytes : Bytes) : Bytes :=
  bytes.modify (place bytes.length spot) (· ^^^ mask)

def keep (spot : Int) (bytes : Bytes) : Bytes :=
  bytes.take (place bytes.length spot)

end TokenKeeper.Damage
