import TokenKeeper.Dict

/-!
# One refresh at a time

For each caller key with a refresh under way there is a lock, which the registry lists under the
key. A task that wants to refresh checks out a slot, a share in the lock, acquires the lock, and
gives both back in two steps: `retire` removes the lock from the registry if no other slot shares
it, and `forget` then gives up the share itself. Between the two another task may have checked out a
new lock.

Locks are numbered in the order in which they were made. `shares` counts the holders of a lock, the
registry among them.
-/
namespace TokenKeeper

structure Slot where
  key : String
  lock : Nat
  deriving DecidableEq, Repr

structure Flight where
  registry : Dict Nat
  shares : List (Nat × Nat)
  held : List Nat
  next : Nat
  deriving DecidableEq, Repr

namespace Flight

def empty : Flight := ⟨[], [], [], 0⟩

def sharesOf (f : Flight) (lock : Nat) : Nat :=
  match f.shares.find? (·.1 == lock) with
  | some (_, n) => n
  | none => 0

def setShares (f : Flight) (lock n : Nat) : Flight :=
  let others := f.shares.filter (·.1 != lock)
  { f with shares := if n = 0 then others else (lock, n) :: others }

def checkout (f : Flight) (key : String) : Slot × Flight :=
  match Dict.get? f.registry key with
  | some lock => (⟨key, lock⟩, f.setShares lock (f.sharesOf lock + 1))
  | none =>
    let made := { f with registry := Dict.insert f.registry key f.next, next := f.next + 1 }
    (⟨key, f.next⟩, made.setShares f.next 2)

def isFree (f : Flight) (slot : Slot) : Bool := !f.held.contains slot.lock

def acquire (f : Flight) (slot : Slot) : Flight := { f with held := slot.lock :: f.held }

def release (f : Flight) (slot : Slot) : Flight := { f with held := f.held.erase slot.lock }

/-- Removes a lock from the registry when only the registry and this slot share it. -/
def retire (f : Flight) (slot : Slot) : Flight :=
  if f.sharesOf slot.lock = 2 ∧ Dict.get? f.registry slot.key = some slot.lock then
    { f with registry := Dict.erase f.registry slot.key }.setShares slot.lock 1
  else f

def forget (f : Flight) (slot : Slot) : Flight :=
  f.setShares slot.lock (f.sharesOf slot.lock - 1)

end Flight
end TokenKeeper
