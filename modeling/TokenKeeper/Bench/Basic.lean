import TokenKeeper.Bench.Damage
import TokenKeeper.Decorator
import TokenKeeper.Store.Sealed
import TokenKeeper.Tasks
import TokenKeeper.Url

/-!
# A bench for stores and clients

On the bench a store and a client work on a world of their own, driven step by step. Besides the
calls that they offer there are steps that reach behind their backs: documents are read and written
directly, blobs damaged, files overwritten, directories removed, the clock moved. Two kinds of trap
can be set. A failure makes the next operation of its kind on the collection fail before it does
anything. A race lets someone else write a document right after the next one has been read.
-/
namespace TokenKeeper

structure Race where
  key : String
  fields : Document

structure Bench where
  world : World
  store : Option TokenStore
  client : Option Client
  cipher : Option CipherKey
  failing : List CollectionOp
  racing : Option Race

namespace Bench

def collectionOp? : Op → Option CollectionOp
  | .find _ => some .find
  | .upsert .. => some .upsert
  | .delete _ => some .delete
  | .deleteIf .. => some .deleteIf
  | _ => none

def injected? : (op : Op) → Option op.Answer
  | .find _ => some (.error (.injected .find))
  | .upsert .. => some (.error (.injected .upsert))
  | .delete _ => some (.error (.injected .delete))
  | .deleteIf .. => some (.error (.injected .deleteIf))
  | _ => none

def hasRead : (op : Op) → op.Answer → Bool
  | .find _, .ok _ => true
  | _, _ => false

def race (b : Bench) : Bench :=
  match b.racing with
  | none => b
  | some r => { b with racing := none, world := (b.world.settle (b.world.upsert r.key r.fields)).2 }

def perform (op : Op) (b : Bench) : op.Answer × Bench :=
  let failing := match collectionOp? op with
    | some c => b.failing.contains c
    | none => false
  match injected? op with
  | some answer =>
    if failing then
      (answer, { b with failing := b.failing.eraseP fun c => collectionOp? op == some c })
    else plain
  | none => plain
where
  plain : op.Answer × Bench :=
    let (answer, world) := World.perform op b.world
    let b := { b with world }
    (answer, if hasRead op answer then b.race else b)

def run {α : Type} (p : Program α) (b : Bench) : Except Failure α × Bench := p.run perform b

def size (b : Bench) : Nat :=
  match b.world.collection with
  | .file c => c.documents.length
  | .table _ => b.world.memory.length

def path? (b : Bench) : Option String :=
  match b.world.collection with
  | .file c => some c.path
  | .table _ => none

def place? (b : Bench) : Option Place := b.path?.bind b.world.disk.place?

def sealFields (b : Bench) (fields : Document) (payload : Option Bytes) : Document × Bench :=
  match payload, b.cipher with
  | some bytes, some key =>
    let (nonce, world) := World.perform .nonce b.world
    (Dict.insert fields dataField (.str (SealedDocument.dataOf key nonce bytes)), { b with world })
  | _, _ => (fields, b)

def opened? (b : Bench) (doc : Document) : Option Bytes := do
  let key ← b.cipher
  let data ← textField? doc dataField
  let blob ← (Base64.decode data).toOption
  (key.decrypt blob).toOption

def damage (key : String) (change : Bytes → Bytes) : Program Unit := do
  let doc ← findStored key
  match (textField? doc dataField).bind fun data => (Base64.decode data).toOption with
  | none => .fail (.sealedDocument key)
  | some blob =>
    Program.ofExcept
      (← Program.perform (.upsert key [(dataField, .str (Base64.encode (change blob)))]))

end Bench
end TokenKeeper
