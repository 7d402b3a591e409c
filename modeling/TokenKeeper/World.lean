import TokenKeeper.Collection.File
import TokenKeeper.Program

/-!
# The world that programs act on

The world holds a clock, a disk, a database, the collection in use, entries kept in memory, a supply
of nonces, the token endpoint with the requests it was sent, the counters, and the registry of
locks. `World.perform` says what a step answers and what it changes.
-/
namespace TokenKeeper

inductive Collection
  | file (c : FileCollection)
  | table (name : String)

inductive Endpoint
  | unreachable
  | scripted (answers : List Exchange)

def Endpoint.exhausted : Exchange := .answer 500 (some (Utf8.encode "script exhausted"))

def Endpoint.respond : Endpoint → Exchange × Endpoint
  | .unreachable => (.silence, .unreachable)
  | .scripted [] => (exhausted, .scripted [])
  | .scripted (x :: rest) => (x, .scripted rest)

structure World where
  clock : Instant
  disk : Disk
  database : Database
  collection : Collection
  memory : Dict StoredEntry
  nonces : Nat → Nonce
  drawn : Nat
  endpoint : Endpoint
  posts : List Form
  host : Option Nat
  sent : List Headers
  counted : List Counter
  flight : Flight
  /-- When set, the medium takes no writes: they fail at this step. -/
  fault : Option WriteStep

def World.isolated (now : Instant) (disk : Disk) : World where
  clock := now
  disk := disk
  database := .empty
  collection := .table "tokens"
  memory := []
  nonces := Nonce.ofNat
  drawn := 0
  endpoint := .unreachable
  posts := []
  host := none
  sent := []
  counted := []
  flight := .empty
  fault := none

/-! ### Entries in memory -/

namespace Memory

def load (entries : Dict StoredEntry) (now : Instant) (key : String) :
    Except Failure StoredEntry × Dict StoredEntry :=
  match Dict.get? entries key with
  | none => (.error (.nothingStored key), entries)
  | some entry =>
    if entry.isExpiredAt now then (.error (.expired key), Dict.erase entries key)
    else (.ok entry, entries)

def save (entries : Dict StoredEntry) (key : String) (tokens : Tokens)
    (credentials : Option Credentials) (expiresAt : Instant) : Dict StoredEntry :=
  let kept := (Dict.get? entries key).bind (·.credentials)
  Dict.insert entries key ⟨tokens, (Credentials.given credentials).orElse fun _ => kept, expiresAt⟩

end Memory

namespace World

def find (w : World) (key : String) : Except Failure (Option Document) :=
  match w.collection with
  | .file c => .ok (c.find key)
  | .table name => w.database.find name key

def withFile (w : World) (changed : FileCollection × Disk) : World :=
  { w with collection := .file changed.1, disk := changed.2 }

def refuse (w : World) (failure : Failure) : Except Failure Unit :=
  if w.fault.isSome then .error failure else .ok ()

def upsert (w : World) (key : String) (fields : Document) : Except Failure World := do
  match w.collection with
  | .file c => return w.withFile (← c.upsert w.disk w.fault key fields)
  | .table name =>
    w.refuse (.tableUpsert key)
    return { w with database := ← w.database.upsert name key fields }

def delete (w : World) (key : String) : Except Failure World := do
  match w.collection with
  | .file c => return w.withFile (← c.delete w.disk w.fault key)
  | .table name =>
    w.refuse (.tableDelete key)
    return { w with database := ← w.database.delete name key }

def deleteIf (w : World) (key field : String) (expected : Json) :
    Except Failure (Bool × World) := do
  match w.collection with
  | .file c =>
    let (removed, changed) ← c.deleteIf w.disk w.fault key field expected
    return (removed, w.withFile changed)
  | .table name =>
    w.refuse (.tableDelete key)
    let (removed, database) ← w.database.deleteIf name key field expected
    return (removed, { w with database })

def settle (w : World) : Except Failure World → Except Failure Unit × World
  | .ok changed => (.ok (), changed)
  | .error e => (.error e, w)

def settleWith {α : Type} (w : World) : Except Failure (α × World) → Except Failure α × World
  | .ok (a, changed) => (.ok a, changed)
  | .error e => (.error e, w)

def perform : (op : Op) → World → op.Answer × World
  | .now, w => (w.clock, w)
  | .find key, w => (w.find key, w)
  | .upsert key fields, w => w.settle (w.upsert key fields)
  | .delete key, w => w.settle (w.delete key)
  | .deleteIf key field expected, w => w.settleWith (w.deleteIf key field expected)
  | .recall key, w =>
    let (answer, memory) := Memory.load w.memory w.clock key
    (answer, { w with memory })
  | .recallAny key, w => (Dict.get? w.memory key, w)
  | .keep key tokens credentials expiresAt, w =>
    ((), { w with memory := Memory.save w.memory key tokens credentials expiresAt })
  | .nonce, w => (w.nonces w.drawn, { w with drawn := w.drawn + 1 })
  | .post form, w =>
    let (answer, endpoint) := w.endpoint.respond
    (answer, { w with endpoint, posts := form :: w.posts })
  | .send headers, w => (w.host, { w with sent := headers :: w.sent })
  | .count counter, w => ((), { w with counted := counter :: w.counted })
  | .checkout key, w =>
    let (slot, flight) := w.flight.checkout key
    (slot, { w with flight })
  | .acquire slot, w => ((), { w with flight := w.flight.acquire slot })
  | .release slot, w => ((), { w with flight := w.flight.release slot })
  | .retire slot, w => ((), { w with flight := w.flight.retire slot })
  | .forget slot, w => ((), { w with flight := w.flight.forget slot })

/-- Whether a step can happen now: a lock can be acquired only while nobody holds it. -/
def enabled : Op → World → Bool
  | .acquire slot, w => w.flight.isFree slot
  | _, _ => true

end World
end TokenKeeper
