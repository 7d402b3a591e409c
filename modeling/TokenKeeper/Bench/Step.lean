import TokenKeeper.Bench.Basic

/-!
# Steps on the bench

`Step` lists what can be done on the bench and `Answer` what comes of it. `Bench.take` takes one
step, and `Bench.takeAll` a row of them.
-/
namespace TokenKeeper

namespace Bench

inductive Step
  | now
  | set (now : Instant)
  | advance (delta : Int)
  | save (key : String) (tokens : Tokens) (credentials : Option Credentials) (expiresAt : Instant)
  | load (key : String)
  | size
  | find (key : String)
  | upsert (key : String) (fields : Document) (payload : Option Bytes)
  | delete (key : String)
  | deleteIf (key field : String) (expected : Json)
  | tamper (key : String) (spot : Int)
  | truncate (key : String) (spot : Int)
  | race (key : String) (fields : Document) (payload : Option Bytes)
  | failNext (op : CollectionOp)
  | reopen (name : Option String)
  | file (quiet : Bool)
  | writeFile (text : String)
  | removeDirectory
  | makeDirectory (name : String)
  | rawDocument (key text : String)
  | dropTable
  | blockTable
  | createTable
  | info
  | login (username password : String) (credentials : Credentials)
  | refresh (key : String) (tokens : Tokens) (credentials : Credentials)
  | accessToken (key : String)
  | concurrent (key : String) (count : Nat)
  | resolve (credentials : Option Credentials)
  | decorate (key : Option String) (host : Option String) (headers : Headers)
  | send (key : Option String) (headers : Headers)

inductive Answer
  | done
  | failed (failure : Failure)
  | overflow (now : Instant)
  | time (now : Instant)
  | entry (entry : StoredEntry)
  | size (n : Nat)
  /-- A document; if its blob opens, that is hidden and what it seals stands beside it. -/
  | found (doc : Option Document) (payload : Option Bytes)
  | removed (removed : Bool)
  | openedFile (path : String) (size : Nat)
  | openedTable (name : String)
  | file (guarded : Bool) (names : List String) (text : Option String)
  | noFile (names : List String)
  | info (client : Client)
  | granted (granted : Granted)
  | token (token : String)
  | tokens (results : List (Except Failure String))
  | credentials (credentials : Credentials)
  | headers (failure : Option Failure) (headers : Headers) (callerKey : String)
  | status (status : Nat)
  | impossible

def report {α : Type} (answer : α → Answer) : Except Failure α × Bench → Answer × Bench
  | (.ok a, b) => (answer a, b)
  | (.error e, b) => (.failed e, b)

def tell {α : Type} (b : Bench) (p : Program α) (answer : α → Answer) : Answer × Bench :=
  report answer (b.run p)

def withStore (b : Bench) (use : TokenStore → Answer × Bench) : Answer × Bench :=
  match b.store with
  | some store => use store
  | none => (.impossible, b)

def withClient (b : Bench) (use : Client → Answer × Bench) : Answer × Bench :=
  match b.client with
  | some client => use client
  | none => (.impossible, b)

def setClock (b : Bench) (now : Instant) : Bench :=
  { b with world := { b.world with clock := now } }

def setDatabase (b : Bench) (database : Database) : Bench :=
  { b with world := { b.world with database } }

def setDisk (b : Bench) (disk : Disk) : Bench :=
  { b with world := { b.world with disk } }

def show? (b : Bench) : Option Document → Answer
  | none => .found none none
  | some doc =>
    match b.opened? doc with
    | none => .found (some doc) none
    | some payload => .found (some (Dict.insert doc dataField (.str "<sealed>"))) (some payload)

def directory (b : Bench) : Place :=
  match b.place? with
  | some place => place.dropLast
  | none => Disk.workingPlace

def reopen (b : Bench) (name : Option String) : Answer × Bench :=
  match b.world.collection with
  | .table _ =>
    let name := name.getD "tokens"
    (.openedTable name, { b with world := { b.world with collection := .table name } })
  | .file c =>
    match FileCollection.openAt b.world.disk c.path b.world.fault with
    | .ok (opened, disk) =>
      (.openedFile c.path opened.documents.length,
        { b with world := b.world.withFile (opened, disk) })
    | .error e => (.failed e, b)

def fileState (b : Bench) (quiet : Bool) : Answer :=
  let names := b.world.disk.names b.directory
  match b.place?.bind b.world.disk.at? with
  | some (.file bytes guarded) =>
    .file guarded names (if quiet then none else some (Utf8.decodeLossy bytes))
  | _ => .noFile names

def overwrite (b : Bench) (text : String) : Bench :=
  match b.place? with
  | none => b
  | some place =>
    let guarded := match b.world.disk.at? place with
      | some (.file _ guarded) => guarded
      | _ => false
    b.setDisk (b.world.disk.put place (.file (Utf8.encode text) guarded))

def roundLimit (count : Nat) : Nat := 100 * (count + 1)

def concurrent (b : Bench) (client : Client) (key : String) (count : Nat) : Answer × Bench :=
  let tasks := List.replicate count (Task.start (client.accessToken key))
  let enabled (op : Op) (b : Bench) : Bool := World.enabled op b.world
  let (tasks, b) := Task.rounds perform enabled (roundLimit count) tasks b
  (.tokens (tasks.filterMap Task.result?), b)

def callerKey (client : Client) (key : Option String) : String :=
  key.getD client.defaultCallerKey

def sendHost : String := "127.0.0.1"

def take (b : Bench) : Step → Answer × Bench
  | .now => (.time b.world.clock, b)
  | .set now => (.time now, b.setClock now)
  | .advance delta =>
    match b.world.clock.add? delta with
    | some now => (.time now, b.setClock now)
    | none => (.overflow b.world.clock, b)
  | .save key tokens credentials expiresAt =>
    b.withStore fun store => b.tell (store.save key tokens credentials expiresAt) fun _ => .done
  | .load key => b.withStore fun store => b.tell (store.load key) .entry
  | .size => (.size b.size, b)
  | .find key =>
    match b.run (do Program.ofExcept (← Program.perform (.find key))) with
    | (.ok doc, b) => (b.show? doc, b)
    | (.error e, b) => (.failed e, b)
  | .upsert key fields payload =>
    let (fields, b) := b.sealFields fields payload
    b.tell (do Program.ofExcept (← Program.perform (.upsert key fields))) fun _ => .done
  | .delete key => b.tell (do Program.ofExcept (← Program.perform (.delete key))) fun _ => .done
  | .deleteIf key field expected =>
    b.tell (do Program.ofExcept (← Program.perform (.deleteIf key field expected))) .removed
  | .tamper key spot => b.tell (damage key (Damage.toggle 255 spot)) fun _ => .done
  | .truncate key spot => b.tell (damage key (Damage.keep spot)) fun _ => .done
  | .race key fields payload =>
    let (fields, b) := b.sealFields fields payload
    (.done, { b with racing := some ⟨key, fields⟩ })
  | .failNext op => (.done, { b with failing := op :: b.failing })
  | .reopen name => b.reopen name
  | .file quiet => (b.fileState quiet, b)
  | .writeFile text => (.done, b.overwrite text)
  | .removeDirectory => (.done, b.setDisk (b.world.disk.remove b.directory))
  | .makeDirectory name =>
    (.done, b.setDisk (b.world.disk.makeDirectories (Disk.workingPlace ++ Disk.namedParts name)))
  | .rawDocument key text =>
    match b.world.database, b.world.collection with
    | .ready rows, .table name =>
      (.done, b.setDatabase (.ready (Database.setText rows name key text)))
    | _, _ => (.impossible, b)
  | .dropTable => (.done, b.setDatabase .dropped)
  | .blockTable => (.done, b.setDatabase .blocked)
  | .createTable =>
    match b.world.database.create? with
    | .ok database => (.done, b.setDatabase database)
    | .error e => (.failed e, b)
  | .info => b.withClient fun client => (.info client, b)
  | .login username password credentials =>
    b.withClient fun client => b.tell (client.login username password credentials) .granted
  | .refresh key tokens credentials =>
    b.withClient fun client => b.tell (client.refresh key tokens credentials) .granted
  | .accessToken key => b.withClient fun client => b.tell (client.accessToken key) .token
  | .concurrent key count => b.withClient fun client => b.concurrent client key count
  | .resolve credentials =>
    b.withClient fun client => (.credentials (client.resolve credentials), b)
  | .decorate key host headers =>
    b.withClient fun client =>
      let key := callerKey client key
      match b.run (client.apply key host headers) with
      | (.ok (.ok (), headers), b) => (.headers none headers key, b)
      | (.ok (.error e, headers), b) => (.headers (some e) headers key, b)
      | (.error e, b) => (.failed e, b)
  | .send key headers =>
    b.withClient fun client =>
      b.tell (client.send (callerKey client key) (some sendHost) headers) .status

def takeAll : Bench → List Step → List Answer × Bench
  | b, [] => ([], b)
  | b, step :: rest =>
    let (answer, b) := b.take step
    let (answers, b) := takeAll b rest
    (answer :: answers, b)

end Bench
end TokenKeeper
