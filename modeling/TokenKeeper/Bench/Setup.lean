import TokenKeeper.Bench.Step

/-!
# Setting up the bench

A bench is set up with the time, the files of its disk, a store of some kind, and perhaps a client
that uses the store. Nothing on the bench reaches a network.
-/
namespace TokenKeeper.Bench

inductive CollectionSetup
  | file (path : String)
  | table (name : String)

inductive StoreSetup
  | none
  | memory
  | lasting
  | readOnly
  | documents (collection : CollectionSetup)
  | sealedDocuments (key : CipherKey) (collection : CollectionSetup)

def assemble (world : World) (store : Option TokenStore) (cipher : Option CipherKey)
    (client : Option Client) : Bench :=
  { world, store, cipher, client := client.map fun c => { c with store }, failing := [],
    racing := .none }

def openCollection (world : World) : CollectionSetup → Except Failure World
  | .table name => .ok { world with collection := .table name }
  | .file path => do
    return world.withFile (← FileCollection.openAt world.disk path world.fault)

def setUp (now : Instant) (disk : Disk) (client : Option Client) : StoreSetup → Except Failure Bench
  | .none => .ok (assemble (World.isolated now disk) .none .none client)
  | .memory => .ok (assemble (World.isolated now disk) (some .memory) .none client)
  | .lasting => .ok (assemble (World.isolated now disk) (some .lasting) .none client)
  | .readOnly => .ok (assemble (World.isolated now disk) (some .readOnly) .none client)
  | .documents c => do
    return assemble (← openCollection (World.isolated now disk) c) (some .documents) .none client
  | .sealedDocuments key c => do
    let w ← openCollection (World.isolated now disk) c
    return assemble w (some (.sealedDocuments key)) (some key) client

def tallies (b : Bench) : List (Counter × Nat) :=
  let counters := b.world.counted.foldl
    (fun seen c => if seen.contains c then seen else c :: seen) []
  counters.map fun c => (c, b.world.counted.count c)

end TokenKeeper.Bench
