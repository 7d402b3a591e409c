import TokenKeeper.Bench.Setup
import TokenKeeper.CommandLine.Reader
import TokenKeeper.CommandLine.Run

/-!
# Runs and configured stores on the bench

A configured store is opened on the disk of a bench. Commands are run one after the other on one
disk; nothing else lasts from one run to the next.
-/
namespace TokenKeeper.Bench

def setUpStore (now : Instant) (disk : Disk) (client : Option Client) (s : StoreConfig) :
    Except OpenFailure Bench := do
  let (store, world) ← s.openStore (World.isolated now disk)
  let cipher := s.key.bind fun key => (CipherKey.ofText key.text).toOption
  return assemble world (some store) cipher client

inductive RunResult
  | refused (refusal : Refusal)
  | failed (failure : RunFailure)
  | told (notice : Notice)

def runOnce (env : Environment) (now : Instant) (disk : Disk) (args : List String) :
    RunResult × Disk :=
  match CommandLine.read env args with
  | .error refusal => (.refused refusal, disk)
  | .ok invocation =>
    match invocation.run env (World.isolated now disk) with
    | (.ok notice, world) => (.told notice, world.disk)
    | (.error failure, world) => (.failed failure, world.disk)

def runAll (env : Environment) (now : Instant) : Disk → List (List String) → List RunResult
  | _, [] => []
  | disk, args :: rest =>
    let (result, disk) := runOnce env now disk args
    result :: runAll env now disk rest

end TokenKeeper.Bench
