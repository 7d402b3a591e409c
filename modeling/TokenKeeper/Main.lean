import Std.Time.DateTime.Timestamp
import TokenKeeper.CommandLine.Reader
import TokenKeeper.CommandLine.Run

/-!
# The program

The files that an invocation needs are looked at before the run, and the collection file is written
back after it if it has changed. The program has no secure connections, so that no endpoint is
within its reach, and a database lives only as long as the run.
-/
namespace TokenKeeper.Main

def usage : String :=
  "usage: [--config FILE] login CALLER_KEY USERNAME --password PASSWORD\n" ++
  "       [--config FILE] status CALLER_KEY\n" ++
  "       [--config FILE] header CALLER_KEY"

def version : String := "1.0.0"

def readEnvironment : IO Environment := do
  let names :=
    [configPathVariable, passwordVariable, Config.clientSecretVariable, Config.keyVariable]
  let values ← names.filterMapM fun name => do
    return (← IO.getEnv name).map fun value => (name, Utf8.encode value)
  return Dict.ofList values

def look (disk : Disk) (path : String) : IO Disk := do
  let here ← IO.currentDir
  let place := Disk.namedPlace path
  let disk ← match Disk.parent? path with
    | some above =>
      if ← (here / above).isDir then pure (disk.makeDirectories place.dropLast) else pure disk
    | none => pure disk
  if ← (here / path).isDir then return disk.makeDirectories place
  if ← (here / path).pathExists then
    let bytes ← IO.FS.readBinFile (here / path)
    return disk.put place (.file bytes.toList false)
  return disk

def readDisk (i : Invocation) : IO Disk := do
  let disk ← look .empty i.config
  match Config.read disk i.config with
  | .ok c => c.paths.foldlM look disk
  | .error _ => return disk

def writeBack (before after : Disk) (path : String) : IO Unit := do
  match before.read? path, after.read? path with
  | old, some new =>
    if old != some new then
      let temporary := path ++ ".new"
      IO.FS.writeBinFile temporary ⟨new.toArray⟩
      IO.setAccessRights temporary ⟨⟨true, true, false⟩, {}, {}⟩
      IO.FS.rename temporary path
  | _, none => pure ()

def now : IO Instant := do
  let nanos := (← Std.Time.Timestamp.now).toNanosecondsSinceUnixEpoch.val
  return (Instant.ofTotal? nanos).getD .epoch

def readWorld (disk : Disk) : IO World := do
  let seed := Text.ofDigits 256 ((← IO.getRandomBytes 12).toList.map (·.toNat))
  return { World.isolated (← now) disk with nonces := fun n => .ofNat (seed + n) }

def refuse (refusal : Refusal) : IO UInt32 := do
  match refusal with
  | .help => IO.println usage; return 0
  | .version => IO.println version; return 0
  | _ => IO.eprintln usage; return 2

def runInvocation (env : Environment) (i : Invocation) : IO UInt32 := do
  let disk ← readDisk i
  let (result, world) := i.run env (← readWorld disk)
  match Config.read disk i.config with
  | .ok c => c.store.path.toList.forM (writeBack disk world.disk)
  | .error _ => pure ()
  match result with
  | .ok notice => IO.println notice.text; return 0
  | .error failure => IO.eprintln s!"Error: {failure.message}"; return 1

end TokenKeeper.Main

def main (args : List String) : IO UInt32 := do
  let env ← TokenKeeper.Main.readEnvironment
  match TokenKeeper.CommandLine.read env args with
  | .error refusal => TokenKeeper.Main.refuse refusal
  | .ok i => TokenKeeper.Main.runInvocation env i
