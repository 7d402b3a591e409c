import TokenKeeper.Config.Failure
import TokenKeeper.Store.Sealed
import TokenKeeper.World

/-!
# Opening the configured store

A store in memory needs nothing. One in a file or a database needs a path, and an encrypted one a
key as well; neither is asked for where it is of no use. Opening makes the collection the one in
use.
-/
namespace TokenKeeper

inductive OpenFailure
  | noPath (backend : Backend)
  | file (path : String) (failure : Failure)
  | database (path : String)
  | table (failure : Failure)
  | noKey
  | badKey (failure : Failure)
  deriving DecidableEq

namespace OpenFailure

def message : OpenFailure → String
  | .noPath backend => s!"store.path is required for the {backend.name} back end"
  | .file path _ => s!"opening token file {path}"
  | .database path => s!"opening token database {path}"
  | .table failure => failure.message
  | .noKey => "encrypted store configured without a key"
  | .badKey failure => failure.message

end OpenFailure

namespace StoreConfig

def requirePath (s : StoreConfig) : Except OpenFailure String :=
  match s.path with
  | some path => .ok path
  | none => .error (.noPath s.backend)

def openFile (path : String) (w : World) : Except OpenFailure World :=
  match FileCollection.openAt w.disk path w.fault with
  | .ok opened => .ok (w.withFile opened)
  | .error e => .error (.file path e)

def openDatabase (path collection : String) (w : World) : Except OpenFailure World :=
  match w.disk.database? path with
  | none => .error (.database path)
  | some db =>
    match db.create? with
    | .ok db =>
      .ok { w with database := db, collection := .table collection,
                   disk := w.disk.saveDatabase path db }
    | .error e => .error (.table e)

def documentStore (s : StoreConfig) : Except OpenFailure TokenStore :=
  if !s.encrypted then .ok .documents
  else
    match s.key with
    | none => .error .noKey
    | some key =>
      match CipherKey.ofText key.text with
      | .ok key => .ok (.sealedDocuments key)
      | .error e => .error (.badKey e)

def openStore (s : StoreConfig) (w : World) : Except OpenFailure (TokenStore × World) := do
  match s.backend with
  | .memory => return (.memory, w)
  | .file =>
    let w ← openFile (← s.requirePath) w
    return (← s.documentStore, w)
  | .sqlite =>
    let w ← openDatabase (← s.requirePath) s.collection w
    return (← s.documentStore, w)

def close (s : StoreConfig) (w : World) : World :=
  match s.backend, s.path with
  | .sqlite, some path => { w with disk := w.disk.saveDatabase path w.database }
  | _, _ => w

end StoreConfig
end TokenKeeper
