import TokenKeeper.Config.Failure
import TokenKeeper.Disk
import TokenKeeper.Environment

/-!
# Where secrets come from

A secret is the value of a variable, or else the text of a file. A variable that is not set, blank
or no text gives none, and then the file decides, if one is named: it must be there and hold a text,
and gives none if it is blank.
-/
namespace TokenKeeper.Secret

def ofVariable? (env : Environment) (name : String) : Option Secret :=
  (env.text? name).bind ofText?

def ofFile (disk : Disk) (path : String) : Except ConfigFailure (Option Secret) :=
  match disk.readText? path with
  | some text => .ok (ofText? text)
  | none => .error (.secretFile path)

def resolve (env : Environment) (disk : Disk) (name : String) (file : Option String) :
    Except ConfigFailure (Option Secret) :=
  match ofVariable? env name with
  | some secret => .ok (some secret)
  | none =>
    match file with
    | some path => ofFile disk path
    | none => .ok none

end TokenKeeper.Secret
