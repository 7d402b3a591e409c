import TokenKeeper.CommandLine.Basic
import TokenKeeper.Environment

/-!
# Reading the arguments

Options may stand before the command and among its operands. After two hyphens every argument is an
operand. `--config` is known before and after the command, and the one after it counts; `--password`
belongs to `login`. The value of an option follows an equals sign or is the next argument, which
then must not look like an option. An option with its value is settled when the next one comes or at
the end; that is when it is found to be repeated, or its value to be missing. What a command lacks
is taken from the environment.
-/
namespace TokenKeeper.CommandLine

inductive Flag
  | config | password
  deriving DecidableEq, Repr

structure Level where
  config : Option String
  password : Option String
  operands : List String
  pending : Option (Flag × Option String)
  literal : Bool

namespace Level

def empty : Level := ⟨none, none, [], none, false⟩

def get? (level : Level) : Flag → Option String
  | .config => level.config
  | .password => level.password

def set (level : Level) (flag : Flag) (value : String) : Except Refusal Level :=
  if (level.get? flag).isSome then .error .repeatedOption
  else
    match flag with
    | .config =>
      if value = "" then .error .badValue else .ok { level with config := some value }
    | .password => .ok { level with password := some value }

def settle (level : Level) : Except Refusal Level :=
  match level.pending with
  | none => .ok level
  | some (_, none) => .error .badValue
  | some (flag, some value) => { level with pending := none }.set flag value

def isWaiting (level : Level) : Bool :=
  match level.pending with
  | some (_, none) => !level.literal
  | _ => false

def flag? (verb : Option Verb) (name : String) : Option Flag :=
  if name = "config" then some .config
  else if name = "password" ∧ verb = some .login then some .password
  else none

def splitValue (cs : List Char) : String × Option String :=
  let name := String.ofList (cs.takeWhile (· != '='))
  match cs.dropWhile (· != '=') with
  | [] => (name, none)
  | _ :: value => (name, some (String.ofList value))

def request? (verb : Option Verb) (name : String) : Option Refusal :=
  if name = "help" then some .help
  else if name = "version" ∧ verb = none then some .version
  else none

def refuse (level : Level) (refusal : Refusal) : Except Refusal Level := do
  let _ ← level.settle
  throw refusal

def takeLong (verb : Option Verb) (cs : List Char) (level : Level) : Except Refusal Level :=
  let (name, value) := splitValue cs
  match request? verb name, value with
  | some refusal, none => level.refuse refusal
  | some _, some _ => .error .unwantedValue
  | none, value =>
    match flag? verb name with
    | none => .error .unknownArgument
    | some flag => do
      let level ← level.settle
      match value with
      | some value => level.set flag value
      | none => return { level with pending := some (flag, none) }

def takeShort (verb : Option Verb) (c : Char) (level : Level) : Except Refusal Level :=
  if c = 'h' then level.refuse .help
  else if c = 'V' ∧ verb = none then level.refuse .version
  else .error .unknownArgument

def takeOperand (verb : Option Verb) (arg : String) (level : Level) : Except Refusal Level :=
  match verb with
  | none =>
    if level.literal ∧ (arg = "help" ∨ (Verb.ofName? arg).isSome) then .error .unknownArgument
    else .error .unknownCommand
  | some v =>
    if level.operands.length < v.operandCount then do
      let level ← level.settle
      return { level with operands := level.operands ++ [arg] }
    else .error .unknownArgument

def take (verb : Option Verb) (level : Level) (arg : String) : Except Refusal Level :=
  if level.literal then level.takeOperand verb arg
  else
    match arg.toList with
    | ['-', '-'] => .ok { level with literal := true }
    | '-' :: '-' :: cs => level.takeLong verb cs
    | '-' :: c :: _ => level.takeShort verb c
    | _ =>
      match level.pending with
      | some (flag, none) => .ok { level with pending := some (flag, some arg) }
      | _ => level.takeOperand verb arg

def withPassword (level : Level) (env : Environment) : Except Refusal Level :=
  match level.password, Dict.get? env passwordVariable with
  | none, some bytes =>
    match Utf8.decode? bytes with
    | some value => level.set .password value
    | none => .error .notText
  | _, _ => .ok level

def withConfig (level : Level) (env : Environment) : Except Refusal Level :=
  match level.config, Dict.get? env configPathVariable with
  | none, some bytes => level.set .config (Utf8.decodeLossy bytes)
  | _, _ => .ok level

end Level

def command? (verb : Verb) (level : Level) : Option Command :=
  match verb, level.operands, level.password with
  | .login, [key, username], some password => some (.login key username password)
  | .status, [key], _ => some (.status key)
  | .header, [key], _ => some (.header key)
  | _, _, _ => none

def readAfter (env : Environment) (verb : Verb) (args : List String) :
    Except Refusal (Option String × Command) := do
  let level ← (← args.foldlM (Level.take (some verb)) .empty).settle
  let filled ← (← if verb = .login then level.withPassword env else .ok level).withConfig env
  match command? verb filled with
  | some command => return (level.config, command)
  | none => throw .missingArgument

/-- What `help` answers for the topics after it: a command is a topic, and so is help itself. -/
def helpOn : List String → Refusal
  | [] => .help
  | [topic] => if topic = "help" ∨ (Verb.ofName? topic).isSome then .help else .unknownCommand
  | _ => .unknownCommand

def finish (env : Environment) (before : Level) (path : Option String) (command : Command) :
    Except Refusal Invocation := do
  let before ← (← before.settle).withConfig env
  return ⟨(path.orElse fun _ => before.config).getD defaultConfigPath, command⟩

def readFrom (env : Environment) (before : Level) : List String → Except Refusal Invocation
  | [] => do
    let before ← (← before.settle).withConfig env
    throw (if before.config.isNone then .nothingGiven else .noCommand)
  | arg :: rest =>
    if before.literal || before.isWaiting then do readFrom env (← before.take none arg) rest
    else if arg = "help" then .error (helpOn rest)
    else
      match Verb.ofName? arg with
      | some verb => do
        let (path, command) ← readAfter env verb rest
        finish env before path command
      | none => do readFrom env (← before.take none arg) rest

def read (env : Environment) (args : List String) : Except Refusal Invocation :=
  readFrom env .empty args

end TokenKeeper.CommandLine
