/-!
# Commands

There are three commands: `login` asks for a pair with a password and stores it, `status` tells
about the stored pair, and `header` gives a header with a live access token. Each is for one caller
key. An invocation is a command together with the path of the configuration file.
-/
namespace TokenKeeper

inductive Verb
  | login | status | header
  deriving DecidableEq, Repr

inductive Command
  | login (callerKey username password : String)
  | status (callerKey : String)
  | header (callerKey : String)
  deriving DecidableEq, Repr

structure Invocation where
  config : String
  command : Command
  deriving DecidableEq, Repr

inductive Refusal
  | help
  | version
  | nothingGiven
  | noCommand
  | unknownCommand
  | unknownArgument
  | missingArgument
  | repeatedOption
  | badValue
  | unwantedValue
  | notText
  deriving DecidableEq, Repr

namespace Verb

def name : Verb → String
  | .login => "login"
  | .status => "status"
  | .header => "header"

def all : List Verb := [.login, .status, .header]

def ofName? (s : String) : Option Verb := all.find? fun v => v.name == s

def operandCount : Verb → Nat
  | .login => 2
  | .status | .header => 1

end Verb

def defaultConfigPath : String := "mangadex-token.toml"

def configPathVariable : String := "CONFIG_PATH"

def passwordVariable : String := "MANGADEX_PASSWORD"

end TokenKeeper
