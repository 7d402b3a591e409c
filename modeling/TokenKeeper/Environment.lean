import TokenKeeper.Dict
import TokenKeeper.Text.Utf8

/-!
# Environment variables

A variable has bytes for its value, which need not be a text.
-/
namespace TokenKeeper

abbrev Environment := Dict Bytes

def Environment.text? (env : Environment) (name : String) : Option String :=
  (Dict.get? env name).bind Utf8.decode?

end TokenKeeper
