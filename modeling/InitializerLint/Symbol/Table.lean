import InitializerLint.Json.Reader
import InitializerLint.Symbol.Read
import InitializerLint.Yaml.Reader

/-! Symbol tables read from text. -/
namespace InitializerLint

inductive SymbolTable.ParseError where
  | json (e : Json.Error)
  | yaml (e : Yaml.Failure)

def SymbolTable.ParseError.message : SymbolTable.ParseError → String
  | .json e => "JSON parse error: " ++ e.message
  | .yaml e => "YAML parse error: " ++ e.message

namespace SymbolTable

def ofJson (text : String) : Except ParseError SymbolTable :=
  (Json.read SymbolTable.read text).mapError .json

def ofYaml (text : String) : Except ParseError SymbolTable :=
  (Yaml.read SymbolTable.read text).mapError .yaml

end SymbolTable
end InitializerLint
