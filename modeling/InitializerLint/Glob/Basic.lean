import InitializerLint.Glob.Expression
import InitializerLint.Glob.Plan
import InitializerLint.Text.Utf8

/-! Globs over type names. -/
namespace InitializerLint

structure Glob where
  tokens : List Glob.Token
  plan : Glob.Plan
  pattern : List Glob.Pattern

namespace Glob

def parse (text : String) : Except Fault Glob :=
  (Token.parse text.toList).map fun ts => ⟨ts, Plan.ofTokens ts, Pattern.ofGlob ts⟩

def matchesName (g : Glob) (name : List Char) : Bool :=
  match g.plan with
  | .base t => baseName name == t
  | .whole t => name == t
  | .ext t => extension (baseName name) == t
  | .begins t => t.isPrefixOf name
  | .ends t component => (component && name == t.drop 1) || t.isSuffixOf name
  | .patternWithExt t => extension (baseName name) == t && Pattern.matchesBytes g.pattern (Text.bytes name)
  | .pattern => Pattern.matchesBytes g.pattern (Text.bytes name)

def expression (g : Glob) : String := Token.globExpression g.tokens

/-- A glob whose byte pattern is nested too deeply cannot be compiled. -/
def compiles (g : Glob) : Bool := !(g.plan.usesPattern && Pattern.tooDeep g.pattern)

end Glob
end InitializerLint
