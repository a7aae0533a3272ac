import InitializerLint.Log
import InitializerLint.Rule
import InitializerLint.Symbol.Basic

/-! The attributes of a type that the rule inspects, and the verdict on them. -/
namespace InitializerLint

structure TypeView where
  name : String
  hasStaticInitializer : Bool
  staticMethodCount : Nat
  location : Option Location
deriving DecidableEq

namespace TypeView

/-- An initializer the compiler adds by itself does not count. -/
def ofNamedType (t : NamedType) : TypeView where
  name := t.displayName
  hasStaticInitializer := t.constructors.any fun c => c.isStatic && !c.isImplicitlyDeclared
  staticMethodCount := t.members.countP fun m => m.kind = .method && m.isStatic
  location := t.location?

/-- Only a named type has such a view; another symbol answers with its kind. -/
def ofSymbol : Symbol → Except SymbolKind TypeView
  | .namedType t => .ok (ofNamedType t)
  | .other k _ => .error (.other k)

/-- Exactly `threshold` static methods are tolerated. -/
def isViolation (v : TypeView) (threshold : UInt64) : Bool :=
  v.hasStaticInitializer && threshold.toNat < v.staticMethodCount

def finding (v : TypeView) : Finding where
  ruleId := staticInitializerRule.id
  severity := staticInitializerRule.defaultSeverity
  category := staticInitializerRule.category
  message := staticInitializerRule.formatMessage v.name
  location := v.location

def evaluate (v : TypeView) (threshold : UInt64) : Logged (Option Finding) :=
  if v.isViolation threshold then
    .after .debug (v.name ++ ": " ++ toString v.staticMethodCount ++
        " static methods with a static initializer (threshold " ++ toString threshold ++ ")")
      (.silent (some v.finding))
  else
    .silent none

end TypeView

def kindMismatchMessage (kind : SymbolKind) : String :=
  "expected a named type symbol, got " ++ kind.text

/-- Project a symbol and evaluate the rule on it. -/
def Symbol.check (s : Symbol) (threshold : UInt64) : Except SymbolKind (Logged (Option Finding)) :=
  (TypeView.ofSymbol s).map (·.evaluate threshold)

end InitializerLint
