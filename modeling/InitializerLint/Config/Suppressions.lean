import InitializerLint.Config.Basic
import InitializerLint.Glob.Basic
import InitializerLint.Log

/-! The types a rule is silenced for. -/
namespace InitializerLint

structure Suppressions where
  globs : List Glob

namespace Suppressions

def empty : Suppressions := ⟨[]⟩

/-- An entry concerns a rule if it names the rule or every rule. -/
def concerns (ids : List String) (ruleId : String) : Bool :=
  ids.any fun id => id = "all" || id = ruleId

def faultMessage (pattern : String) (f : Glob.Fault) : String :=
  "ignoring invalid per_type pattern '" ++ pattern ++ "': error parsing glob '" ++ pattern ++
    "': " ++ f.message

/-- Read each pattern by itself: a faulty one is reported and left out. -/
def collect (ruleId : String) : PerType → Logged (List Glob)
  | [] => .silent []
  | (pattern, ids) :: es =>
    if concerns ids ruleId then
      match Glob.parse pattern with
      | .ok g => (collect ruleId es).map (g :: ·)
      | .error f => .after .warn (faultMessage pattern f) (collect ruleId es)
    else collect ruleId es

/-- Why some pattern cannot be compiled. Patterns behind a required extension are compiled
one by one, and such a one is shown; the others are compiled together, in no order of their
own. -/
def compileFault? (globs : List Glob) : Option String :=
  let faulty := globs.filter fun g => !g.compiles
  match faulty.find? fun g => g.plan matches .patternWithExt _ with
  | some g => some ("error parsing glob '" ++ g.expression ++ "': error parsing pattern 0")
  | none => if faulty.isEmpty then none else some "error parsing pattern 0"

/-- If one pattern cannot be compiled no suppression is in force. -/
def build (entries : PerType) (ruleId : String) : Logged Suppressions :=
  (collect ruleId entries).bind fun globs =>
    match compileFault? globs with
    | none => .silent ⟨globs⟩
    | some reason => .after .warn ("ignoring per_type suppressions: " ++ reason) (.silent empty)

def isEmpty (s : Suppressions) : Bool := s.globs.isEmpty

def isSuppressed (s : Suppressions) (typeName : String) : Bool :=
  s.globs.any (·.matchesName typeName.toList)

end Suppressions
end InitializerLint
