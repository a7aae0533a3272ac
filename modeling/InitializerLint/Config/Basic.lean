/-! The settings of a run and their defaults. -/
namespace InitializerLint

structure RuleOptions where
  methodThreshold : UInt64 := 50
deriving DecidableEq

structure EngineOptions where
  parallel : Bool := true
  jobs : UInt64 := 0
  analyzeGenerated : Bool := true
deriving DecidableEq

/-- Glob patterns over type names, each with the rules it silences. -/
abbrev PerType := List (String × List String)

/-- A pattern given again replaces what it was given before. -/
def PerType.insert (entries : PerType) (pattern : String) (ids : List String) : PerType :=
  match entries with
  | [] => [(pattern, ids)]
  | e :: es => if e.1 = pattern then (pattern, ids) :: es else e :: PerType.insert es pattern ids

def PerType.ofEntries (entries : List (String × List String)) : PerType :=
  entries.foldl (fun m e => m.insert e.1 e.2) []

structure RuleSelection where
  disabled : List String := []
  perType : PerType := []
deriving DecidableEq

structure Config where
  engine : EngineOptions := {}
  rules : RuleSelection := {}
  staticInitializer : RuleOptions := {}
deriving DecidableEq

def Config.isRuleEnabled (c : Config) (id : String) : Bool := !c.rules.disabled.contains id

end InitializerLint
