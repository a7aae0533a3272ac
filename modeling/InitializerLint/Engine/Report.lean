import InitializerLint.Finding

/-! The outcome of an analysis and how outcomes add up. The time it took is set beside the outcome
of a run and never added up, so it is no part of this. -/
namespace InitializerLint

/-- Counters are machine words and wrap like them. -/
structure Report where
  findings : List Finding := []
  typesAnalyzed : UInt64 := 0
  typesSkipped : UInt64 := 0
  suppressedCount : UInt64 := 0
  warningCount : UInt64 := 0
deriving DecidableEq

namespace Report

def hasWarnings (r : Report) : Bool := 0 < r.warningCount
def isClean (r : Report) : Bool := r.warningCount = 0
def exitCode (r : Report) : Nat := if r.hasWarnings then 1 else 0

def merge (a b : Report) : Report where
  findings := a.findings ++ b.findings
  typesAnalyzed := a.typesAnalyzed + b.typesAnalyzed
  typesSkipped := a.typesSkipped + b.typesSkipped
  suppressedCount := a.suppressedCount + b.suppressedCount
  warningCount := a.warningCount + b.warningCount

/-- Reports merged from left to right. -/
def mergeAll (rs : List Report) : Report := rs.foldl merge {}

/-- The counters alone. -/
def withoutFindings (r : Report) : Report := { r with findings := [] }

end Report
end InitializerLint
