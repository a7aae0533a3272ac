import InitializerLint.Config.Suppressions
import InitializerLint.Duration
import InitializerLint.Engine.Report
import InitializerLint.TypeView

/-! The rule run over the symbols of a table. -/
namespace InitializerLint

structure Engine where
  config : Config
  suppressions : Suppressions

namespace Engine

def new (config : Config) : Logged Engine :=
  (Suppressions.build config.rules.perType staticInitializerRule.id).map (⟨config, ·⟩)

/-- What a violation, or its absence, adds to the report of an analyzed type. -/
def verdict (e : Engine) (name : String) : Option Finding → Logged Report
  | none => .silent { typesAnalyzed := 1 }
  | some f =>
    if e.suppressions.isSuppressed name then
      .after .debug (staticInitializerRule.id ++ " suppressed for " ++ name)
        (.silent { typesAnalyzed := 1, suppressedCount := 1 })
    else .silent { findings := [f], typesAnalyzed := 1, warningCount := 1 }

def analyzeView (e : Engine) (v : TypeView) : Logged Report :=
  .after .trace (v.name ++ ": static initializer = " ++ toString v.hasStaticInitializer ++
      ", static methods = " ++ toString v.staticMethodCount)
    ((v.evaluate e.config.staticInitializer.methodThreshold).bind (e.verdict v.name))

/-- A symbol that has no view cannot be analyzed: that is reported, and counted nowhere. -/
def analyzeViewOf (e : Engine) (s : Symbol) : Logged Report :=
  match TypeView.ofSymbol s with
  | .ok v => e.analyzeView v
  | .error kind =>
    .after .warn ("cannot analyze " ++ s.name ++ ": " ++ kindMismatchMessage kind) (.silent {})

@[simp] theorem analyzeViewOf_namedType (e : Engine) (t : NamedType) :
    e.analyzeViewOf (.namedType t) = e.analyzeView (.ofNamedType t) := rfl

def analyzeSymbol (e : Engine) : Symbol → Logged Report
  | .other kind name =>
    .after .debug ("skipping " ++ kind.text ++ " symbol " ++ name) (.silent {})
  | .namedType t =>
    if !e.config.isRuleEnabled staticInitializerRule.id then
      .silent { typesSkipped := 1 }
    else if t.isGenerated && !e.config.engine.analyzeGenerated then
      .after .debug ("skipping generated type " ++ t.displayName) (.silent { typesSkipped := 1 })
    else e.analyzeViewOf (.namedType t)

def symbolReport (e : Engine) (s : Symbol) : Report := (e.analyzeSymbol s).value

def symbolLog (e : Engine) (s : Symbol) : List Log.Record := (e.analyzeSymbol s).log

/-- The symbols' reports merged from left to right onto `total`. -/
def analyzeFrom (e : Engine) (total : Report) : List Symbol → Logged Report
  | [] => .silent total
  | s :: ss => (e.analyzeSymbol s).bind fun r => e.analyzeFrom (total.merge r) ss

def report (e : Engine) (symbols : List Symbol) : Report := (e.analyzeFrom {} symbols).value

def summary (r : Report) (elapsed : Duration) : String :=
  "analyzed " ++ toString r.typesAnalyzed ++ " types (" ++ toString r.typesSkipped ++
    " skipped), " ++ toString r.findings.length ++ " findings in " ++ elapsed.text

/-- Analyze every symbol, in order, and close the log with a summary that tells how long it took. -/
def analyze (e : Engine) (symbols : List Symbol) (elapsed : Duration) : Logged Report :=
  (e.analyzeFrom {} symbols).bind fun r => .after .info (summary r elapsed) (.silent r)

@[simp] theorem value_analyze (e : Engine) (symbols : List Symbol) (elapsed : Duration) :
    (e.analyze symbols elapsed).value = e.report symbols := rfl

/-- Hand each finding to `sink` as its symbol is done; the report keeps the counters only. -/
def streamFrom {σ : Type} (e : Engine) (sink : σ → Finding → σ) (total : Report) (out : σ) :
    List Symbol → Logged (Report × σ)
  | [] => .silent (total, out)
  | s :: ss => (e.analyzeSymbol s).bind fun r =>
    e.streamFrom sink (total.merge r.withoutFindings) (r.findings.foldl sink out) ss

def stream {σ : Type} (e : Engine) (sink : σ → Finding → σ) (out : σ) (symbols : List Symbol) :
    Logged (Report × σ) :=
  e.streamFrom sink {} out symbols

end Engine
end InitializerLint
