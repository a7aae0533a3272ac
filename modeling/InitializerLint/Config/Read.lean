import InitializerLint.Config.Basic
import InitializerLint.Data.Schema

/-! Settings read from data: each field given replaces its default. -/
namespace InitializerLint

open Data (Schema Source)

variable {m : Type → Type} [Source m]

def RuleOptions.schema : Schema m RuleOptions where
  name := "RuleConfig"
  blank := {}
  fields := [⟨"method_threshold", false, fun _ => return { methodThreshold := ← Source.word }⟩]

def EngineOptions.schema : Schema m EngineOptions where
  name := "EngineConfig"
  blank := {}
  fields := [
    ⟨"parallel", false, fun o => return { o with parallel := ← Source.flag }⟩,
    ⟨"jobs", false, fun o => return { o with jobs := ← Source.word }⟩,
    ⟨"analyze_generated", false, fun o => return { o with analyzeGenerated := ← Source.flag }⟩]

def readTexts : m (List String) := Source.list (Source.text "a string")

def RuleSelection.schema : Schema m RuleSelection where
  name := "RulesConfig"
  blank := {}
  fields := [
    ⟨"disabled", false, fun o => return { o with disabled := ← readTexts }⟩,
    ⟨"per_type", false, fun o =>
      return { o with perType := PerType.ofEntries (← Source.entries readTexts) }⟩]

def Config.schema : Schema m Config where
  name := "Config"
  blank := {}
  fields := [
    ⟨"engine", false, fun c => return { c with engine := ← Source.record EngineOptions.schema }⟩,
    ⟨"rules", false, fun c => return { c with rules := ← Source.record RuleSelection.schema }⟩,
    ⟨"static_initializer", false, fun c =>
      return { c with staticInitializer := ← Source.record RuleOptions.schema }⟩]

def Config.read : m Config := Source.record Config.schema

end InitializerLint
