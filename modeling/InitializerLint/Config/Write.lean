import InitializerLint.Config.Basic
import InitializerLint.Json.Document

/-! Settings as JSON documents, every field written. -/
namespace InitializerLint

open Json (Document)

def EngineOptions.toDocument (o : EngineOptions) : Document :=
  .object [("parallel", .bool o.parallel), ("jobs", .number o.jobs.toNat),
    ("analyze_generated", .bool o.analyzeGenerated)]

def textsDocument (texts : List String) : Document := .list (texts.map .text)

def RuleSelection.toDocument (o : RuleSelection) : Document :=
  .object [("disabled", textsDocument o.disabled),
    ("per_type", .object (o.perType.map fun e => (e.1, textsDocument e.2)))]

def RuleOptions.toDocument (o : RuleOptions) : Document :=
  .object [("method_threshold", .number o.methodThreshold.toNat)]

def Config.toDocument (c : Config) : Document :=
  .object [("engine", c.engine.toDocument), ("rules", c.rules.toDocument),
    ("static_initializer", c.staticInitializer.toDocument)]

end InitializerLint
