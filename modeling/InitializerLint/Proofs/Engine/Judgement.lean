import InitializerLint.Proofs.Engine.Merge

/-! What an engine can report on one symbol, said once, and the report of a streamed run. -/
namespace InitializerLint

namespace Engine

/-- A type is analyzed unless the rule is off or the type is generated and these are left out. -/
def analyzes (e : Engine) (t : NamedType) : Bool :=
  e.config.isRuleEnabled staticInitializerRule.id &&
    !(t.isGenerated && !e.config.engine.analyzeGenerated)

/-- An analyzed type that violates the rule under the engine's own threshold. -/
def violates (e : Engine) (t : NamedType) : Bool :=
  e.analyzes t && (TypeView.ofNamedType t).isViolation e.config.staticInitializer.methodThreshold

theorem violates_of_not_analyzes {e : Engine} {t : NamedType} (h : e.analyzes t = false) :
    e.violates t = false := by rw [violates, h, Bool.false_and]

/-- The reports there can be on a symbol, each with all that leads to it. -/
inductive Judges (e : Engine) : Symbol → Report → Prop
  | noType (kind : OtherKind) (name : String) : Judges e (.other kind name) {}
  | skipped {t : NamedType} : e.analyzes t = false → Judges e (.namedType t) { typesSkipped := 1 }
  | clean {t : NamedType} : e.analyzes t = true → e.violates t = false →
      Judges e (.namedType t) { typesAnalyzed := 1 }
  | suppressed {t : NamedType} : e.analyzes t = true → e.violates t = true →
      e.suppressions.isSuppressed t.displayName = true →
      Judges e (.namedType t) { typesAnalyzed := 1, suppressedCount := 1 }
  | reported {t : NamedType} : e.analyzes t = true → e.violates t = true →
      e.suppressions.isSuppressed t.displayName = false →
      Judges e (.namedType t)
        { findings := [(TypeView.ofNamedType t).finding], typesAnalyzed := 1, warningCount := 1 }

/-- The same with the levels of the records that are written on the way. -/
inductive Tells (e : Engine) : Symbol → Report → List Log.Level → Prop
  | noType (kind : OtherKind) (name : String) : Tells e (.other kind name) {} [.debug]
  | switchedOff {t : NamedType} : e.config.isRuleEnabled staticInitializerRule.id = false →
      e.analyzes t = false → Tells e (.namedType t) { typesSkipped := 1 } []
  | generated {t : NamedType} : e.config.isRuleEnabled staticInitializerRule.id = true →
      e.analyzes t = false → Tells e (.namedType t) { typesSkipped := 1 } [.debug]
  | clean {t : NamedType} : e.analyzes t = true → e.violates t = false →
      Tells e (.namedType t) { typesAnalyzed := 1 } [.trace]
  | suppressed {t : NamedType} : e.analyzes t = true → e.violates t = true →
      e.suppressions.isSuppressed t.displayName = true →
      Tells e (.namedType t) { typesAnalyzed := 1, suppressedCount := 1 } [.trace, .debug, .debug]
  | reported {t : NamedType} : e.analyzes t = true → e.violates t = true →
      e.suppressions.isSuppressed t.displayName = false →
      Tells e (.namedType t)
        { findings := [(TypeView.ofNamedType t).finding], typesAnalyzed := 1, warningCount := 1 }
        [.trace, .debug]

theorem Tells.judges {e : Engine} {s : Symbol} {r : Report} {levels : List Log.Level}
    (h : e.Tells s r levels) : e.Judges s r := by
  cases h with
  | noType kind name => exact .noType kind name
  | switchedOff _ ha => exact .skipped ha
  | generated _ ha => exact .skipped ha
  | clean ha hv => exact .clean ha hv
  | suppressed ha hv hs => exact .suppressed ha hv hs
  | reported ha hv hs => exact .reported ha hv hs

theorem tells_analyzeView {e : Engine} {t : NamedType} (ha : e.analyzes t = true) :
    e.Tells (.namedType t) (e.analyzeView (.ofNamedType t)).value
      ((e.analyzeView (.ofNamedType t)).log.map (·.level)) := by
  have hviolates : e.violates t =
      (TypeView.ofNamedType t).isViolation e.config.staticInitializer.methodThreshold := by
    rw [violates, ha, Bool.true_and]
  have hname : (TypeView.ofNamedType t).name = t.displayName := rfl
  unfold analyzeView TypeView.evaluate
  rw [← hviolates]
  by_cases hv : e.violates t = true
  · by_cases hs : e.suppressions.isSuppressed t.displayName = true
    · simpa [hv, verdict, hname, hs] using Tells.suppressed ha hv hs
    · rw [Bool.not_eq_true] at hs
      simpa [hv, verdict, hname, hs] using Tells.reported ha hv hs
  · rw [Bool.not_eq_true] at hv
    simpa [hv, verdict] using Tells.clean ha hv

theorem tells_analyzeSymbol (e : Engine) (s : Symbol) :
    e.Tells s (e.symbolReport s) ((e.symbolLog s).map (·.level)) := by
  unfold symbolReport symbolLog
  cases s with
  | other kind name => exact .noType kind name
  | namedType t =>
    unfold analyzeSymbol
    by_cases he : e.config.isRuleEnabled staticInitializerRule.id = true
    · by_cases hg : (t.isGenerated && !e.config.engine.analyzeGenerated) = true
      · have ha : e.analyzes t = false := by simp [analyzes, hg]
        simpa [he, hg] using Tells.generated he ha
      · have ha : e.analyzes t = true := by simp [analyzes, he, hg]
        simpa [he, hg] using tells_analyzeView ha
    · rw [Bool.not_eq_true] at he
      have ha : e.analyzes t = false := by simp [analyzes, he]
      simpa [he] using Tells.switchedOff he ha

theorem judges_symbolReport (e : Engine) (s : Symbol) : e.Judges s (e.symbolReport s) :=
  (e.tells_analyzeSymbol s).judges

/-- A streamed run merges the counters and hands over the findings, both in the order of the
symbols. -/
theorem value_streamFrom {σ : Type} (e : Engine) (sink : σ → Finding → σ) (total : Report) (out : σ)
    (symbols : List Symbol) :
    (e.streamFrom sink total out symbols).value =
      ((symbols.map fun s => (e.symbolReport s).withoutFindings).foldl Report.merge total,
        (symbols.flatMap fun s => (e.symbolReport s).findings).foldl sink out) := by
  induction symbols generalizing total out with
  | nil => rfl
  | cons s ss ih =>
    have h := ih (total.merge (e.symbolReport s).withoutFindings)
      ((e.symbolReport s).findings.foldl sink out)
    rw [List.map_cons, List.foldl_cons, List.flatMap_cons, List.foldl_append]
    exact h

end Engine

/-- A sink that keeps what it is handed has it in the order it came. -/
theorem foldl_push (out fs : List Finding) :
    fs.foldl (fun out f => out ++ [f]) out = out ++ fs := by
  rw [List.foldl_append_eq_append, ← List.flatMap_def, List.flatMap_singleton']

end InitializerLint
