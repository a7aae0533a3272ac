import InitializerLint.Proofs.Engine.Log

/-! Findings handed to a sink one by one are the findings that an analysis collects, and all else
that such a run reports and logs is the same, the summary apart. -/
namespace InitializerLint

theorem Report.mergeAll_withoutFindings (rs : List Report) :
    mergeAll (rs.map withoutFindings) = (mergeAll rs).withoutFindings := by
  induction rs with
  | nil => rfl
  | cons r rs ih =>
    rw [List.map_cons, mergeAll_cons, mergeAll_cons, ih]
    rfl

namespace Engine

variable {σ : Type} (e : Engine) (sink : σ → Finding → σ)

theorem log_streamFrom (total : Report) (out : σ) (symbols : List Symbol) :
    (e.streamFrom sink total out symbols).log = symbols.flatMap e.symbolLog := by
  induction symbols generalizing total out with
  | nil => rfl
  | cons s ss ih =>
    have h := ih (total.merge (e.symbolReport s).withoutFindings)
      ((e.symbolReport s).findings.foldl sink out)
    rw [List.flatMap_cons, ← h]
    rfl

theorem value_stream (out : σ) (symbols : List Symbol) :
    (e.stream sink out symbols).value =
      ((e.report symbols).withoutFindings, (e.report symbols).findings.foldl sink out) := by
  have hcounters := Report.mergeAll_withoutFindings (symbols.map e.symbolReport)
  rw [List.map_map] at hcounters
  rw [findings_report_eq, report_eq, ← hcounters]
  exact e.value_streamFrom sink {} out symbols

theorem log_stream (out : σ) (symbols : List Symbol) (elapsed : Duration) :
    (e.analyze symbols elapsed).log =
      (e.stream sink out symbols).log ++ [⟨.info, summary (e.report symbols) elapsed⟩] := by
  rw [stream, log_streamFrom, log_analyze]

end Engine

/-- Whatever the sink does with them, it is handed the findings of the analysis in their order,
each once; the report has the same counters and the log the same records before the summary. -/
theorem streaming_agrees_with_collecting (e : Engine) (symbols : List Symbol)
    (work : Schedule symbols.length) : ∃ r, e.run? symbols work = some r ∧
      (e.stream (fun out f => out ++ [f]) [] symbols).value.2 = r.findings ∧
      ∀ (σ : Type) (sink : σ → Finding → σ) (out : σ),
        (e.stream sink out symbols).value = ({ r with findings := [] }, r.findings.foldl sink out) ∧
        (e.stream sink out symbols).value.1.hasWarnings = r.hasWarnings ∧
        (e.stream sink out symbols).value.1.isClean = r.isClean ∧
        (e.stream sink out symbols).value.1.exitCode = r.exitCode ∧
        ∀ elapsed : Duration, (e.analyze symbols elapsed).log =
          (e.stream sink out symbols).log ++ [⟨.info, Engine.summary r elapsed⟩] := by
  refine ⟨e.report symbols, e.run?_eq symbols work, ?_, fun σ sink out => ?_⟩
  · rw [Engine.value_stream, foldl_push, List.nil_append]
  · have hvalue := e.value_stream sink out symbols
    refine ⟨hvalue, ?_, ?_, ?_, e.log_stream sink out symbols⟩
    · rw [hvalue]; rfl
    · rw [hvalue]; rfl
    · rw [hvalue]; rfl

end InitializerLint
