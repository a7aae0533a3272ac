import InitializerLint.Proofs.Engine.Session

/-! Each counter of an analysis is the number of the types of one sort, which the settings tell
from the type alone. -/
namespace InitializerLint.Engine

open Report (tally)

/-- The types that a counter is about. -/
def counts (e : Engine) : Counter → NamedType → Bool
  | .typesAnalyzed, t => e.analyzes t
  | .typesSkipped, t => !e.analyzes t
  | .suppressed, t => e.violates t && e.suppressions.isSuppressed t.displayName
  | .warnings, t => e.violates t && !e.suppressions.isSuppressed t.displayName

theorem count_symbolReport (e : Engine) (c : Counter) (s : Symbol) :
    ((e.symbolReport s).count c).toNat = s.namedType?.toList.countP (e.counts c) := by
  have h := e.judges_symbolReport s
  generalize e.symbolReport s = r at h
  cases h with
  | noType kind name => cases c <;> rfl
  | skipped ha =>
    have hv := violates_of_not_analyzes ha
    cases c <;> simp [Report.count, Symbol.namedType?, counts, ha, hv]
  | clean ha hv => cases c <;> simp [Report.count, Symbol.namedType?, counts, ha, hv]
  | suppressed ha hv hs => cases c <;> simp [Report.count, Symbol.namedType?, counts, ha, hv, hs]
  | reported ha hv hs => cases c <;> simp [Report.count, Symbol.namedType?, counts, ha, hv, hs]

theorem tally_symbolReports (e : Engine) (c : Counter) (symbols : List Symbol) :
    tally c (symbols.map e.symbolReport) =
      (symbols.filterMap Symbol.namedType?).countP (e.counts c) := by
  induction symbols with
  | nil => rfl
  | cons s ss ih =>
    have hs := e.count_symbolReport c s
    rw [List.map_cons, Report.tally_cons, ih, hs]
    cases ht : s.namedType? with
    | none => rw [List.filterMap_cons_none ht]; exact Nat.zero_add _
    | some t =>
      rw [List.filterMap_cons_some ht, Option.toList_some, ← List.countP_append]
      rfl

/-- Violations are either reported or suppressed. -/
theorem countP_violates (e : Engine) (types : List NamedType) : types.countP e.violates =
    types.countP (e.counts .warnings) + types.countP (e.counts .suppressed) := by
  have hsplit := List.countP_eq_countP_filter_add types e.violates
    fun t => !e.suppressions.isSuppressed t.displayName
  simp only [List.countP_filter, Bool.not_not] at hsplit
  exact hsplit

theorem count_report_eq (e : Engine) (c : Counter) (symbols : List Symbol) :
    (e.report symbols).count c = .ofNat (Report.tally c (symbols.map e.symbolReport)) := by
  rw [report_eq, Report.count_mergeAll]

theorem count_report (e : Engine) (c : Counter) (symbols : List Symbol) :
    (e.report symbols).count c =
      .ofNat ((symbols.filterMap Symbol.namedType?).countP (e.counts c)) := by
  rw [count_report_eq, tally_symbolReports]

/-- A list that fits into memory is shorter than the words are large. -/
theorem toNat_count_report {symbols : List Symbol} (h : symbols.length < UInt64.size) (e : Engine)
    (c : Counter) : ((e.report symbols).count c).toNat =
      (symbols.filterMap Symbol.namedType?).countP (e.counts c) := by
  have htypes : (symbols.filterMap Symbol.namedType?).length ≤ symbols.length :=
    List.length_filterMap_le ..
  have hcount : (symbols.filterMap Symbol.namedType?).countP (e.counts c) ≤
      (symbols.filterMap Symbol.namedType?).length := List.countP_le_length
  rw [count_report, UInt64.toNat_ofNat_of_lt' (by omega)]

end InitializerLint.Engine
