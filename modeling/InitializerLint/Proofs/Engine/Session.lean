import InitializerLint.Proofs.Engine.Judgement
import InitializerLint.Proofs.Engine.Sharding
import Mathlib.Data.List.Basic

/-! Sessions: runs of every kind whose reports are merged, in some order, into one total. The
counters of the total account for the types of all runs and for the findings made. -/
namespace InitializerLint

inductive Counter where
  | typesAnalyzed | typesSkipped | suppressed | warnings

namespace Report

def count (r : Report) : Counter → UInt64
  | .typesAnalyzed => r.typesAnalyzed
  | .typesSkipped => r.typesSkipped
  | .suppressed => r.suppressedCount
  | .warnings => r.warningCount

/-- A counter summed over reports as a number, however large. -/
def tally (c : Counter) : List Report → Nat
  | [] => 0
  | r :: rs => (r.count c).toNat + tally c rs

/-- No addition wraps while the reports are merged from left to right. -/
def MergesExactly (rs : List Report) : Prop :=
  ∀ before r after, rs = before ++ r :: after →
    ∀ c, ((mergeAll before).count c).toNat + (r.count c).toNat < UInt64.size

@[simp] theorem count_merge (a b : Report) (c : Counter) :
    (a.merge b).count c = a.count c + b.count c := by cases c <;> rfl

@[simp] theorem count_withoutFindings (r : Report) (c : Counter) :
    r.withoutFindings.count c = r.count c := by cases c <;> rfl

@[simp] theorem tally_nil (c : Counter) : tally c [] = 0 := rfl

@[simp] theorem tally_cons (c : Counter) (r : Report) (rs : List Report) :
    tally c (r :: rs) = (r.count c).toNat + tally c rs := rfl

@[simp] theorem tally_append (c : Counter) (as bs : List Report) :
    tally c (as ++ bs) = tally c as + tally c bs := by
  induction as with
  | nil => rw [List.nil_append, tally_nil, Nat.zero_add]
  | cons a as ih => rw [List.cons_append, tally_cons, ih, tally_cons, Nat.add_assoc]

theorem tally_perm {as bs : List Report} (h : as.Perm bs) (c : Counter) : tally c as = tally c bs := by
  induction h with
  | nil => rfl
  | cons r _ ih => rw [tally_cons, tally_cons, ih]
  | swap r r' rs => rw [tally_cons, tally_cons, tally_cons, tally_cons, Nat.add_left_comm]
  | trans _ _ ih ih' => exact ih.trans ih'

theorem tally_withoutFindings (c : Counter) (rs : List Report) :
    tally c (rs.map withoutFindings) = tally c rs := by
  induction rs with
  | nil => rfl
  | cons r rs ih => rw [List.map_cons, tally_cons, tally_cons, count_withoutFindings, ih]

/-- The words of a merged report are the sums, up to multiples of the word size. -/
theorem count_mergeAll (c : Counter) (rs : List Report) :
    (mergeAll rs).count c = .ofNat (tally c rs) := by
  induction rs with
  | nil => cases c <;> rfl
  | cons r rs ih => rw [mergeAll_cons, count_merge, ih, tally_cons, UInt64.ofNat_add, UInt64.ofNat_toNat]

theorem toNat_count_mergeAll {c : Counter} {rs : List Report} (h : tally c rs < UInt64.size) :
    ((mergeAll rs).count c).toNat = tally c rs := by
  rw [count_mergeAll, UInt64.toNat_ofNat_of_lt' h]

theorem mergesExactly_of_tally_lt {rs : List Report} (h : ∀ c, tally c rs < UInt64.size) :
    MergesExactly rs := by
  intro before r after hrs c
  have hc := h c
  rw [hrs, tally_append, tally_cons] at hc
  rw [toNat_count_mergeAll (by omega)]
  omega

theorem mergeAll_flatMap {α : Type} (f : α → List Report) (as : List α) :
    mergeAll (as.flatMap f) = mergeAll (as.map fun a => mergeAll (f a)) := by
  induction as with
  | nil => rfl
  | cons a as ih => rw [List.flatMap_cons, mergeAll_append, List.map_cons, mergeAll_cons, ih]

end Report

/-- A run and how it is made: findings collected, handed to a sink, or a single symbol. -/
inductive Run where
  | collecting (engine : Engine) (symbols : List Symbol) (work : Schedule symbols.length)
  | streaming (engine : Engine) (symbols : List Symbol)
  | single (engine : Engine) (symbol : Symbol)

/-- What a run returns, and what it handed to its sink. -/
structure Outcome where
  report : Report
  handed : List Finding

namespace Run

def engine : Run → Engine
  | .collecting e _ _ => e
  | .streaming e _ => e
  | .single e _ => e

def symbols : Run → List Symbol
  | .collecting _ symbols _ => symbols
  | .streaming _ symbols => symbols
  | .single _ s => [s]

def outcome? : Run → Option Outcome
  | .collecting e symbols work => (e.run? symbols work).map (⟨·, []⟩)
  | .streaming e symbols =>
    let (report, handed) := (e.stream (fun out f => out ++ [f]) [] symbols).value
    some ⟨report, handed⟩
  | .single e s => some ⟨e.symbolReport s, []⟩

def types (r : Run) : List NamedType := (SymbolTable.mk r.symbols).namedTypes

/-- The types of the run that were analyzed and violate the rule. -/
def violations (r : Run) : List NamedType := r.types.filter r.engine.violates

/-- The reports that are merged while the run is made. -/
def parts : Run → List Report
  | .collecting e symbols _ => symbols.map e.symbolReport
  | .streaming e symbols => symbols.map fun s => (e.symbolReport s).withoutFindings
  | .single e s => [e.symbolReport s]

def findings (r : Run) : List Finding := r.symbols.flatMap fun s => (r.engine.symbolReport s).findings

end Run

section run

open Report (mergeAll tally)

/-- A run gives the merge of its parts, and each of its findings is returned or handed over. -/
theorem Run.outcome?_eq (r : Run) : ∃ o, r.outcome? = some o ∧ o.report = mergeAll r.parts ∧
    o.report.findings ++ o.handed = r.findings := by
  cases r with
  | collecting e symbols work =>
    refine ⟨⟨mergeAll (symbols.map e.symbolReport), []⟩, ?_, rfl, ?_⟩
    · rw [outcome?, e.run?_eq symbols work, e.report_eq]
      rfl
    · rw [List.append_nil, Report.findings_mergeAll, List.flatMap_map]
      rfl
  | streaming e symbols =>
    have h := e.value_streamFrom (fun out f => out ++ [f]) {} [] symbols
    rw [foldl_push, List.nil_append] at h
    refine ⟨⟨mergeAll (streaming e symbols).parts, (streaming e symbols).findings⟩, ?_, rfl, ?_⟩
    · rw [outcome?, Engine.stream, h]
      rfl
    · have hnone : (mergeAll (streaming e symbols).parts).findings = [] := by
        rw [Report.findings_mergeAll, parts, List.flatMap_map]
        simp [Report.withoutFindings]
      rw [hnone, List.nil_append]
  | single e s =>
    refine ⟨⟨e.symbolReport s, []⟩, rfl, (Report.empty_merge _).symm, ?_⟩
    simp [findings, symbols, engine]

theorem Run.tally_parts (c : Counter) (r : Run) :
    tally c r.parts = tally c (r.symbols.map r.engine.symbolReport) := by
  cases r with
  | streaming e xs =>
    have h := Report.tally_withoutFindings c (xs.map e.symbolReport)
    rwa [List.map_map] at h
  | _ => rfl

/-- How the counters of a list of reports go with the types behind the reports, the violations
among these types and the findings. -/
structure Accounted (rs : List Report) (types violations : List NamedType)
    (findings : List Finding) : Prop where
  types : tally .typesAnalyzed rs + tally .typesSkipped rs = types.length
  warnings : tally .warnings rs = findings.length
  violations : tally .warnings rs + tally .suppressed rs = violations.length
  bounded : tally .warnings rs + tally .suppressed rs ≤ tally .typesAnalyzed rs

theorem Accounted.nil : Accounted [] [] [] [] := ⟨rfl, rfl, rfl, Nat.le_refl 0⟩

theorem Accounted.append {rs rs' : List Report} {ts ts' vs vs' : List NamedType}
    {fs fs' : List Finding} (h : Accounted rs ts vs fs) (h' : Accounted rs' ts' vs' fs') :
    Accounted (rs ++ rs') (ts ++ ts') (vs ++ vs') (fs ++ fs') := by
  obtain ⟨h1, h2, h3, h4⟩ := h
  obtain ⟨h1', h2', h3', h4'⟩ := h'
  constructor <;> simp only [Report.tally_append, List.length_append] <;> omega

/-- One symbol: at most one type, and each of its counters is zero or one. -/
theorem accounted_symbolReport (e : Engine) (s : Symbol) :
    Accounted [e.symbolReport s] s.namedType?.toList (s.namedType?.toList.filter e.violates)
      (e.symbolReport s).findings := by
  have h := e.judges_symbolReport s
  generalize e.symbolReport s = r at h
  cases h with
  | noType => exact ⟨rfl, rfl, rfl, Nat.le_refl 0⟩
  | @skipped t ha =>
    have hv := Engine.violates_of_not_analyzes ha
    constructor <;> simp [Symbol.namedType?, Report.count, hv]
  | clean _ hv => constructor <;> simp [Symbol.namedType?, Report.count, hv]
  | suppressed _ hv => constructor <;> simp [Symbol.namedType?, Report.count, hv]
  | reported _ hv => constructor <;> simp [Symbol.namedType?, Report.count, hv]

theorem accounted_run (r : Run) :
    Accounted (r.symbols.map r.engine.symbolReport) r.types r.violations r.findings := by
  unfold Run.violations Run.types SymbolTable.namedTypes Run.findings
  generalize r.engine = e
  induction r.symbols with
  | nil => exact .nil
  | cons s ss ih =>
    have h := (accounted_symbolReport e s).append ih
    have ht : (s :: ss).filterMap Symbol.namedType? =
        s.namedType?.toList ++ ss.filterMap Symbol.namedType? := by
      cases hs : s.namedType? <;> simp [hs]
    rw [ht, List.filter_append]
    exact h

/-- The reports merged in all the runs of a session, one after the other. -/
theorem accounted_session (runs : List Run) :
    Accounted (runs.flatMap Run.parts) (runs.flatMap Run.types) (runs.flatMap Run.violations)
      (runs.flatMap Run.findings) := by
  induction runs with
  | nil => exact .nil
  | cons r runs ih =>
    have hr : Accounted r.parts r.types r.violations r.findings := by
      obtain ⟨h1, h2, h3, h4⟩ := accounted_run r
      constructor <;> simpa only [Run.tally_parts]
    exact hr.append ih

theorem Run.types_length_le (runs : List Run) :
    (runs.flatMap Run.types).length ≤ (runs.flatMap Run.symbols).length := by
  induction runs with
  | nil => exact Nat.le_refl 0
  | cons r runs ih =>
    have hr : r.types.length ≤ r.symbols.length := List.length_filterMap_le ..
    simp only [List.flatMap_cons, List.length_append]
    omega

/-- With fewer symbols than words no counter reaches the size of a word. -/
theorem tally_parts_lt {runs : List Run} (h : (runs.flatMap Run.symbols).length < UInt64.size)
    (c : Counter) : tally c (runs.flatMap Run.parts) < UInt64.size := by
  obtain ⟨htypes, -, -, hbounded⟩ := accounted_session runs
  have hle := Run.types_length_le runs
  cases c <;> omega

theorem tally_reports {runs : List Run} {c : Counter}
    (h : tally c (runs.flatMap Run.parts) < UInt64.size) :
    tally c (runs.map fun r => mergeAll r.parts) = tally c (runs.flatMap Run.parts) := by
  induction runs with
  | nil => rfl
  | cons r runs ih =>
    rw [List.flatMap_cons, Report.tally_append] at h ⊢
    rw [List.map_cons, Report.tally_cons, ih (by omega), Report.toNat_count_mergeAll (by omega)]

theorem mergesExactly_parts {runs : List Run}
    (h : ∀ c, tally c (runs.flatMap Run.parts) < UInt64.size) {r : Run} (hr : r ∈ runs) :
    Report.MergesExactly r.parts := by
  refine Report.mergesExactly_of_tally_lt fun c => ?_
  obtain ⟨before, after, rfl⟩ := List.append_of_mem hr
  have hc := h c
  rw [List.flatMap_append, List.flatMap_cons, Report.tally_append, Report.tally_append] at hc
  omega

end run

namespace Outcome

/-- The findings that came back in the reports. -/
def returned (outcomes : List Outcome) : List Finding := outcomes.flatMap (·.report.findings)

/-- The findings that went to sinks. -/
def toSinks (outcomes : List Outcome) : List Finding := outcomes.flatMap (·.handed)

theorem length_returned_toSinks {runs : List Run} {outcomes : List Outcome}
    (h : outcomes.flatMap (fun o => o.report.findings ++ o.handed) = runs.flatMap Run.findings) :
    (returned outcomes).length + (toSinks outcomes).length = (runs.flatMap Run.findings).length := by
  rw [← h, returned, toSinks]
  clear h
  induction outcomes with
  | nil => rfl
  | cons o outcomes ih =>
    simp only [List.flatMap_cons, List.length_append]
    omega

end Outcome

/-- The counters of a total against the runs behind it, in the arithmetic of words. -/
structure Balances (runs : List Run) (outcomes : List Outcome) (total : Report) : Prop where
  types : total.typesAnalyzed + total.typesSkipped = .ofNat (runs.flatMap Run.types).length
  warnings : total.warningCount =
    .ofNat ((Outcome.returned outcomes).length + (Outcome.toSinks outcomes).length)
  violations : total.warningCount + total.suppressedCount =
    .ofNat (runs.flatMap Run.violations).length

/-- The counters of a total against the runs behind it, as numbers. -/
structure Accounts (runs : List Run) (outcomes : List Outcome) (total : Report) : Prop where
  types : total.typesAnalyzed.toNat + total.typesSkipped.toNat = (runs.flatMap Run.types).length
  warnings : total.warningCount.toNat =
    (Outcome.returned outcomes).length + (Outcome.toSinks outcomes).length
  violations : total.warningCount.toNat + total.suppressedCount.toNat =
    (runs.flatMap Run.violations).length
  bounded : total.warningCount.toNat + total.suppressedCount.toNat ≤ total.typesAnalyzed.toNat
  hasWarnings : total.hasWarnings = true ↔
    Outcome.returned outcomes ≠ [] ∨ Outcome.toSinks outcomes ≠ []
  isClean : total.isClean = true ↔ Outcome.returned outcomes = [] ∧ Outcome.toSinks outcomes = []
  exitCode : total.exitCode =
    if Outcome.returned outcomes = [] ∧ Outcome.toSinks outcomes = [] then 0 else 1

section session

open Report (mergeAll tally)

variable {runs : List Run} {outcomes : List Outcome} {total : Report}

theorem exists_outcomes (runs : List Run) : ∃ outcomes, runs.mapM Run.outcome? = some outcomes ∧
    outcomes.map (·.report) = runs.map (fun r => mergeAll r.parts) ∧
    outcomes.flatMap (fun o => o.report.findings ++ o.handed) = runs.flatMap Run.findings := by
  induction runs with
  | nil => exact ⟨[], rfl, rfl, rfl⟩
  | cons r runs ih =>
    obtain ⟨os, hos, hreports, hfindings⟩ := ih
    obtain ⟨o, ho, hreport, hfinding⟩ := r.outcome?_eq
    refine ⟨o :: os, ?_, ?_, ?_⟩
    · rw [List.mapM_cons, ho, hos]
      rfl
    · rw [List.map_cons, List.map_cons, hreport, hreports]
    · rw [List.flatMap_cons, List.flatMap_cons, hfinding, hfindings]

theorem balances_of_count
    (hf : outcomes.flatMap (fun o => o.report.findings ++ o.handed) = runs.flatMap Run.findings)
    (h : ∀ c, total.count c = .ofNat (tally c (runs.flatMap Run.parts))) :
    Balances runs outcomes total := by
  obtain ⟨htypes, hwarnings, hviolations, -⟩ := accounted_session runs
  have hanalyzed : total.typesAnalyzed = _ := h .typesAnalyzed
  have hskipped : total.typesSkipped = _ := h .typesSkipped
  have hwarned : total.warningCount = _ := h .warnings
  have hsuppressed : total.suppressedCount = _ := h .suppressed
  constructor
  · rw [hanalyzed, hskipped, ← UInt64.ofNat_add, htypes]
  · rw [hwarned, hwarnings, Outcome.length_returned_toSinks hf]
  · rw [hwarned, hsuppressed, ← UInt64.ofNat_add, hviolations]

theorem accounts_of_count
    (hf : outcomes.flatMap (fun o => o.report.findings ++ o.handed) = runs.flatMap Run.findings)
    (h : ∀ c, (total.count c).toNat = tally c (runs.flatMap Run.parts)) :
    Accounts runs outcomes total := by
  obtain ⟨htypes, hwarnings, hviolations, hbounded⟩ := accounted_session runs
  have hanalyzed : total.typesAnalyzed.toNat = _ := h .typesAnalyzed
  have hskipped : total.typesSkipped.toNat = _ := h .typesSkipped
  have hwarned : total.warningCount.toNat = _ := h .warnings
  have hsuppressed : total.suppressedCount.toNat = _ := h .suppressed
  have hlength := Outcome.length_returned_toSinks hf
  have hzero : total.warningCount.toNat = 0 ↔
      Outcome.returned outcomes = [] ∧ Outcome.toSinks outcomes = [] := by
    rw [hwarned, hwarnings, ← hlength, Nat.add_eq_zero_iff, List.length_eq_zero_iff,
      List.length_eq_zero_iff]
  have hhas : total.hasWarnings = true ↔ total.warningCount.toNat ≠ 0 := by
    simp [Report.hasWarnings, UInt64.lt_iff_toNat_lt, Nat.pos_iff_ne_zero]
  refine ⟨by omega, by omega, by omega, by omega, ?_, ?_, ?_⟩
  · rw [hhas, ne_eq, hzero, not_and_or]
  · rw [← hzero, Report.isClean, decide_eq_true_iff, ← UInt64.toNat_inj]
    rfl
  · unfold Report.exitCode
    by_cases hz : total.warningCount.toNat = 0
    · rw [if_neg fun hw => hhas.mp hw hz, if_pos (hzero.mp hz)]
    · rw [if_pos (hhas.mpr hz), if_neg fun hn => hz (hzero.mpr hn)]

end session

/-- In whatever order the reports of a session are merged: the findings come out in that order,
the counters come out the same and balance, and while there are fewer symbols than words no
addition wraps and the counters account for every type and every finding. -/
theorem session_accounting (runs : List Run) :
    ∃ outcomes, runs.mapM Run.outcome? = some outcomes ∧
      ∀ merged : List Report, merged.Perm (outcomes.map (·.report)) →
        (Report.mergeAll merged).findings = merged.flatMap (·.findings) ∧
        (∀ c, (Report.mergeAll merged).count c =
          (Report.mergeAll (outcomes.map (·.report))).count c) ∧
        Balances runs outcomes (Report.mergeAll merged) ∧
        ((runs.flatMap Run.symbols).length < UInt64.size →
          (∀ r ∈ runs, Report.MergesExactly r.parts) ∧ Report.MergesExactly merged ∧
            Accounts runs outcomes (Report.mergeAll merged)) := by
  obtain ⟨outcomes, hos, hreports, hfindings⟩ := exists_outcomes runs
  refine ⟨outcomes, hos, fun merged hperm => ?_⟩
  have hcount (c : Counter) : (Report.mergeAll merged).count c =
      (Report.mergeAll (outcomes.map (·.report))).count c := by
    rw [Report.count_mergeAll, Report.count_mergeAll, Report.tally_perm hperm]
  have hwords (c : Counter) : (Report.mergeAll merged).count c =
      .ofNat (Report.tally c (runs.flatMap Run.parts)) := by
    rw [hcount, hreports, ← Report.mergeAll_flatMap, Report.count_mergeAll]
  refine ⟨Report.findings_mergeAll merged, hcount, balances_of_count hfindings hwords, fun hn => ?_⟩
  have hlt := tally_parts_lt hn
  have htally (c : Counter) : Report.tally c merged = Report.tally c (runs.flatMap Run.parts) := by
    rw [Report.tally_perm hperm, hreports, tally_reports (hlt c)]
  refine ⟨fun r hr => mergesExactly_parts hlt hr,
    Report.mergesExactly_of_tally_lt fun c => by rw [htally]; exact hlt c,
    accounts_of_count hfindings fun c => ?_⟩
  rw [hwords, UInt64.toNat_ofNat_of_lt' (hlt c)]

/-- A type reported by a parallel run and handed to a sink by another, and a symbol that is no
type. -/
def mixedSession : List Run :=
  let e : Engine := ⟨{ staticInitializer := ⟨0⟩ }, .empty⟩
  let t : Symbol := .namedType {
    displayName := "A", constructors := [⟨true, false⟩], members := [⟨"M", .method, true⟩] }
  [.collecting e [t, t] ⟨[1, 0], .swap 0 1 []⟩, .streaming e [t], .single e (.other .field "f")]

theorem session_accounting_mixed : ∃ outcomes,
    mixedSession.mapM Run.outcome? = some outcomes ∧ (mixedSession.flatMap Run.symbols).length = 4 ∧
      (outcomes.map (·.report)).reverse.Perm (outcomes.map (·.report)) ∧
      Accounts mixedSession outcomes (Report.mergeAll (outcomes.map (·.report)).reverse) := by
  obtain ⟨outcomes, hos, h⟩ := session_accounting mixedSession
  have hperm := List.reverse_perm (outcomes.map (·.report))
  exact ⟨outcomes, hos, rfl, hperm, ((h _ hperm).2.2.2 (by decide)).2.2⟩

end InitializerLint
