import InitializerLint.Engine.Basic

/-! Reports form a monoid under merging, and an analysis is the merge of the reports of its
symbols, in order. -/
namespace InitializerLint

namespace Report

theorem merge_assoc (a b c : Report) : (a.merge b).merge c = a.merge (b.merge c) := by
  simp only [merge, List.append_assoc, UInt64.add_assoc]

@[simp] theorem merge_empty (a : Report) : a.merge {} = a := by
  simp only [merge, List.append_nil, UInt64.add_zero]

@[simp] theorem empty_merge (a : Report) : merge {} a = a := by
  simp only [merge, List.nil_append, UInt64.zero_add]

theorem foldl_merge (a b : Report) (rs : List Report) :
    rs.foldl merge (a.merge b) = a.merge (rs.foldl merge b) := by
  induction rs generalizing b with
  | nil => rfl
  | cons r rs ih => rw [List.foldl_cons, merge_assoc, ih, List.foldl_cons]

theorem mergeAll_cons (r : Report) (rs : List Report) :
    mergeAll (r :: rs) = r.merge (mergeAll rs) := by
  have h := foldl_merge r {} rs
  rw [merge_empty] at h
  rw [mergeAll, List.foldl_cons, empty_merge, h, mergeAll]

theorem mergeAll_append (as bs : List Report) :
    mergeAll (as ++ bs) = (mergeAll as).merge (mergeAll bs) := by
  induction as with
  | nil => exact (empty_merge _).symm
  | cons a as ih => rw [List.cons_append, mergeAll_cons, mergeAll_cons, ih, merge_assoc]

theorem findings_mergeAll (rs : List Report) :
    (mergeAll rs).findings = rs.flatMap (·.findings) := by
  induction rs with
  | nil => rfl
  | cons r rs ih => rw [mergeAll_cons, List.flatMap_cons, ← ih]; rfl

end Report

namespace Engine

theorem value_analyzeFrom (e : Engine) (total : Report) (symbols : List Symbol) :
    (e.analyzeFrom total symbols).value = (symbols.map e.symbolReport).foldl Report.merge total := by
  induction symbols generalizing total with
  | nil => rfl
  | cons s ss ih => exact ih (total.merge (e.symbolReport s))

theorem report_eq (e : Engine) (symbols : List Symbol) :
    e.report symbols = Report.mergeAll (symbols.map e.symbolReport) :=
  value_analyzeFrom e {} symbols

theorem findings_report_eq (e : Engine) (symbols : List Symbol) :
    (e.report symbols).findings = symbols.flatMap fun s => (e.symbolReport s).findings := by
  rw [report_eq, Report.findings_mergeAll, List.flatMap_map]

theorem report_append (e : Engine) (xs ys : List Symbol) :
    e.report (xs ++ ys) = (e.report xs).merge (e.report ys) := by
  simp only [report_eq, List.map_append, Report.mergeAll_append]

end Engine
end InitializerLint
