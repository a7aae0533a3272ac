import InitializerLint.Engine.Parallel
import InitializerLint.Proofs.Engine.Merge

/-! However the symbols are cut into chunks, whatever order the workers finish them in and
however the reports of the chunks are bracketed, the merged report is the one of the
sequential analysis. -/
namespace InitializerLint

namespace Engine

/-- What the places hold when exactly the symbols at the places `done` are finished. -/
def slotsAfter (e : Engine) (symbols : List Symbol) (done : List Nat) : List (Option Report) :=
  symbols.mapIdx fun i s => if i ∈ done then some (e.symbolReport s) else none

theorem slotsAfter_nil (e : Engine) (symbols : List Symbol) :
    e.slotsAfter symbols [] = List.replicate symbols.length none := by
  apply List.ext_getElem?
  intro i
  by_cases hi : i < symbols.length <;> simp [slotsAfter, hi]

theorem finish_slotsAfter (e : Engine) (symbols : List Symbol) (done : List Nat) (i : Nat) :
    e.finish symbols (e.slotsAfter symbols done) i = e.slotsAfter symbols (done ++ [i]) := by
  apply List.ext_getElem?
  intro j
  unfold finish
  cases hs : symbols[i]? with
  | none =>
    have hi : symbols.length ≤ i := by simpa using hs
    by_cases hj : j < symbols.length
    · have hji : j ≠ i := by omega
      simp [slotsAfter, hji]
    · simp [slotsAfter, Nat.le_of_not_lt hj]
  | some s =>
    obtain ⟨hi, rfl⟩ := List.getElem?_eq_some_iff.mp hs
    by_cases hj : j = i
    · subst j
      simp [slotsAfter, hi]
    · simp [slotsAfter, List.getElem?_set_ne (Ne.symm hj), hj]

theorem foldl_finish (e : Engine) (symbols : List Symbol) (order done : List Nat) :
    order.foldl (e.finish symbols) (e.slotsAfter symbols done) =
      e.slotsAfter symbols (done ++ order) := by
  induction order generalizing done with
  | nil => simp
  | cons i order ih => rw [List.foldl_cons, finish_slotsAfter, ih, List.append_assoc]; rfl

/-- Once every place is filled, it is filled with the report of its own symbol. -/
theorem gather_eq (e : Engine) (symbols : List Symbol) (work : Schedule symbols.length) :
    e.gather symbols work.order = symbols.map fun s => some (e.symbolReport s) := by
  rw [gather, ← slotsAfter_nil, foldl_finish]
  apply List.ext_getElem?
  intro i
  by_cases hi : i < symbols.length
  · have hm : i ∈ work.order := work.complete.mem_iff.mpr (List.mem_range.mpr hi)
    simp [slotsAfter, hi, hm]
  · simp [slotsAfter, Nat.le_of_not_lt hi]

theorem run?_eq (e : Engine) (symbols : List Symbol) (work : Schedule symbols.length) :
    e.run? symbols work = some (e.report symbols) := by
  have h : (symbols.map fun s => some (e.symbolReport s)).mapM id =
      some (symbols.map e.symbolReport) := by
    rw [List.mapM_map]
    exact List.mapM_pure
  unfold run?
  split
  · rw [gather_eq, h, report_eq]
    rfl
  · rfl

end Engine

/-- Chunks of symbols in their order, the order in which each was worked off, and how their
reports are bracketed. -/
inductive Shards where
  | nothing
  | chunk (symbols : List Symbol) (work : Schedule symbols.length)
  | merged (left right : Shards)

namespace Shards

def symbols : Shards → List Symbol
  | .nothing => []
  | .chunk symbols _ => symbols
  | .merged l r => l.symbols ++ r.symbols

def report? (e : Engine) : Shards → Option Report
  | .nothing => some {}
  | .chunk symbols work => e.run? symbols work
  | .merged l r => do
    let a ← l.report? e
    let b ← r.report? e
    return a.merge b

theorem report?_eq (e : Engine) (shards : Shards) :
    shards.report? e = some (e.report shards.symbols) := by
  induction shards with
  | nothing => rfl
  | chunk symbols work => exact e.run?_eq symbols work
  | merged l r hl hr =>
    simp only [report?, hl, hr, symbols, Engine.report_append]
    rfl

end Shards

/-- Neither the cut into chunks nor the schedule nor the bracketing shows in the report, and
neither does the time that any of the runs takes. -/
theorem report_independent_of_sharding (e : Engine) :
    (∀ (shards : Shards) (elapsed : Duration),
        shards.report? e = some (e.analyze shards.symbols elapsed).value) ∧
      (∀ (xs ys : List Symbol) (elapsed left right : Duration),
        (e.analyze (xs ++ ys) elapsed).value =
          (e.analyze xs left).value.merge (e.analyze ys right).value) ∧
      (∀ a b c : Report, (a.merge b).merge c = a.merge (b.merge c)) ∧
      ∀ a : Report, Report.merge {} a = a ∧ a.merge {} = a :=
  ⟨fun shards _ => shards.report?_eq e, fun xs ys _ _ _ => e.report_append xs ys,
    Report.merge_assoc, fun a => ⟨a.empty_merge, a.merge_empty⟩⟩

end InitializerLint
