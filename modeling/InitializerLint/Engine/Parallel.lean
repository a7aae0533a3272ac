import InitializerLint.Engine.Basic

/-! The rule run by several workers. They finish the symbols in any order; a report goes to
the place of its symbol, and the reports are merged by place once all of them are there. The
records of different symbols can mix in the log. -/
namespace InitializerLint

/-- An order in which `n` pieces of work are finished, each of them once. -/
structure Schedule (n : Nat) where
  order : List Nat
  complete : order.Perm (List.range n)

/-- What several sources write to one log: each keeps the order of its own. -/
inductive Interleaves {α : Type} : List (List α) → List α → Prop
  | done {sources : List (List α)} : (∀ s ∈ sources, s = []) → Interleaves sources []
  | next {before after : List (List α)} {x : α} {rest log : List α} :
      Interleaves (before ++ rest :: after) log →
      Interleaves (before ++ (x :: rest) :: after) (x :: log)

namespace Engine

/-- Some worker is done with the symbol at place `i`. -/
def finish (e : Engine) (symbols : List Symbol) (slots : List (Option Report)) (i : Nat) :
    List (Option Report) :=
  match symbols[i]? with
  | some s => slots.set i (some (e.symbolReport s))
  | none => slots

def gather (e : Engine) (symbols : List Symbol) (order : List Nat) : List (Option Report) :=
  order.foldl (e.finish symbols) (List.replicate symbols.length none)

/-- The report of a run as the settings ask for it. A place that nobody filled leaves a
parallel run without a report. -/
def run? (e : Engine) (symbols : List Symbol) (work : Schedule symbols.length) : Option Report :=
  if e.config.engine.parallel then
    ((e.gather symbols work.order).mapM id).map Report.mergeAll
  else some (e.report symbols)

/-- The logs that a run as the settings ask for it can leave when it takes the time `elapsed`. Where
they ask for workers and there are none, for some reason, that is reported and the run is made
without. -/
def CanLog (e : Engine) (symbols : List Symbol) (workers : Except String (Schedule symbols.length))
    (elapsed : Duration) (log : List Log.Record) : Prop :=
  if e.config.engine.parallel then
    match workers with
    | .ok work => ∃ records r, Interleaves (symbols.map e.symbolLog) records ∧
        e.run? symbols work = some r ∧ log = records ++ [⟨.info, summary r elapsed⟩]
    | .error reason => log =
        ⟨.warn, "failed to build thread pool, analyzing sequentially: " ++ reason⟩ ::
          (e.analyze symbols elapsed).log
  else log = (e.analyze symbols elapsed).log

end Engine
end InitializerLint
