import InitializerLint.Engine.Parallel
import InitializerLint.Proofs.Engine.Counters

/-! The log of an analysis: the records of each symbol, in the order of the symbols, and a summary
behind them. The levels of the records account for the counters of the report, and workers that
mix the records of different symbols change none of that. -/
namespace InitializerLint

/-- How many records of a log have a level. -/
def Log.count (level : Level) (log : List Record) : Nat := (log.map (·.level)).count level

@[simp] theorem Log.count_append (level : Level) (log log' : List Record) :
    count level (log ++ log') = count level log + count level log' := by
  rw [count, List.map_append, List.count_append]
  rfl

namespace Interleaves

variable {α : Type} {sources : List (List α)} {log : List α}

/-- Mixing loses nothing and makes nothing up. -/
theorem perm_flatten (h : Interleaves sources log) : log.Perm sources.flatten := by
  induction h with
  | done hnil => rw [List.flatten_eq_nil_iff.mpr hnil]
  | @next before after x rest log _ ih =>
    have hfront : (before ++ (x :: rest) :: after).flatten =
        before.flatten ++ x :: (rest ++ after.flatten) := by simp
    have hrest : (before ++ rest :: after).flatten = before.flatten ++ (rest ++ after.flatten) := by
      simp
    rw [hrest] at ih
    rw [hfront]
    exact (ih.cons x).trans List.perm_middle.symm

theorem append_flatten (before after : List (List α)) (hb : ∀ s ∈ before, s = []) :
    Interleaves (before ++ after) after.flatten := by
  induction after generalizing before with
  | nil => exact .done (by simpa using hb)
  | cons source after ih =>
    -- A source that is used up joins those in front.
    induction source with
    | nil =>
      have hb' : ∀ s ∈ before ++ [[]], s = [] := by simpa [or_imp, forall_and] using hb
      have h := ih (before ++ [[]]) hb'
      rwa [List.append_assoc] at h
    | cons x rest ihs => exact .next ihs

/-- One source after the other is a way of mixing them. -/
theorem flatten (sources : List (List α)) : Interleaves sources sources.flatten :=
  append_flatten [] sources (by simp)

end Interleaves

namespace Engine

open Report (tally)

theorem log_analyzeFrom (e : Engine) (total : Report) (symbols : List Symbol) :
    (e.analyzeFrom total symbols).log = symbols.flatMap e.symbolLog := by
  induction symbols generalizing total with
  | nil => rfl
  | cons s ss ih =>
    have h := ih (total.merge (e.symbolReport s))
    rw [List.flatMap_cons, ← h]
    rfl

theorem log_analyze (e : Engine) (symbols : List Symbol) (elapsed : Duration) :
    (e.analyze symbols elapsed).log =
      symbols.flatMap e.symbolLog ++ [⟨.info, summary (e.report symbols) elapsed⟩] := by
  rw [← e.log_analyzeFrom {} symbols]
  rfl

/-- How many symbols are no types. -/
def otherSymbols (symbols : List Symbol) : Nat := symbols.countP fun s => s.kind ≠ .namedType

/-- How the levels in a log go with the symbols behind it and with their reports. -/
structure Logs (e : Engine) (symbols : List Symbol) (rs : List Report) (log : List Log.Record) :
    Prop where
  traces : Log.count .trace log = tally .typesAnalyzed rs
  debugs : Log.count .debug log =
    otherSymbols symbols + (rs.flatMap (·.findings)).length + 2 * tally .suppressed rs +
      if e.config.isRuleEnabled staticInitializerRule.id then tally .typesSkipped rs else 0
  infos : Log.count .info log = 0
  warnings : Log.count .warn log = 0

theorem Logs.nil (e : Engine) : e.Logs [] [] [] := by
  constructor <;> simp [Log.count, otherSymbols]

theorem Logs.append {e : Engine} {xs ys : List Symbol} {rs rs' : List Report}
    {log log' : List Log.Record} (h : e.Logs xs rs log) (h' : e.Logs ys rs' log') :
    e.Logs (xs ++ ys) (rs ++ rs') (log ++ log') := by
  obtain ⟨htraces, hdebugs, hinfos, hwarnings⟩ := h
  obtain ⟨htraces', hdebugs', hinfos', hwarnings'⟩ := h'
  have hothers : otherSymbols (xs ++ ys) = otherSymbols xs + otherSymbols ys := List.countP_append
  constructor
  · rw [Log.count_append, Report.tally_append, htraces, htraces']
  · rw [Log.count_append, hdebugs, hdebugs', hothers, List.flatMap_append, List.length_append]
    split <;> simp only [Report.tally_append] <;> omega
  · rw [Log.count_append, hinfos, hinfos']
  · rw [Log.count_append, hwarnings, hwarnings']

theorem logs_symbol (e : Engine) (s : Symbol) : e.Logs [s] [e.symbolReport s] (e.symbolLog s) := by
  have h := e.tells_analyzeSymbol s
  generalize e.symbolReport s = r at h
  generalize hlevels : (e.symbolLog s).map (·.level) = levels at h
  have hcount (level : Log.Level) : Log.count level (e.symbolLog s) = levels.count level := by
    rw [Log.count, hlevels]
  cases h with
  | noType kind name => constructor <;> simp [hcount, otherSymbols, Symbol.kind, Report.count]
  | switchedOff he _ => constructor <;> simp [hcount, otherSymbols, Symbol.kind, Report.count, he]
  | generated he _ => constructor <;> simp [hcount, otherSymbols, Symbol.kind, Report.count, he]
  | clean _ _ => constructor <;> simp [hcount, otherSymbols, Symbol.kind, Report.count]
  | suppressed _ _ _ => constructor <;> simp [hcount, otherSymbols, Symbol.kind, Report.count]
  | reported _ _ _ => constructor <;> simp [hcount, otherSymbols, Symbol.kind, Report.count]

theorem logs_symbols (e : Engine) (symbols : List Symbol) :
    e.Logs symbols (symbols.map e.symbolReport) (symbols.flatMap e.symbolLog) := by
  induction symbols with
  | nil => exact .nil e
  | cons s ss ih => exact (e.logs_symbol s).append ih

/-- The levels in a log against a report, in the arithmetic of words. -/
structure LogBalances (e : Engine) (symbols : List Symbol) (r : Report) (log : List Log.Record) :
    Prop where
  traces : .ofNat (Log.count .trace log) = r.typesAnalyzed
  debugs : .ofNat (Log.count .debug log) =
    .ofNat (otherSymbols symbols + r.findings.length) + 2 * r.suppressedCount +
      if e.config.isRuleEnabled staticInitializerRule.id then r.typesSkipped else 0

/-- The levels in a log against a report, as numbers. -/
structure LogAccounts (e : Engine) (symbols : List Symbol) (r : Report) (log : List Log.Record) :
    Prop where
  traces : Log.count .trace log = r.typesAnalyzed.toNat
  debugs : Log.count .debug log =
    otherSymbols symbols + r.findings.length + 2 * r.suppressedCount.toNat +
      if e.config.isRuleEnabled staticInitializerRule.id then r.typesSkipped.toNat else 0

section analyze

variable (e : Engine) (symbols : List Symbol) (elapsed : Duration)

theorem count_log_analyze (level : Log.Level) : Log.count level (e.analyze symbols elapsed).log =
    Log.count level (symbols.flatMap e.symbolLog) + if level = .info then 1 else 0 := by
  rw [log_analyze, Log.count_append]
  cases level <;> rfl

theorem logBalances_analyze :
    e.LogBalances symbols (e.report symbols) (e.analyze symbols elapsed).log := by
  obtain ⟨htraces, hdebugs, -, -⟩ := e.logs_symbols symbols
  rw [List.flatMap_map, ← findings_report_eq] at hdebugs
  constructor
  · have hc := (e.count_report_eq .typesAnalyzed symbols).symm
    rw [count_log_analyze, if_neg (by decide), Nat.add_zero, htraces, hc]
    rfl
  · have hc := (e.count_report_eq .suppressed symbols).symm
    have hc' := (e.count_report_eq .typesSkipped symbols).symm
    rw [count_log_analyze, if_neg (by decide), Nat.add_zero, hdebugs, UInt64.ofNat_add,
      UInt64.ofNat_add, UInt64.ofNat_mul, hc]
    split
    · rw [hc']
      rfl
    · rfl

theorem logAccounts_analyze (h : symbols.length < UInt64.size) :
    e.LogAccounts symbols (e.report symbols) (e.analyze symbols elapsed).log := by
  obtain ⟨htraces, hdebugs, -, -⟩ := e.logs_symbols symbols
  have hcount (c : Counter) : tally c (symbols.map e.symbolReport) =
      ((e.report symbols).count c).toNat := by
    rw [tally_symbolReports, toNat_count_report h]
  rw [List.flatMap_map, ← findings_report_eq, hcount, hcount] at hdebugs
  constructor
  · rw [count_log_analyze, if_neg (by decide), Nat.add_zero, htraces, hcount]
    rfl
  · rw [count_log_analyze, if_neg (by decide), Nat.add_zero, hdebugs]
    rfl

theorem canLog_perm {work : Schedule symbols.length} {log : List Log.Record}
    (h : e.CanLog symbols (.ok work) elapsed log) : ∃ records,
      log = records ++ [⟨.info, summary (e.report symbols) elapsed⟩] ∧
        records.Perm (symbols.flatMap e.symbolLog) := by
  unfold CanLog at h
  split at h
  · obtain ⟨records, r, hmixed, hr, rfl⟩ := h
    obtain rfl : e.report symbols = r := by
      rw [run?_eq] at hr
      exact Option.some.inj hr
    refine ⟨records, rfl, ?_⟩
    rw [List.flatMap_def]
    exact hmixed.perm_flatten
  · exact ⟨symbols.flatMap e.symbolLog, by rw [h, log_analyze], .refl _⟩

theorem canLog_analyze (work : Schedule symbols.length) :
    e.CanLog symbols (.ok work) elapsed (e.analyze symbols elapsed).log := by
  unfold CanLog
  split
  · refine ⟨_, _, .flatten _, e.run?_eq symbols work, ?_⟩
    rw [log_analyze, List.flatMap_def]
  · rfl

end analyze
end Engine

/-- A sequential analysis logs what each symbol gives, in order, and one closing record with three
numbers of its report and the time; nothing in the log is a warning, and the other levels account
for the report. Several workers log the same records before the same closing one, in some order. -/
theorem log_accounts_for_symbols (e : Engine) (symbols : List Symbol) (elapsed : Duration) :
    let r := (e.analyze symbols elapsed).value
    let log := (e.analyze symbols elapsed).log
    let closing : Log.Record := ⟨.info, "analyzed " ++ toString r.typesAnalyzed ++ " types (" ++
      toString r.typesSkipped ++ " skipped), " ++ toString r.findings.length ++ " findings in " ++
      elapsed.text⟩
    log = symbols.flatMap e.symbolLog ++ [closing] ∧
      Log.count .info log = 1 ∧
      Log.count .warn log = 0 ∧
      e.LogBalances symbols r log ∧
      (symbols.length < UInt64.size → e.LogAccounts symbols r log) ∧
      ∀ work : Schedule symbols.length,
        e.CanLog symbols (.ok work) elapsed log ∧
        ∀ log', e.CanLog symbols (.ok work) elapsed log' → ∃ records,
          log' = records ++ [closing] ∧ records.Perm (symbols.flatMap e.symbolLog) := by
  intro r log closing
  have hlogs := e.logs_symbols symbols
  have hinfos : Log.count .info log = 1 := by
    rw [Engine.count_log_analyze, hlogs.infos]
    rfl
  have hwarnings : Log.count .warn log = 0 := by
    rw [Engine.count_log_analyze, hlogs.warnings]
    rfl
  exact ⟨e.log_analyze symbols elapsed, hinfos, hwarnings, e.logBalances_analyze symbols elapsed,
    e.logAccounts_analyze symbols elapsed, fun work => ⟨e.canLog_analyze symbols elapsed work,
      fun _ h => e.canLog_perm symbols elapsed h⟩⟩

/-- A type that violates the rule and a symbol that is no type. -/
def watchedSymbols : List Symbol := [
  .namedType { displayName := "A", constructors := [⟨true, false⟩], members := [⟨"M", .method, true⟩] },
  .other .field "f"]

/-- The record on the second symbol comes between the two on the first. -/
theorem log_accounts_for_symbols_mixed :
    let e : Engine := ⟨{ staticInitializer := ⟨0⟩ }, .empty⟩
    let elapsed : Duration := ⟨0, 1500000⟩
    let closing : Log.Record := ⟨.info, "analyzed 1 types (0 skipped), 1 findings in 1.5ms"⟩
    ∃ x y z, watchedSymbols.map e.symbolLog = [[x, y], [z]] ∧
      (e.analyze watchedSymbols elapsed).log = [x, y, z, closing] ∧
      e.CanLog watchedSymbols (.ok ⟨[1, 0], .swap 0 1 []⟩) elapsed [x, z, y, closing] ∧
      [x, z, y].Perm (watchedSymbols.flatMap e.symbolLog) ∧
      e.LogAccounts watchedSymbols (e.analyze watchedSymbols elapsed).value
        (e.analyze watchedSymbols elapsed).log := by
  intro e elapsed closing
  obtain ⟨x, y, z, hlogs⟩ : ∃ x y z, watchedSymbols.map e.symbolLog = [[x, y], [z]] :=
    ⟨_, _, _, rfl⟩
  have hclosing : ⟨.info, Engine.summary (e.report watchedSymbols) elapsed⟩ = closing := by
    decide +kernel
  have hmixed : Interleaves [[x, y], [z]] [x, z, y] := by
    have hnone : Interleaves ([] ++ [] :: [[]]) ([] : List Log.Record) := .done (by simp)
    have hy : Interleaves ([] ++ [y] :: [[]]) [y] := .next hnone
    have hz : Interleaves ([[y]] ++ [z] :: []) [z, y] := .next hy
    have hx : Interleaves ([] ++ [x, y] :: [[z]]) [x, z, y] := .next hz
    exact hx
  have hcan : e.CanLog watchedSymbols (.ok ⟨[1, 0], .swap 0 1 []⟩) elapsed [x, z, y, closing] :=
    ⟨[x, z, y], _, hlogs ▸ hmixed, e.run?_eq watchedSymbols _, by rw [hclosing]; rfl⟩
  obtain ⟨hlog, -, -, -, haccounts, hworkers⟩ := log_accounts_for_symbols e watchedSymbols elapsed
  have hsequential : (e.analyze watchedSymbols elapsed).log = [x, y, z, closing] := by
    rw [hlog, List.flatMap_def, hlogs]
    exact congrArg (fun record => [x, y, z, record]) hclosing
  obtain ⟨records, hrecords, hperm⟩ := (hworkers ⟨[1, 0], .swap 0 1 []⟩).2 _ hcan
  have hsplit : [x, z, y] ++ [closing] = records ++ [_] := hrecords
  obtain rfl : [x, z, y] = records := (List.append_inj' hsplit rfl).1
  exact ⟨x, y, z, hlogs, hsequential, hcan, hperm, haccounts (by decide)⟩

end InitializerLint
