import InitializerLint.Proofs.Config.Suppressions
import InitializerLint.Proofs.Engine.Counters
import InitializerLint.Proofs.Engine.Findings

/-! Two analyses of the same symbols under settings that differ in one place. A higher threshold,
more suppressions or leaving out generated types removes findings and adds none, and what leaves
one counter turns up in another. -/
namespace InitializerLint

namespace Config

/-- What an analysis under these settings reports. -/
def report (c : Config) (symbols : List Symbol) : Report := (Engine.new c).value.report symbols

def withThreshold (c : Config) (t : UInt64) : Config :=
  { c with staticInitializer := { c.staticInitializer with methodThreshold := t } }

def withPerType (c : Config) (entries : PerType) : Config :=
  { c with rules := { c.rules with perType := entries } }

def withoutGenerated (c : Config) : Config :=
  { c with engine := { c.engine with analyzeGenerated := false } }

end Config

def Symbol.isGeneratedType (s : Symbol) : Bool := s.namedType?.any (·.isGenerated)

/-- How many types are generated. -/
def generatedTypes (symbols : List Symbol) : Nat :=
  (symbols.filterMap Symbol.namedType?).countP (·.isGenerated)

section verdict

variable {c : Config} {t : NamedType}

theorem TypeView.isViolation_of_le {v : TypeView} {n m : UInt64} (hn : n ≤ m)
    (h : v.isViolation m = true) : v.isViolation n = true := by
  obtain ⟨hinitializer, habove⟩ := Bool.and_eq_true_iff.mp h
  have hle : n.toNat ≤ m.toNat := UInt64.le_iff_toNat_le.mp hn
  have hcount : m.toNat < v.staticMethodCount := of_decide_eq_true habove
  have hcount' : n.toNat < v.staticMethodCount := by omega
  exact Bool.and_eq_true_iff.mpr ⟨hinitializer, decide_eq_true hcount'⟩

theorem violates_of_withThreshold {n : UInt64} (hn : c.staticInitializer.methodThreshold ≤ n)
    (h : (Engine.new (c.withThreshold n)).value.violates t = true) :
    (Engine.new c).value.violates t = true := by
  obtain ⟨hanalyzes, hviolation⟩ := Bool.and_eq_true_iff.mp h
  have hviolation' := TypeView.isViolation_of_le hn hviolation
  exact Bool.and_eq_true_iff.mpr ⟨hanalyzes, hviolation'⟩

theorem analyzes_withoutGenerated (c : Config) (t : NamedType) :
    (Engine.new c.withoutGenerated).value.analyzes t =
      ((Engine.new c).value.analyzes t && !t.isGenerated) := by
  have henabled : c.withoutGenerated.isRuleEnabled staticInitializerRule.id =
      c.isRuleEnabled staticInitializerRule.id := rfl
  have hgenerated : c.withoutGenerated.engine.analyzeGenerated = false := rfl
  simp only [Engine.analyzes, Engine.new_value, henabled, hgenerated]
  cases t.isGenerated <;> simp

theorem violates_withoutGenerated (c : Config) (t : NamedType) :
    (Engine.new c.withoutGenerated).value.violates t =
      ((Engine.new c).value.violates t && !t.isGenerated) := by
  rw [Engine.violates, analyzes_withoutGenerated, Bool.and_right_comm]
  rfl

theorem Reported.of_withThreshold {n : UInt64} (hn : c.staticInitializer.methodThreshold ≤ n)
    (h : Reported (c.withThreshold n) t) : Reported c t := by
  obtain ⟨hviolates, hunsuppressed⟩ := (Engine.reported_iff_violates _ t).mp h
  exact (Engine.reported_iff_violates c t).mpr ⟨violates_of_withThreshold hn hviolates, hunsuppressed⟩

theorem Reported.of_withPerType {entries : PerType} (hentries : c.rules.perType ⊆ entries)
    (hcompile : Suppressions.Compile "UNOM0003" entries) (h : Reported (c.withPerType entries) t) :
    Reported c t := by
  obtain ⟨hviolates, hunsuppressed⟩ := (Engine.reported_iff_violates _ t).mp h
  refine (Engine.reported_iff_violates c t).mpr ⟨hviolates, ?_⟩
  have hbefore := Suppressions.isSuppressed_build (hcompile.subset hentries) t.displayName
  have hafter := Suppressions.isSuppressed_build hcompile t.displayName
  rw [Bool.eq_false_iff] at hunsuppressed ⊢
  intro hsuppressed
  obtain ⟨e, he, hmatches⟩ := hbefore.mp hsuppressed
  apply hunsuppressed
  exact hafter.mpr ⟨e, hentries he, hmatches⟩

theorem reported_withoutGenerated (c : Config) (t : NamedType) :
    Reported c.withoutGenerated t ↔ Reported c t ∧ t.isGenerated = false := by
  have hsuppressions : (Engine.new c.withoutGenerated).value.suppressions =
      (Engine.new c).value.suppressions := rfl
  rw [Engine.reported_iff_violates, Engine.reported_iff_violates, violates_withoutGenerated,
    hsuppressions, Bool.and_eq_true_iff, Bool.not_eq_true', and_right_comm]

end verdict

section findings

variable {c c' : Config}

/-- Where fewer types are reported, the findings are some of the others, in their order. -/
theorem findings_sublist (h : ∀ t, Reported c' t → Reported c t) (symbols : List Symbol) :
    (c'.report symbols).findings.Sublist (c.report symbols).findings := by
  have hwarning (s : Symbol) (f : Finding) (hf : s.warning? c' = some f) : s.warning? c = some f := by
    cases s with
    | other kind name => cases hf
    | namedType t =>
      obtain ⟨hreported, hsame⟩ := Option.ite_none_right_eq_some.mp hf
      exact Option.ite_none_right_eq_some.mpr ⟨h t hreported, hsame⟩
  rw [Config.report, Config.report, Engine.findings_report, Engine.findings_report]
  induction symbols with
  | nil => exact .slnil
  | cons s ss ih =>
    cases hs' : s.warning? c' with
    | some f =>
      rw [List.filterMap_cons_some hs', List.filterMap_cons_some (hwarning s f hs')]
      exact ih.cons_cons f
    | none =>
      rw [List.filterMap_cons_none hs']
      cases hs : s.warning? c with
      | none => rwa [List.filterMap_cons_none hs]
      | some f =>
        rw [List.filterMap_cons_some hs]
        exact ih.cons f

theorem findings_withoutGenerated (c : Config) (symbols : List Symbol) :
    (c.withoutGenerated.report symbols).findings =
      (c.report (symbols.filter fun s => !s.isGeneratedType)).findings := by
  rw [Config.report, Config.report, Engine.findings_report, Engine.findings_report,
    List.filterMap_filter]
  apply List.filterMap_congr
  rintro (t | ⟨kind, name⟩) -
  · have hgenerated : (Symbol.namedType t).isGeneratedType = t.isGenerated := rfl
    rw [hgenerated]
    cases hg : t.isGenerated <;> simp [Symbol.warning?, reported_withoutGenerated, hg]
  · rfl

end findings

section counters

variable (c : Config) (symbols : List Symbol)

/-- A counter of the report counts the types that the engine of the settings counts. -/
theorem Config.count_report (counter : Counter) : (c.report symbols).count counter =
    .ofNat ((symbols.filterMap Symbol.namedType?).countP ((Engine.new c).value.counts counter)) :=
  (Engine.new c).value.count_report counter symbols

theorem Config.toNat_count_report {symbols : List Symbol} (h : symbols.length < UInt64.size)
    (counter : Counter) : ((c.report symbols).count counter).toNat =
      (symbols.filterMap Symbol.namedType?).countP ((Engine.new c).value.counts counter) :=
  Engine.toNat_count_report h _ counter

theorem suppressedCount_withThreshold {symbols : List Symbol} {n : UInt64}
    (hn : c.staticInitializer.methodThreshold ≤ n) (hs : symbols.length < UInt64.size) :
    ((c.withThreshold n).report symbols).suppressedCount ≤ (c.report symbols).suppressedCount := by
  have hcount := c.toNat_count_report hs .suppressed
  have hcount' := (c.withThreshold n).toNat_count_report hs .suppressed
  -- Words that may have wrapped are not in this order, the numbers behind them are.
  rw [UInt64.le_iff_toNat_le]
  apply Nat.le_trans (Nat.le_of_eq hcount')
  apply Nat.le_trans _ (Nat.le_of_eq hcount.symm)
  apply List.countP_mono_left
  intro t _ ht
  obtain ⟨hviolates, hsuppressed⟩ := Bool.and_eq_true_iff.mp ht
  exact Bool.and_eq_true_iff.mpr ⟨violates_of_withThreshold hn hviolates, hsuppressed⟩

theorem count_report_congr {c c' : Config} (counter : Counter)
    (h : (Engine.new c').value.counts counter = (Engine.new c).value.counts counter) :
    (c'.report symbols).count counter = (c.report symbols).count counter := by
  rw [Config.count_report, Config.count_report, h]

/-- A difference between two settings in how many types a counter is about is the difference
between their reports. -/
theorem count_report_add {c c' : Config} (counter : Counter) {n : Nat}
    (h : (symbols.filterMap Symbol.namedType?).countP ((Engine.new c').value.counts counter) =
      (symbols.filterMap Symbol.namedType?).countP ((Engine.new c).value.counts counter) + n) :
    (c'.report symbols).count counter = (c.report symbols).count counter + .ofNat n := by
  rw [Config.count_report, Config.count_report, h, UInt64.ofNat_add]

theorem toNat_count_report_add {c c' : Config} {symbols : List Symbol}
    (hs : symbols.length < UInt64.size) (counter : Counter) {n : Nat}
    (h : (symbols.filterMap Symbol.namedType?).countP ((Engine.new c').value.counts counter) =
      (symbols.filterMap Symbol.namedType?).countP ((Engine.new c).value.counts counter) + n) :
    ((c'.report symbols).count counter).toNat = ((c.report symbols).count counter).toNat + n := by
  rw [Config.toNat_count_report _ hs, Config.toNat_count_report _ hs, h]

theorem Config.violations_report :
    (c.report symbols).warningCount + (c.report symbols).suppressedCount =
      .ofNat ((symbols.filterMap Symbol.namedType?).countP (Engine.new c).value.violates) := by
  have hwarnings : (c.report symbols).warningCount = _ := c.count_report symbols .warnings
  have hsuppressed : (c.report symbols).suppressedCount = _ := c.count_report symbols .suppressed
  rw [hwarnings, hsuppressed, ← UInt64.ofNat_add, Engine.countP_violates]

theorem Config.toNat_violations_report {symbols : List Symbol} (h : symbols.length < UInt64.size) :
    (c.report symbols).warningCount.toNat + (c.report symbols).suppressedCount.toNat =
      (symbols.filterMap Symbol.namedType?).countP (Engine.new c).value.violates := by
  have hwarnings : (c.report symbols).warningCount.toNat = _ := c.toNat_count_report h .warnings
  have hsuppressed : (c.report symbols).suppressedCount.toNat = _ :=
    c.toNat_count_report h .suppressed
  rw [hwarnings, hsuppressed, Engine.countP_violates]

section generated

variable {c : Config} (henabled : "UNOM0003" ∉ c.rules.disabled)
  (hgenerated : c.engine.analyzeGenerated = true) (types : List NamedType)

include henabled hgenerated

theorem analyzes_eq_true (t : NamedType) : (Engine.new c).value.analyzes t = true := by
  have hid : staticInitializerRule.id = "UNOM0003" := rfl
  simp [Engine.analyzes, Engine.new_value, hid, Config.isRuleEnabled, henabled, hgenerated]

theorem countP_skipped_withoutGenerated :
    types.countP ((Engine.new c.withoutGenerated).value.counts .typesSkipped) =
      types.countP ((Engine.new c).value.counts .typesSkipped) + types.countP (·.isGenerated) := by
  have hnone : types.countP ((Engine.new c).value.counts .typesSkipped) = 0 := by
    simp [List.countP_eq_zero, Engine.counts, analyzes_eq_true henabled hgenerated]
  rw [hnone, Nat.zero_add]
  apply List.countP_congr
  intro t _
  simp [Engine.counts, analyzes_withoutGenerated, analyzes_eq_true henabled hgenerated]

theorem countP_analyzed_withoutGenerated :
    types.countP ((Engine.new c).value.counts .typesAnalyzed) =
      types.countP ((Engine.new c.withoutGenerated).value.counts .typesAnalyzed) +
        types.countP (·.isGenerated) := by
  have hall : types.countP ((Engine.new c).value.counts .typesAnalyzed) = types.length := by
    simp [List.countP_eq_length, Engine.counts, analyzes_eq_true henabled hgenerated]
  rw [hall, List.length_eq_countP_add_countP (·.isGenerated), Nat.add_comm]
  congr 1
  apply List.countP_congr
  intro t _
  simp [Engine.counts, analyzes_withoutGenerated, analyzes_eq_true henabled hgenerated]

end generated

end counters

/-- The report of a run and the one under a higher threshold. -/
structure ThresholdRaised (symbols : List Symbol) (r r' : Report) : Prop where
  findings : r'.findings.Sublist r.findings
  typesAnalyzed : r'.typesAnalyzed = r.typesAnalyzed
  typesSkipped : r'.typesSkipped = r.typesSkipped
  suppressed : symbols.length < UInt64.size → r'.suppressedCount ≤ r.suppressedCount

/-- The report of a run and the one under other suppressions: what is not reported any more is
suppressed, and the other way round. -/
structure SuppressionsChanged (symbols : List Symbol) (r r' : Report) : Prop where
  typesAnalyzed : r'.typesAnalyzed = r.typesAnalyzed
  typesSkipped : r'.typesSkipped = r.typesSkipped
  violations : r'.warningCount + r'.suppressedCount = r.warningCount + r.suppressedCount
  violationsExact : symbols.length < UInt64.size →
    r'.warningCount.toNat + r'.suppressedCount.toNat = r.warningCount.toNat + r.suppressedCount.toNat

/-- The report of a run and the one that leaves out generated types. -/
structure GeneratedLeftOut (symbols : List Symbol) (r r' : Report) : Prop where
  typesSkipped : r'.typesSkipped = r.typesSkipped + .ofNat (generatedTypes symbols)
  typesAnalyzed : r.typesAnalyzed = r'.typesAnalyzed + .ofNat (generatedTypes symbols)
  skippedExact : symbols.length < UInt64.size →
    r'.typesSkipped.toNat = r.typesSkipped.toNat + generatedTypes symbols
  analyzedExact : symbols.length < UInt64.size →
    r.typesAnalyzed.toNat = r'.typesAnalyzed.toNat + generatedTypes symbols

section reports

variable (c : Config) (symbols : List Symbol)

theorem thresholdRaised {n : UInt64} (hn : c.staticInitializer.methodThreshold ≤ n) :
    ThresholdRaised symbols (c.report symbols) ((c.withThreshold n).report symbols) where
  findings := findings_sublist (fun _ => Reported.of_withThreshold hn) symbols
  typesAnalyzed := count_report_congr symbols .typesAnalyzed rfl
  typesSkipped := count_report_congr symbols .typesSkipped rfl
  suppressed := suppressedCount_withThreshold c hn

theorem suppressionsChanged (entries : PerType) :
    SuppressionsChanged symbols (c.report symbols) ((c.withPerType entries).report symbols) where
  typesAnalyzed := count_report_congr symbols .typesAnalyzed rfl
  typesSkipped := count_report_congr symbols .typesSkipped rfl
  violations := by
    have h := c.violations_report symbols
    have h' := (c.withPerType entries).violations_report symbols
    exact h'.trans h.symm
  violationsExact hs := by
    have h := c.toNat_violations_report hs
    have h' := (c.withPerType entries).toNat_violations_report hs
    exact h'.trans h.symm

theorem generatedLeftOut (hgenerated : c.engine.analyzeGenerated = true)
    (henabled : "UNOM0003" ∉ c.rules.disabled) :
    GeneratedLeftOut symbols (c.report symbols) (c.withoutGenerated.report symbols) where
  typesSkipped :=
    count_report_add symbols .typesSkipped (countP_skipped_withoutGenerated henabled hgenerated _)
  typesAnalyzed :=
    count_report_add symbols .typesAnalyzed (countP_analyzed_withoutGenerated henabled hgenerated _)
  skippedExact hs :=
    toNat_count_report_add hs .typesSkipped (countP_skipped_withoutGenerated henabled hgenerated _)
  analyzedExact hs :=
    toNat_count_report_add hs .typesAnalyzed (countP_analyzed_withoutGenerated henabled hgenerated _)

end reports

/-- However the runs are scheduled and however long they take: a higher threshold keeps some of the findings in their order;
more suppressions do so too, and any others only exchange reported and suppressed violations;
leaving out generated types skips these types and gives the findings of all others. -/
theorem tightening_removes_findings (c : Config) (symbols : List Symbol) :
    (∀ (c : Config) (symbols : List Symbol) (elapsed : Duration),
      ((Engine.new c).value.analyze symbols elapsed).value = c.report symbols) ∧
    (∀ (c : Config) (work : Schedule symbols.length),
      (Engine.new c).value.run? symbols work = some (c.report symbols)) ∧
    (∀ n, c.staticInitializer.methodThreshold ≤ n →
      ThresholdRaised symbols (c.report symbols) ((c.withThreshold n).report symbols)) ∧
    (∀ entries : PerType,
      SuppressionsChanged symbols (c.report symbols) ((c.withPerType entries).report symbols) ∧
      (c.rules.perType ⊆ entries → Suppressions.Compile "UNOM0003" entries →
        ((c.withPerType entries).report symbols).findings.Sublist (c.report symbols).findings)) ∧
    (c.engine.analyzeGenerated = true → "UNOM0003" ∉ c.rules.disabled →
      GeneratedLeftOut symbols (c.report symbols) (c.withoutGenerated.report symbols) ∧
      (c.withoutGenerated.report symbols).findings =
        (c.report (symbols.filter fun s => !s.isGeneratedType)).findings) := by
  refine ⟨fun _ _ _ => rfl, fun c work => Engine.run?_eq _ symbols work,
    fun n hn => thresholdRaised c symbols hn, fun entries => ⟨suppressionsChanged c symbols entries, fun hentries hcompile => ?_⟩,
    fun hgenerated henabled => ⟨generatedLeftOut c symbols hgenerated henabled, ?_⟩⟩
  · exact findings_sublist (fun _ => Reported.of_withPerType hentries hcompile) symbols
  · exact findings_withoutGenerated c symbols

/-- Settings with one suppression, and two types that violate the rule, one of them generated. -/
def tightenedRun : Config × List Symbol :=
  let heavy (name : String) (generated : Bool) : Symbol := .namedType {
    displayName := name, constructors := [⟨true, false⟩], members := [⟨"M", .method, true⟩]
    isGenerated := generated }
  ({ rules := { perType := [("Legacy", ["all"])] }, staticInitializer := ⟨0⟩ },
    [heavy "A" true, heavy "B" false])

theorem tightening_removes_findings_heavy :
    let c := tightenedRun.1
    let symbols := tightenedRun.2
    ThresholdRaised symbols (c.report symbols) ((c.withThreshold 1).report symbols) ∧
      ((c.withPerType [("B", ["UNOM0003"]), ("Legacy", ["all"])]).report symbols).findings.Sublist
        (c.report symbols).findings ∧
      generatedTypes symbols = 1 ∧
      GeneratedLeftOut symbols (c.report symbols) (c.withoutGenerated.report symbols) := by
  intro c symbols
  obtain ⟨-, -, hthreshold, hsuppressions, hgenerated⟩ := tightening_removes_findings c symbols
  exact ⟨hthreshold 1 (by decide), (hsuppressions _).2 (by simp [c, tightenedRun]) (by decide +kernel),
    rfl, (hgenerated rfl (by simp [c, tightenedRun])).1⟩

end InitializerLint
