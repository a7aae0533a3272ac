import InitializerLint.Proofs.Engine.Judgement
import InitializerLint.Proofs.Engine.Sharding
import InitializerLint.Proofs.Template
import Mathlib.Tactic.MkIffOfInductiveProp

/-! Which types are reported, and how: the findings of an analysis read off its settings and
its symbols. -/
namespace InitializerLint

def warningTail : String :=
  " has a static type initializer and contains too many static methods. Refactor to use instance methods or remove the static type initializer."

/-- The finding on a type that is reported. -/
def NamedType.warning (t : NamedType) : Finding where
  ruleId := "UNOM0003"
  severity := .warning
  category := .performance
  message := t.displayName ++ warningTail
  location := t.locations.head?

/-- All that has to come together for a type to be reported. -/
@[mk_iff]
structure Reported (c : Config) (t : NamedType) : Prop where
  enabled : "UNOM0003" ∉ c.rules.disabled
  inScope : ¬(t.isGenerated = true ∧ c.engine.analyzeGenerated = false)
  initializer : ∃ k ∈ t.constructors, k.isStatic = true ∧ k.isImplicitlyDeclared = false
  aboveThreshold : c.staticInitializer.methodThreshold.toNat <
    (t.members.filter fun m => m.kind = .method ∧ m.isStatic = true).length
  unsuppressed :
    (Suppressions.build c.rules.perType "UNOM0003").value.isSuppressed t.displayName = false

instance (c : Config) (t : NamedType) : Decidable (Reported c t) :=
  decidable_of_iff' _ (reported_iff c t)

/-- A symbol contributes one finding or none. -/
def Symbol.warning? (c : Config) : Symbol → Option Finding
  | .namedType t => if Reported c t then some t.warning else none
  | .other _ _ => none

theorem cutsInto_messageFormat :
    CutsInto staticInitializerRule.messageFormat.toList [[], warningTail.toList] := by
  have hformat : staticInitializerRule.messageFormat = "{0}" ++ warningTail := by decide +kernel
  have htail : ¬placeholder <:+: warningTail.toList := by decide +kernel
  rw [hformat, String.toList_append]
  exact (CutsInto.last htail).placeholder_append

theorem formatMessage_eq (name : String) :
    staticInitializerRule.formatMessage name = name ++ warningTail := by
  apply String.toList_inj.mp
  rw [RuleDescriptor.toList_formatMessage cutsInto_messageFormat, String.toList_append]
  simp

namespace TypeView

theorem isViolation_ofNamedType (t : NamedType) (threshold : UInt64) :
    (ofNamedType t).isViolation threshold = true ↔
      (∃ k ∈ t.constructors, k.isStatic = true ∧ k.isImplicitlyDeclared = false) ∧
        threshold.toNat <
          (t.members.filter fun m => m.kind = .method ∧ m.isStatic = true).length := by
  simp [isViolation, ofNamedType, List.countP_eq_length_filter]

theorem finding_ofNamedType (t : NamedType) : (ofNamedType t).finding = t.warning := by
  simp only [finding, ofNamedType, NamedType.warning, formatMessage_eq]
  rfl

end TypeView

namespace Engine

theorem new_value (c : Config) :
    (Engine.new c).value = ⟨c, (Suppressions.build c.rules.perType "UNOM0003").value⟩ := rfl

/-- The conditions on a reported type: it violates the rule, and it is not suppressed. -/
theorem reported_iff_violates (c : Config) (t : NamedType) :
    Reported c t ↔ (Engine.new c).value.violates t = true ∧
      (Engine.new c).value.suppressions.isSuppressed t.displayName = false := by
  have hid : staticInitializerRule.id = "UNOM0003" := rfl
  have he : c.isRuleEnabled "UNOM0003" = true ↔ "UNOM0003" ∉ c.rules.disabled := by
    simp [Config.isRuleEnabled]
  have hg : (t.isGenerated && !c.engine.analyzeGenerated) = false ↔
      ¬(t.isGenerated = true ∧ c.engine.analyzeGenerated = false) := by simp
  rw [reported_iff, new_value, violates, analyzes, hid, Bool.and_eq_true_iff, Bool.and_eq_true_iff,
    Bool.not_eq_true', he, hg, TypeView.isViolation_ofNamedType, and_assoc, and_assoc, and_assoc]

/-- The chain of early answers in `analyzeSymbol` is the conjunction of its gates. -/
theorem findings_symbolReport (c : Config) (s : Symbol) :
    ((Engine.new c).value.symbolReport s).findings = (s.warning? c).toList := by
  have h := (Engine.new c).value.judges_symbolReport s
  generalize (Engine.new c).value.symbolReport s = r at h
  cases h with
  | noType kind name => rfl
  | skipped ha =>
    have hv := violates_of_not_analyzes ha
    simp [Symbol.warning?, reported_iff_violates, hv]
  | clean ha hv => simp [Symbol.warning?, reported_iff_violates, hv]
  | suppressed ha hv hs => simp [Symbol.warning?, reported_iff_violates, hv, hs]
  | reported ha hv hs =>
    simp [Symbol.warning?, reported_iff_violates, hv, hs, TypeView.finding_ofNamedType]

theorem findings_report (c : Config) (symbols : List Symbol) :
    ((Engine.new c).value.report symbols).findings = symbols.filterMap (Symbol.warning? c) := by
  rw [findings_report_eq]
  simp only [findings_symbolReport]
  induction symbols with
  | nil => rfl
  | cons s ss ih =>
    rw [List.flatMap_cons, ih]
    cases hs : s.warning? c <;> simp [hs]

end Engine

/-- The findings are those of the reported types, in the order of the symbols and one for each
place, however the run is scheduled and however long it takes. -/
theorem findings_exactly_reported (c : Config) (symbols : List Symbol) :
    (∀ elapsed : Duration, ((Engine.new c).value.analyze symbols elapsed).value.findings =
        symbols.filterMap (Symbol.warning? c)) ∧
      ∀ work : Schedule symbols.length, ∃ r,
        (Engine.new c).value.run? symbols work = some r ∧
          r.findings = symbols.filterMap (Symbol.warning? c) := by
  have h := Engine.findings_report c symbols
  exact ⟨fun _ => h, fun work => ⟨_, Engine.run?_eq _ symbols work, h⟩⟩

end InitializerLint
