import InitializerLint.Proofs.Engine.Findings

/-! Messages and the names of the types they are about: two findings read alike exactly where their
types are named alike. -/
namespace InitializerLint

/-- The types that are reported, in the order of the symbols. -/
def Config.reportedTypes (c : Config) (symbols : List Symbol) : List NamedType :=
  (symbols.filterMap Symbol.namedType?).filter fun t => Reported c t

/-- Findings about types, one for each and in their order, that read alike exactly where the names
of the types are equal. -/
structure ToldApart (ts : List NamedType) (fs : List Finding) (us : List NamedType)
    (gs : List Finding) : Prop where
  eq_map : fs = ts.map fun t => (TypeView.ofNamedType t).finding
  eq_map' : gs = us.map fun u => (TypeView.ofNamedType u).finding
  message_eq_iff {i j : Nat} {t u : NamedType} {f g : Finding} :
    ts[i]? = some t → fs[i]? = some f → us[j]? = some u → gs[j]? = some g →
      (f.message = g.message ↔ t.displayName = u.displayName)

theorem formatMessage_injective : Function.Injective staticInitializerRule.formatMessage := by
  intro name name' h
  rw [formatMessage_eq, formatMessage_eq] at h
  exact (String.append_left_inj warningTail).mp h

theorem toldApart_map (ts us : List NamedType) :
    ToldApart ts (ts.map fun t => (TypeView.ofNamedType t).finding)
      us (us.map fun u => (TypeView.ofNamedType u).finding) where
  eq_map := rfl
  eq_map' := rfl
  message_eq_iff {i j t u f g} ht hf hu hg := by
    rw [List.getElem?_map, ht] at hf
    rw [List.getElem?_map, hu] at hg
    obtain rfl := Option.some.inj hf
    obtain rfl := Option.some.inj hg
    exact formatMessage_injective.eq_iff

namespace Engine

theorem findings_report_eq_map (c : Config) (symbols : List Symbol) :
    ((Engine.new c).value.report symbols).findings =
      (c.reportedTypes symbols).map fun t => (TypeView.ofNamedType t).finding := by
  rw [findings_report, Config.reportedTypes]
  induction symbols with
  | nil => rfl
  | cons s ss ih =>
    cases s with
    | other kind name => exact ih
    | namedType t =>
      by_cases h : Reported c t <;>
        simp [Symbol.warning?, Symbol.namedType?, h, ih, TypeView.finding_ofNamedType]

end Engine

/-- A message is its template with the name put in for each placeholder and searched no further,
and what the rule reports is told apart by the names of the types. -/
theorem messages_spell_names :
    (∀ r : RuleDescriptor, ∃ pieces,
        (∀ ps, CutsInto r.messageFormat.toList ps ↔ ps = pieces) ∧
          ∀ name : String, (r.formatMessage name).toList = name.toList.intercalate pieces) ∧
      (∀ name, staticInitializerRule.formatMessage name = name ++ warningTail) ∧
      Function.Injective staticInitializerRule.formatMessage ∧
      ∀ (c d : Config) (xs ys : List Symbol) (work : Schedule xs.length)
        (work' : Schedule ys.length),
        ∃ r s, (Engine.new c).value.run? xs work = some r ∧
          (Engine.new d).value.run? ys work' = some s ∧
          ToldApart (c.reportedTypes xs) r.findings (d.reportedTypes ys) s.findings := by
  refine ⟨fun r => ?_, formatMessage_eq, formatMessage_injective, fun c d xs ys work work' => ?_⟩
  · obtain ⟨pieces, hpieces⟩ := CutsInto.exists_cutsInto r.messageFormat.toList
    refine ⟨pieces, fun ps => ?_, RuleDescriptor.toList_formatMessage hpieces⟩
    constructor
    · exact fun hps => hps.unique hpieces
    · rintro rfl
      exact hpieces
  · refine ⟨_, _, Engine.run?_eq _ xs work, Engine.run?_eq _ ys work', ?_⟩
    rw [Engine.findings_report_eq_map, Engine.findings_report_eq_map]
    exact toldApart_map _ _

/-- A type that is reported as soon as no static method is tolerated. -/
def smallInitializer (name : String) : NamedType where
  displayName := name
  constructors := [⟨true, false⟩]
  members := [⟨"M", .method, true⟩]

/-- The placeholder that the name completes is not filled in, and neither is one in the name. -/
theorem messages_spell_names_nested :
    let rule : RuleDescriptor := { staticInitializerRule with messageFormat := "{{0}} {0}" }
    let c : Config := { staticInitializer := ⟨0⟩ }
    let xs : List Symbol := [.other .event "B", .namedType (smallInitializer "A")]
    let ys : List Symbol := [.namedType (smallInitializer "B"), .namedType (smallInitializer "A")]
    rule.formatMessage "0" = "{0} 0" ∧ rule.formatMessage "{0}" = "{{0}} {0}" ∧
      ∃ r s f g g', (Engine.new c).value.run? xs ⟨_, .refl _⟩ = some r ∧
        (Engine.new c).value.run? ys ⟨_, .refl _⟩ = some s ∧
        r.findings = [f] ∧ s.findings = [g, g'] ∧
        f.message ≠ g.message ∧ f.message = g'.message := by
  intro rule c xs ys
  obtain ⟨hformat, -, -, hruns⟩ := messages_spell_names
  obtain ⟨pieces, hpieces, hmessage⟩ := hformat rule
  have htemplate : rule.messageFormat.toList =
      ['{'] ++ (placeholder ++ (['}', ' '] ++ (placeholder ++ []))) := by decide +kernel
  have hcut : CutsInto rule.messageFormat.toList [['{'], ['}', ' '], []] := by
    rw [htemplate]
    exact .next (by decide) (.next (by decide) .nil)
  obtain rfl := (hpieces _).mp hcut
  have hA : Reported c (smallInitializer "A") := by decide
  have hB : Reported c (smallInitializer "B") := by decide
  have hxs : c.reportedTypes xs = [smallInitializer "A"] := by
    simp [Config.reportedTypes, xs, List.filterMap_cons, Symbol.namedType?, hA]
  have hys : c.reportedTypes ys = [smallInitializer "B", smallInitializer "A"] := by
    simp [Config.reportedTypes, ys, Symbol.namedType?, hA, hB]
  obtain ⟨r, s, hr, hs, htold⟩ := hruns c c xs ys ⟨_, .refl _⟩ ⟨_, .refl _⟩
  rw [hxs, hys] at htold
  have hf := htold.eq_map
  have hg := htold.eq_map'
  refine ⟨String.toList_inj.mp (hmessage "0"), String.toList_inj.mp (hmessage "{0}"),
    r, s, _, _, _, hr, hs, hf, hg, ?_, ?_⟩
  · have h := htold.message_eq_iff (i := 0) (j := 0) rfl (by rw [hf]; rfl) rfl (by rw [hg]; rfl)
    exact fun heq => absurd (h.mp heq) (by decide)
  · have h := htold.message_eq_iff (i := 0) (j := 1) rfl (by rw [hf]; rfl) rfl (by rw [hg]; rfl)
    exact h.mpr rfl

end InitializerLint
