import InitializerLint.Config.Suppressions
import Mathlib.Data.List.Perm.Basic

/-! What a table of suppressions means: a name is suppressed by the entries that concern the rule
and are globs, one by one. Neither the order of the entries nor any other entry matters. -/
namespace InitializerLint.Suppressions

/-- The entry names the rule, or every rule. -/
def Concerns (ruleId : String) (e : String × List String) : Prop := ∃ id ∈ e.2, id = "all" ∨ id = ruleId

/-- The entry is written as `g`. -/
def IsGlob (e : String × List String) (g : Glob) : Prop := Glob.parse e.1 = .ok g

/-- The one record on an entry that concerns the rule but is no glob. -/
def complaint? (ruleId : String) (e : String × List String) : Option Log.Record :=
  match concerns e.2 ruleId, Glob.parse e.1 with
  | true, .error f => some ⟨.warn, faultMessage e.1 f⟩
  | _, _ => none

/-- The glob of an entry that concerns the rule. -/
def glob? (ruleId : String) (e : String × List String) : Option Glob :=
  if concerns e.2 ruleId then (Glob.parse e.1).toOption else none

theorem concerns_iff (ruleId : String) (e : String × List String) :
    concerns e.2 ruleId = true ↔ Concerns ruleId e := by simp [concerns, Concerns]

theorem glob?_eq_some {ruleId : String} {e : String × List String} {g : Glob} :
    glob? ruleId e = some g ↔ Concerns ruleId e ∧ IsGlob e g := by
  rw [← concerns_iff, IsGlob, glob?, Option.ite_none_right_eq_some]
  cases Glob.parse e.1 <;> simp [Except.toOption]

theorem complaint?_eq_some {ruleId : String} {e : String × List String} {r : Log.Record} :
    complaint? ruleId e = some r ↔ Concerns ruleId e ∧
      ∃ f, Glob.parse e.1 = .error f ∧ r = ⟨.warn, faultMessage e.1 f⟩ := by
  rw [← concerns_iff, complaint?]
  cases concerns e.2 ruleId <;> cases Glob.parse e.1 <;> simp [eq_comm]

/-- Each entry is judged by itself. -/
theorem collect_eq (ruleId : String) (entries : PerType) : collect ruleId entries =
    ⟨entries.filterMap (glob? ruleId), entries.filterMap (complaint? ruleId)⟩ := by
  induction entries with
  | nil => rfl
  | cons e es ih =>
    unfold collect
    by_cases hc : concerns e.2 ruleId = true
    · cases hp : Glob.parse e.1 with
      | ok g =>
        have hg : glob? ruleId e = some g := by simp [glob?, hc, hp, Except.toOption]
        have hr : complaint? ruleId e = none := by simp [complaint?, hc, hp]
        rw [if_pos hc, List.filterMap_cons_some hg, List.filterMap_cons_none hr, ih]
        rfl
      | error f =>
        have hg : glob? ruleId e = none := by simp [glob?, hp, Except.toOption]
        have hr : complaint? ruleId e = some ⟨.warn, faultMessage e.1 f⟩ := by
          simp [complaint?, hc, hp]
        rw [if_pos hc, List.filterMap_cons_none hg, List.filterMap_cons_some hr, ih]
        rfl
    · have hg : glob? ruleId e = none := by simp [glob?, hc]
      have hr : complaint? ruleId e = none := by simp [complaint?, hc]
      rw [if_neg hc, List.filterMap_cons_none hg, List.filterMap_cons_none hr, ih]

theorem compileFault?_eq_none {globs : List Glob} (h : ∀ g ∈ globs, g.compiles = true) :
    compileFault? globs = none := by
  have hnone : globs.filter (fun g => !g.compiles) = [] := by simpa using h
  simp [compileFault?, hnone]

/-- All globs that would be in force can be compiled. -/
def Compile (ruleId : String) (entries : PerType) : Prop :=
  ∀ e ∈ entries, Concerns ruleId e → ∀ g, IsGlob e g → g.compiles = true

instance (ruleId : String) (entries : PerType) : Decidable (Compile ruleId entries) :=
  decidable_of_iff (∀ e ∈ entries, ∀ g ∈ glob? ruleId e, g.compiles = true) <| by
    simp only [Compile, Option.mem_def, glob?_eq_some, and_imp]
    exact forall₂_congr fun e _ => ⟨fun h hc g => h g hc, fun h g hc => h hc g⟩

section build

variable {ruleId : String} {entries : PerType}

theorem Compile.subset {order : PerType} (h : Compile ruleId entries) (hs : order ⊆ entries) :
    Compile ruleId order := fun e he => h e (hs he)

theorem build_eq (h : Compile ruleId entries) : build entries ruleId =
    ⟨⟨entries.filterMap (glob? ruleId)⟩, entries.filterMap (complaint? ruleId)⟩ := by
  have hfault : compileFault? (entries.filterMap (glob? ruleId)) = none := by
    refine compileFault?_eq_none fun g hg => ?_
    obtain ⟨e, he, hge⟩ := List.mem_filterMap.mp hg
    obtain ⟨hc, hparse⟩ := glob?_eq_some.mp hge
    exact h e he hc g hparse
  unfold build Logged.bind
  simp only [collect_eq, hfault, Logged.value_silent, Logged.log_silent, List.append_nil]

theorem isSuppressed_build (h : Compile ruleId entries) (name : String) :
    (build entries ruleId).value.isSuppressed name = true ↔
      ∃ e ∈ entries, Concerns ruleId e ∧ ∃ g, IsGlob e g ∧ g.matchesName name.toList = true := by
  rw [build_eq h, isSuppressed, List.any_eq_true]
  simp only [List.mem_filterMap, glob?_eq_some]
  constructor
  · rintro ⟨g, ⟨e, he, hc, hg⟩, hm⟩
    exact ⟨e, he, hc, g, hg, hm⟩
  · rintro ⟨e, he, hc, g, hg, hm⟩
    exact ⟨g, ⟨e, he, hc, hg⟩, hm⟩

theorem isEmpty_build (h : Compile ruleId entries) :
    (build entries ruleId).value.isEmpty = true ↔
      ¬∃ e ∈ entries, Concerns ruleId e ∧ ∃ g, IsGlob e g := by
  rw [build_eq h, isEmpty, List.isEmpty_iff, List.filterMap_eq_nil_iff]
  simp only [Option.eq_none_iff_forall_ne_some, ne_eq, glob?_eq_some]
  constructor
  · rintro hn ⟨e, he, hc, g, hg⟩
    exact hn e he g ⟨hc, hg⟩
  · intro hn e he g h
    exact hn ⟨e, he, h.1, g, h.2⟩

end build

/-- In whatever order the entries are gone through, what is suppressed is told by the entries that
concern the rule and are globs; each entry that concerns the rule and is no glob is reported once,
and leaving out entries that are not in force changes no answer. -/
theorem suppressions_by_entries (entries : PerType) (ruleId : String)
    (hcompile : Compile ruleId entries) (order : PerType) (horder : order.Perm entries) :
    (∀ name, (build order ruleId).value.isSuppressed name = true ↔
      ∃ e ∈ entries, Concerns ruleId e ∧ ∃ g, IsGlob e g ∧ g.matchesName name.toList = true) ∧
    ((build order ruleId).value.isEmpty = true ↔
      ¬∃ e ∈ entries, Concerns ruleId e ∧ ∃ g, IsGlob e g) ∧
    (build order ruleId).log = order.filterMap (complaint? ruleId) ∧
    (∀ e r, complaint? ruleId e = some r ↔ Concerns ruleId e ∧
      ∃ f, Glob.parse e.1 = .error f ∧ r = ⟨.warn, faultMessage e.1 f⟩) ∧
    ∀ keep : String × List String → Bool,
      (∀ e ∈ entries, Concerns ruleId e → (∃ g, IsGlob e g) → keep e = true) →
        (∀ name, (build (order.filter keep) ruleId).value.isSuppressed name =
          (build order ruleId).value.isSuppressed name) ∧
        (build (order.filter keep) ruleId).value.isEmpty = (build order ruleId).value.isEmpty := by
  have hc : Compile ruleId order := hcompile.subset horder.subset
  refine ⟨fun name => ?_, ?_, by rw [build_eq hc], fun e r => complaint?_eq_some, fun keep hkeep => ?_⟩
  · rw [isSuppressed_build hc]
    simp only [horder.mem_iff]
  · rw [isEmpty_build hc]
    simp only [horder.mem_iff]
  · have hk : Compile ruleId (order.filter keep) := hc.subset (List.filter_subset_self _)
    have hmem {P : String × List String → Prop}
        (hP : ∀ e, P e → Concerns ruleId e ∧ ∃ g, IsGlob e g) :
        (∃ e ∈ order.filter keep, P e) ↔ ∃ e ∈ order, P e := by
      refine exists_congr fun e => ?_
      rw [List.mem_filter, and_assoc]
      refine and_congr_right fun he => and_iff_right_of_imp fun hpe => ?_
      exact hkeep e (horder.mem_iff.mp he) (hP e hpe).1 (hP e hpe).2
    refine ⟨fun name => ?_, ?_⟩
    · rw [Bool.eq_iff_iff, isSuppressed_build hk, isSuppressed_build hc]
      exact hmem fun e ⟨hce, g, hg, _⟩ => ⟨hce, g, hg⟩
    · rw [Bool.eq_iff_iff, isEmpty_build hk, isEmpty_build hc]
      exact not_congr (hmem fun e h => h)

/-- A faulty entry in front and a foreign one behind leave the one between them in force. -/
theorem suppressions_by_entries_mixed :
    (build [("[", ["all"]), ("Legacy.*", ["UNOM0003"]), ("[z-a]", ["OTHER"])]
      "UNOM0003").value.isSuppressed "Legacy.Foo" = true := by
  have hperm : List.Perm [("[", ["all"]), ("Legacy.*", ["UNOM0003"]), ("[z-a]", ["OTHER"])]
      [("Legacy.*", ["UNOM0003"]), ("[", ["all"]), ("[z-a]", ["OTHER"])] := .swap _ _ _
  have h := suppressions_by_entries
    [("Legacy.*", ["UNOM0003"]), ("[", ["all"]), ("[z-a]", ["OTHER"])] "UNOM0003" (by decide +kernel)
    _ hperm
  obtain ⟨g, hg⟩ : ∃ g, Glob.parse "Legacy.*" = .ok g := ⟨_, rfl⟩
  have hm : (Glob.parse "Legacy.*").toOption.all (·.matchesName "Legacy.Foo".toList) = true := by
    decide +kernel
  rw [hg] at hm
  exact (h.1 "Legacy.Foo").mpr ⟨("Legacy.*", ["UNOM0003"]), by simp, ⟨_, by simp, .inr rfl⟩, g, hg, hm⟩

end InitializerLint.Suppressions
