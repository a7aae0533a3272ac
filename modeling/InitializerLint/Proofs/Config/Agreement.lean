import InitializerLint.Proofs.Config.Presentation
import InitializerLint.Proofs.Yaml.Record

/-! Written settings read as YAML. -/
namespace InitializerLint

open Json (Document)
open Json.Document
open Yaml.Read (Reads)
open Yaml.Reader

section common

/-- All strings in settings. -/
def Config.texts (c : Config) : List String :=
  c.rules.disabled ++ c.rules.perType.flatMap fun e => e.1 :: e.2

theorem EngineOptions.common_toDocument (o : EngineOptions) : o.toDocument.Common := by
  refine .record (show _ = ["parallel", "jobs", "analyze_generated"] from rfl) (by decide) ?_
  simp only [List.forall_mem_cons]
  exact ⟨.bool o.parallel, .number o.jobs.toNat_lt, .bool o.analyzeGenerated, by simp⟩

theorem RuleOptions.common_toDocument (o : RuleOptions) : o.toDocument.Common := by
  refine .record (show _ = ["method_threshold"] from rfl) (by decide) ?_
  simp only [List.forall_mem_cons]
  exact ⟨.number o.methodThreshold.toNat_lt, by simp⟩

theorem common_textsDocument {texts : List String} (h : ∀ s ∈ texts, IsCommonText s) :
    (textsDocument texts).Common :=
  .list (List.forall_mem_map.mpr fun s hs => .text (h s hs))

theorem PerType.common_entries {m : PerType} (hkeys : ∀ e ∈ m, IsCommonKey e.1)
    (hids : ∀ e ∈ m, ∀ id ∈ e.2, IsCommonText id) :
    (Document.object (m.map fun e => (e.1, textsDocument e.2))).Common :=
  .object (List.forall_mem_map.mpr hkeys)
    (List.forall_mem_map.mpr fun e he => common_textsDocument (hids e he))

theorem RuleSelection.common_toDocument {o : RuleSelection}
    (hdisabled : ∀ s ∈ o.disabled, IsCommonText s) (hkeys : ∀ e ∈ o.perType, IsCommonKey e.1)
    (hids : ∀ e ∈ o.perType, ∀ id ∈ e.2, IsCommonText id) : o.toDocument.Common := by
  refine .record (show _ = ["disabled", "per_type"] from rfl) (by decide) ?_
  simp only [List.forall_mem_cons]
  exact ⟨common_textsDocument hdisabled, PerType.common_entries hkeys hids, by simp⟩

/-- Patterns are keys, so that their length counts. -/
theorem Config.common_toDocument {c : Config} (h : ∀ s ∈ c.texts, IsCommonText s)
    (hshort : ∀ e ∈ c.rules.perType, (e.1.toList.flatMap escapeChar).length ≤ 1000) :
    c.toDocument.Common := by
  simp only [texts, List.forall_mem_append, List.forall_mem_flatMap, List.forall_mem_cons] at h
  obtain ⟨hdisabled, hperType⟩ := h
  have hkeys : ∀ e ∈ c.rules.perType, IsCommonKey e.1 := fun e he =>
    .of_escaped (hperType e he).1 (hshort e he) (by decide)
  refine .record (show _ = ["engine", "rules", "static_initializer"] from rfl) (by decide) ?_
  simp only [List.forall_mem_cons]
  exact ⟨c.engine.common_toDocument,
    RuleSelection.common_toDocument hdisabled hkeys fun e he => (hperType e he).2,
    c.staticInitializer.common_toDocument, by simp⟩

end common

section read

open Data (Source)

variable (levels : Nat)

theorem EngineOptions.reads_toDocument (o : EngineOptions) :
    Reads (Yaml.Reader.record schema (levels + 1)) o.toDocument.nodes o :=
  reads_record <|
    .put (fun b => { parallel := b }) Source.flag rfl rfl (by simp) (reads_flag _ o.parallel) <|
    .put (fun n => { parallel := o.parallel, jobs := n }) Source.word rfl rfl (by simp)
      (reads_word _ o.jobs) <|
    .put (fun b => { parallel := o.parallel, jobs := o.jobs, analyzeGenerated := b }) Source.flag
      rfl rfl (by simp) (reads_flag _ o.analyzeGenerated) (.nil rfl)

theorem RuleOptions.reads_toDocument (o : RuleOptions) :
    Reads (Yaml.Reader.record schema (levels + 1)) o.toDocument.nodes o :=
  reads_record <|
    .put (fun n => { methodThreshold := n }) Source.word rfl rfl (by simp)
      (reads_word _ o.methodThreshold) (.nil rfl)

theorem reads_textsDocument (texts : List String) :
    Reads ((readTexts : Yaml.Reader (List String)) (levels + 1)) (textsDocument texts).nodes texts :=
  reads_list fun s _ => reads_text "a string" .doubleQuoted s

/-- The patterns are a map already, so that making one of them changes nothing. -/
theorem RuleSelection.reads_toDocument {o : RuleSelection} (h : o.perType.Distinct) :
    Reads (Yaml.Reader.record schema (levels + 3)) o.toDocument.nodes o := by
  have hentries := reads_entries (f := textsDocument) fun e (_ : e ∈ o.perType) =>
    reads_textsDocument levels e.2
  have hlast : ReadsFields (schema (m := Yaml.Reader)) (levels + 2) ["per_type", "disabled"]
      { disabled := o.disabled, perType := PerType.ofEntries o.perType } [] o := by
    rw [PerType.ofEntries_of_distinct h]
    exact .nil rfl
  exact reads_record <|
    .put (fun ids => { disabled := ids }) readTexts rfl rfl (by simp)
      (reads_textsDocument (levels + 1) o.disabled) <|
    .put (fun es => { disabled := o.disabled, perType := PerType.ofEntries es })
      (Source.entries readTexts) rfl rfl (by simp) hentries hlast

theorem Config.reads_toDocument {c : Config} (h : c.rules.perType.Distinct) :
    Reads ((Config.read : Yaml.Reader Config) (levels + 4)) c.toDocument.nodes c :=
  reads_record <|
    .put (fun o => { engine := o }) (Source.record EngineOptions.schema) rfl rfl (by simp)
      (c.engine.reads_toDocument (levels + 2)) <|
    .put (fun o => { engine := c.engine, rules := o }) (Source.record RuleSelection.schema) rfl rfl
      (by simp) (RuleSelection.reads_toDocument levels h) <|
    .put (fun o => { engine := c.engine, rules := c.rules, staticInitializer := o })
      (Source.record RuleOptions.schema) rfl rfl (by simp)
      (c.staticInitializer.reads_toDocument (levels + 2)) (.nil rfl)

/-- Settings written as text are read back from the text in each known format. -/
theorem Config.parse_toText {c : Config} (hd : c.rules.perType.Distinct) (hc : c.toDocument.Common)
    {extension : String} (h : extension ∈ ["json", "yaml", "yml"]) :
    parse extension c.toDocument.toText = .ok c := by
  have hyaml : Yaml.read Config.read c.toDocument.toText = .ok c :=
    Yaml.read_toText hc (reads_toDocument 124 hd)
  simp only [List.mem_cons, List.not_mem_nil, or_false] at h
  rcases h with rfl | rfl | rfl
  · exact (parse_json (writesDocument _)).1 c (presents_toDocument hd)
  · simp only [parse, hyaml]
    rfl
  · simp only [parse, hyaml]
    rfl

end read
end InitializerLint
