import InitializerLint.Proofs.Config.Agreement
import InitializerLint.Proofs.Symbol.Agreement

/-! Compact JSON text without characters beyond printable ASCII, escaped ones apart, means the same to
both readers. -/
namespace InitializerLint

open Json.Document (escapeChar)

/-- A key longer than 1024 characters is no key to YAML, and patterns are the only keys a user
chooses. -/
theorem yaml_agrees_with_json :
    (∀ t : SymbolTable, (∀ s ∈ t.texts, IsCommonText s) →
      SymbolTable.ofYaml t.toDocument.toText = .ok t ∧
        SymbolTable.ofJson t.toDocument.toText = .ok t) ∧
    ∀ c : Config, c.rules.perType.Distinct → (∀ s ∈ c.texts, IsCommonText s) →
      (∀ e ∈ c.rules.perType, (e.1.toList.flatMap escapeChar).length ≤ 1000) →
      ∀ (files : Files.Tree) (path : String),
        Files.fileExtension path ∈ ["json", "yaml", "yml"] →
        files.readText path = .ok c.toDocument.toText → (Config.load files path).value = .ok c := by
  refine ⟨fun t ht => ⟨SymbolTable.ofYaml_toText ht, ?_⟩, ?_⟩
  · have hwithin : t.toDocument.tree.Within Json.levels := t.within_toDocument 122
    exact (SymbolTable.ofJson_eq_ok (Json.Document.writesDocument _) hwithin t).mpr t.presents_toDocument
  · intro c hd hc hshort files path hext htext
    rw [Config.value_load htext]
    exact Config.parse_toText hd (Config.common_toDocument hc hshort) hext

theorem yaml_agrees_with_json_awkward :
    let table : SymbolTable := ⟨[
      .namedType {
        displayName := "- a: \"b\" # \\\n"
        members := [⟨": ", .field, true⟩]
        locations := [⟨"\x00~", 18446744073709551615, 0, 7⟩] },
      .other .event "   ", .other .property "true"]⟩
    let settings : Config := {
      engine := { jobs := 18446744073709551615 }
      rules := { disabled := ["", "0x1F"], perType := [("? *: \x7b[,\t", ["all"]), ("null", [])] } }
    let files := ({} : Files.Tree).insert "x.yml" (.file settings.toDocument.toText.toUTF8)
    SymbolTable.ofYaml table.toDocument.toText = .ok table ∧
      (Config.load files "x.yml").value = .ok settings := by
  intro table settings files
  have hcommon : ∀ s ∈ table.texts, IsCommonText s := by decide
  have htexts : ∀ s ∈ settings.texts, IsCommonText s := by decide
  have hshort : ∀ e ∈ settings.rules.perType, (e.1.toList.flatMap escapeChar).length ≤ 1000 := by decide
  have hread : files.readText "x.yml" = .ok settings.toDocument.toText :=
    Files.Tree.readText_of_file (p := .ofPath "x.yml") rfl rfl
  exact ⟨(yaml_agrees_with_json.1 table hcommon).1, yaml_agrees_with_json.2 settings (by decide) htexts
    hshort files "x.yml" (by decide) hread⟩

end InitializerLint
