import InitializerLint.Config.Write
import InitializerLint.Proofs.Config.Format
import InitializerLint.Proofs.Files.Tree
import InitializerLint.Proofs.Json.Render

/-! Written settings present the settings they were written from. -/
namespace InitializerLint

open Json (Document Tree)
open Json.Document

theorem EngineOptions.keeps_toDocument (o : EngineOptions) : o.toDocument.tree.Keeps specs o :=
  Tree.keeps_specs
    (.cons (entry (isFlag_tree o.parallel) rfl) <|
    .cons (entry (isWord_tree o.jobs) (isWord_tree o.jobs).readable) <|
    .cons (entry (isFlag_tree o.analyzeGenerated) rfl) .nil) describes.nodup

theorem RuleOptions.keeps_toDocument (o : RuleOptions) : o.toDocument.tree.Keeps specs o :=
  Tree.keeps_specs
    (.cons (entry (isWord_tree o.methodThreshold) (isWord_tree o.methodThreshold).readable) .nil)
    describes.nodup

theorem isList_textsDocument (texts : List String) :
    (textsDocument texts).tree.IsList Tree.IsText texts :=
  isList_tree isText_tree texts

theorem readable_textsDocument (texts : List String) : (textsDocument texts).tree.Readable :=
  readable_list_tree (fun s => (isText_tree s).readable) texts

/-- Entries that form a map are read as the map they form. -/
theorem PerType.meantBy_tree {m : PerType} (h : m.Distinct) :
    MeantBy (Document.object (m.map fun e => (e.1, textsDocument e.2))).tree m := by
  refine ⟨m, ⟨_, rfl, ?_⟩, (ofEntries_of_distinct h).symm⟩
  rw [entryTrees_eq, List.map_map, List.forall₂_map_left_iff, List.forall₂_same]
  exact fun e _ => ⟨Json.Spelling.text?_ofText e.1, isList_textsDocument e.2⟩

theorem PerType.readable_tree (m : PerType) :
    (Document.object (m.map fun e => (e.1, textsDocument e.2))).tree.Readable := by
  rw [tree, entryTrees_eq, List.map_map, Tree.readable_object, List.forall_mem_map]
  intro e _
  refine ⟨?_, readable_textsDocument e.2⟩
  change (Json.Spelling.text? (.ofText e.1)).isSome
  rw [Json.Spelling.text?_ofText]
  rfl

theorem RuleSelection.keeps_toDocument {o : RuleSelection} (h : o.perType.Distinct) :
    o.toDocument.tree.Keeps specs o :=
  Tree.keeps_specs
    (.cons (entry (isList_textsDocument o.disabled) (readable_textsDocument o.disabled)) <|
    .cons (entry (PerType.meantBy_tree h) (PerType.readable_tree o.perType)) .nil) describes.nodup

theorem Config.presents_toDocument {c : Config} (h : c.rules.perType.Distinct) :
    c.toDocument.tree.Presents specs c := by
  have hrules := RuleSelection.keeps_toDocument h
  have hc : c.toDocument.tree.Keeps specs c := Tree.keeps_specs
    (.cons (entry c.engine.keeps_toDocument.2 c.engine.keeps_toDocument.1) <|
    .cons (entry hrules.2 hrules.1) <|
    .cons (entry c.staticInitializer.keeps_toDocument.2 c.staticInitializer.keeps_toDocument.1) .nil)
    describes.nodup
  exact hc.2

theorem Files.Tree.readText_of_file {files : Files.Tree} {path text : String} {p : Files.Place}
    (hp : files.locate path = .ok p) (hf : files.entryAt? p = some (.file text.toUTF8)) :
    files.readText path = .ok text := by
  have hentry : files.entry? path = some (.file text.toUTF8) := by
    unfold entry?
    rw [hp]
    exact hf
  rw [readText_of_entry hentry, Entry.text_toUTF8]

/-- A file that can be read is worth what its text is worth in the format of its name. -/
theorem Config.value_load {files : Files.Tree} {path text : String}
    (h : files.readText path = .ok text) :
    (load files path).value = parse (Files.fileExtension path) text := by
  unfold load
  rw [h]
  dsimp only
  cases parse (Files.fileExtension path) text <;> rfl

end InitializerLint
