import InitializerLint.Proofs.Symbol.Presentation
import InitializerLint.Proofs.Yaml.Record

/-! Written symbol tables read as YAML. A symbol is kept whole before it is decoded, in both formats,
so that the data kept is what has to agree. -/
namespace InitializerLint

open Json (Document Tree)
open Json.Document
open Yaml.Read (Reads)

/-- The data kept of a document is the data its tree stands for. -/
theorem Json.Document.value?_tree {d : Document} (h : d.Common) : d.tree.value? = some d.value := by
  induction h with
  | null => rfl
  | bool => rfl
  | @number n hn =>
    have hword := Tree.value?_eq_unsigned.mpr (isWord_tree (.ofNat n))
    rwa [UInt64.toNat_ofNat_of_lt' hn] at hword
  | @text s _ => exact Tree.value?_eq_text.mpr (isText_tree s)
  | @list ds _ ih =>
    refine Tree.value?_eq_list.mpr ⟨_, rfl, ?_⟩
    rw [itemTrees_eq, itemValues_eq, Json.TreeReader.mapM_eq_some, List.forall₂_map_left_iff,
      List.forall₂_map_right_iff, List.forall₂_same]
    exact ih
  | @object es _ _ ih =>
    refine Tree.value?_eq_map.mpr ⟨_, rfl, ?_⟩
    rw [entryTrees_eq, entryValues_eq, Tree.entryValues?_eq_some, List.forall₂_map_left_iff,
      List.forall₂_map_right_iff, List.forall₂_same]
    exact fun e he => ⟨e.1, Json.Spelling.text?_ofText e.1, rfl, ih e he⟩

section texts

def Location.texts (l : Location) : List String := [l.file]

def Member.texts (m : Member) : List String := [m.name]

def Symbol.texts : Symbol → List String
  | .namedType t => t.displayName :: (t.members.flatMap (·.texts) ++ t.locations.flatMap (·.texts))
  | .other _ name => [name]

/-- All strings in a table. -/
def SymbolTable.texts (t : SymbolTable) : List String := t.symbols.flatMap (·.texts)

end texts

section common

theorem Location.common_toDocument {l : Location} (h : ∀ s ∈ l.texts, IsCommonText s) :
    l.toDocument.Common := by
  refine .record (show _ = ["file", "line", "column", "length"] from rfl) (by decide) ?_
  simp only [List.forall_mem_cons]
  exact ⟨.text (h _ (by simp [texts])), .number l.line.toNat_lt, .number l.column.toNat_lt,
    .number l.length.toNat_lt, by simp⟩

theorem Constructor.common_toDocument (c : Constructor) : c.toDocument.Common := by
  refine .record (show _ = ["is_static", "is_implicitly_declared"] from rfl) (by decide) ?_
  simp only [List.forall_mem_cons]
  exact ⟨.bool c.isStatic, .bool c.isImplicitlyDeclared, by simp⟩

theorem MemberKind.isCommonText (k : MemberKind) : IsCommonText k.text := by
  cases k <;> decide

theorem SymbolKind.isCommonText (k : SymbolKind) : IsCommonText k.text := by
  cases k with
  | namedType => decide
  | other k => cases k <;> decide

theorem Member.common_toDocument {m : Member} (h : ∀ s ∈ m.texts, IsCommonText s) :
    m.toDocument.Common := by
  refine .record (show _ = ["name", "kind", "is_static"] from rfl) (by decide) ?_
  simp only [List.forall_mem_cons]
  exact ⟨.text (h _ (by simp [texts])), .text m.kind.isCommonText, .bool m.isStatic, by simp⟩

/-- The entries of a symbol after its kind. -/
def Symbol.entries : Symbol → List (String × Document)
  | .namedType t => [
      ("display_name", .text t.displayName),
      ("constructors", .list (t.constructors.map (·.toDocument))),
      ("members", .list (t.members.map (·.toDocument))),
      ("locations", .list (t.locations.map (·.toDocument))),
      ("is_generated", .bool t.isGenerated)]
  | .other _ name => [("name", .text name)]

theorem Symbol.toDocument_eq (s : Symbol) :
    s.toDocument = .object (("kind", .text s.kind.text) :: s.entries) := by
  cases s <;> rfl

theorem Symbol.common_entries {s : Symbol} (h : ∀ t ∈ s.texts, IsCommonText t) :
    (Document.object s.entries).Common := by
  cases s with
  | namedType t =>
    simp only [texts, List.forall_mem_cons, List.forall_mem_append, List.forall_mem_flatMap] at h
    obtain ⟨hname, hmembers, hlocations⟩ := h
    refine .record (show _ = ["display_name", "constructors", "members", "locations", "is_generated"]
      from rfl) (by decide) ?_
    simp only [entries, List.forall_mem_cons]
    refine ⟨.text hname, .list ?_, .list ?_, .list ?_, .bool t.isGenerated, by simp⟩
    · exact List.forall_mem_map.mpr fun c _ => c.common_toDocument
    · exact List.forall_mem_map.mpr fun m hm => Member.common_toDocument (hmembers m hm)
    · exact List.forall_mem_map.mpr fun l hl => Location.common_toDocument (hlocations l hl)
  | other k name =>
    refine .record (show _ = ["name"] from rfl) (by decide) ?_
    simpa [entries] using Document.Common.text (h name (by simp [texts]))

theorem Symbol.common_toDocument {s : Symbol} (h : ∀ t ∈ s.texts, IsCommonText t) :
    s.toDocument.Common := by
  rw [toDocument_eq]
  cases common_entries h with
  | object hkeys hvalues =>
    have hkind : IsCommonKey "kind" := by decide
    exact .object (List.forall_mem_cons.mpr ⟨hkind, hkeys⟩)
      (List.forall_mem_cons.mpr ⟨.text s.kind.isCommonText, hvalues⟩)

theorem SymbolTable.common_toDocument {t : SymbolTable} (h : ∀ s ∈ t.texts, IsCommonText s) :
    t.toDocument.Common := by
  rw [texts, List.forall_mem_flatMap] at h
  refine .record (show _ = ["symbols"] from rfl) (by decide) ?_
  simp only [List.forall_mem_cons]
  exact ⟨.list (List.forall_mem_map.mpr fun s hs => Symbol.common_toDocument (h s hs)), by simp⟩

end common

section read

theorem Symbol.entries_ne_kind (s : Symbol) : ∀ e ∈ s.entries, e.1 ≠ "kind" := by
  cases s <;> simp [entries]

/-- The data kept of a symbol is decoded to the symbol. -/
theorem Symbol.decode_entries {s : Symbol} (h : (Document.object s.entries).Common) :
    decode s.kind (Document.object s.entries).value = .ok s := by
  obtain ⟨hr, hf⟩ := s.presentedBy_toDocument
  have hothers : Tree.others "kind" (entryTrees (("kind", .text s.kind.text) :: s.entries)) =
      entryTrees s.entries := by
    have hkeys : ∀ e ∈ entryTrees s.entries, Json.Spelling.text? e.1 ≠ some "kind" := by
      rw [entryTrees_eq, List.forall_mem_map]
      intro e he
      rw [Json.Spelling.text?_ofText, Ne, Option.some_inj]
      exact s.entries_ne_kind e he
    rw [entryTrees, Tree.others, List.filter_cons_of_neg (by simp [Json.Spelling.text?_ofText]),
      List.filter_eq_self]
    simpa using hkeys
  rw [toDocument_eq, tree] at hr hf
  obtain ⟨k, rest, hsplits, -, hrest, hfills⟩ := Tree.exists_splits s.name_ne_kind hr hf
  cases hsplits with
  | object hkeys hunder =>
    rw [hothers] at hrest hfills
    have hdecode := (buffered_decode s.kind (Document.object s.entries).tree s).mpr ⟨rfl, hrest, hfills⟩
    obtain ⟨v, hv, hd⟩ := Json.TreeReader.buffered_eq_some.mp hdecode
    rw [value?_tree h, Option.some_inj] at hv
    rwa [hv]

theorem Symbol.reads_toDocument {s : Symbol} (h : ∀ t ∈ s.texts, IsCommonText t) (levels : Nat) :
    Reads ((Symbol.read : Yaml.Reader Symbol) (levels + 3)) s.toDocument.nodes s := by
  have hcommon := common_entries h
  have hdecode := decode_entries hcommon
  have hwithin := s.within_toDocument levels
  rw [toDocument_eq] at hwithin ⊢
  have hname : SymbolKind.variants.lookup s.kind.text = some s.kind :=
    (SymbolKind.lookup_variants _ _).mpr rfl
  have hentries : ∀ e ∈ s.entries, e.2.Common ∧ e.2.tree.Within (levels + 2) := by
    cases hcommon with
    | object _ hvalues =>
      rw [tree, entryTrees_eq] at hwithin
      have hdepth := (List.forall_mem_cons.mp (List.forall_mem_map.mp hwithin)).2
      exact fun e he => ⟨hvalues e he, hdepth e he⟩
  have htagged := Yaml.Reader.reads_tagged hname s.entries_ne_kind hentries
    "internally tagged enum Symbol"
  refine Yaml.Reader.reads_check htagged ?_
  rw [value] at hdecode
  simp only [hdecode]
  exact Reads.pure s

/-- A table written as text is read back from the text as YAML. -/
theorem SymbolTable.ofYaml_toText {t : SymbolTable} (h : ∀ s ∈ t.texts, IsCommonText s) :
    ofYaml t.toDocument.toText = .ok t := by
  have hsymbols : ∀ s ∈ t.symbols, ∀ text ∈ s.texts, IsCommonText text := by
    rw [texts, List.forall_mem_flatMap] at h
    exact h
  have hlist := Yaml.Reader.reads_list (f := Symbol.toDocument) fun s hs =>
    Symbol.reads_toDocument (hsymbols s hs) 123
  have hread : Reads ((SymbolTable.read : Yaml.Reader SymbolTable) Yaml.levels) t.toDocument.nodes t :=
    Yaml.Reader.reads_record (.cons rfl (by simp) (hlist.map SymbolTable.mk) (.nil rfl))
  have hc := common_toDocument h
  have htext : Yaml.read SymbolTable.read t.toDocument.toText = .ok t := Yaml.read_toText hc hread
  rw [ofYaml, htext]
  rfl

end read
end InitializerLint
