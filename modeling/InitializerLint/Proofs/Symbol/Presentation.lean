import InitializerLint.Proofs.Json.Render
import InitializerLint.Proofs.Symbol.Format
import InitializerLint.Symbol.Write

/-! A written table is one presentation of the table, and every presentation is read back. -/
namespace InitializerLint

open Json (Document FieldSpec Slot Spelling Tree)
open Json.Document

theorem Location.keeps_toDocument (l : Location) : l.toDocument.tree.Keeps specs l :=
  Tree.keeps_specs
    (.cons (entry (isText_tree l.file) (isText_tree l.file).readable) <|
    .cons (entry (isWord_tree l.line) (isWord_tree l.line).readable) <|
    .cons (entry (isWord_tree l.column) (isWord_tree l.column).readable) <|
    .cons (entry (isWord_tree l.length) (isWord_tree l.length).readable) .nil) describes.nodup

theorem Constructor.keeps_toDocument (c : Constructor) : c.toDocument.tree.Keeps specs c :=
  Tree.keeps_specs
    (.cons (entry (isFlag_tree c.isStatic) rfl) <|
    .cons (entry (isFlag_tree c.isImplicitlyDeclared) rfl) .nil) describes.nodup

theorem Member.keeps_toDocument (m : Member) : m.toDocument.tree.Keeps specs m := by
  have hkind : (Document.text m.kind.text).tree.IsChoice MemberKind.variants m.kind :=
    ⟨m.kind.text, (MemberKind.lookup_variants _ _).mpr rfl, .inl (isText_tree m.kind.text)⟩
  exact Tree.keeps_specs
    (.cons (entry (isText_tree m.name) (isText_tree m.name).readable) <|
    .cons (entry hkind (isText_tree m.kind.text).readable) <|
    .cons (entry (isFlag_tree m.isStatic) rfl) .nil) describes.nodup

theorem Symbol.presentedBy_toDocument (s : Symbol) : s.PresentedBy s.toDocument.tree := by
  cases s with
  | namedType t =>
    refine Tree.keeps_entries
      (.cons (entry (isText_tree _) (isText_tree _).readable) <|
      .cons (entry (isText_tree _) (isText_tree t.displayName).readable) <|
      .cons (entry (isList_tree Constructor.keeps_toDocument t.constructors)
        (readable_list_tree (fun c => c.keeps_toDocument.1) _)) <|
      .cons (entry (isList_tree Member.keeps_toDocument t.members)
        (readable_list_tree (fun m => m.keeps_toDocument.1) _)) <|
      .cons (entry (isList_tree Location.keeps_toDocument t.locations)
        (readable_list_tree (fun l => l.keeps_toDocument.1) _)) <|
      .cons (entry (isFlag_tree t.isGenerated) rfl) .nil) ?_
    simp [slots, NamedType.specs, FieldSpec.slot, Tree.tagSlot]
  | other k name =>
    refine Tree.keeps_entries
      (.cons (entry (isText_tree _) (isText_tree _).readable) <|
      .cons (entry (isText_tree name) (isText_tree name).readable) .nil) ?_
    simp [slots, nameSpecs, FieldSpec.slot, Tree.tagSlot]

theorem SymbolTable.presents_toDocument (t : SymbolTable) : t.toDocument.tree.Presents specs t := by
  have h : t.toDocument.tree.Keeps specs t := Tree.keeps_specs
    (.cons (entry (isList_tree Symbol.presentedBy_toDocument t.symbols)
      (readable_list_tree (fun s => s.presentedBy_toDocument.1) _)) .nil) describes.nodup
  exact h.2

theorem Symbol.within_toDocument (s : Symbol) (n : Nat) : s.toDocument.tree.Within (n + 3) := by
  have hc (c : Constructor) : c.toDocument.tree.Within (n + 1) :=
    within_object_tree (by simp [Document.tree])
  have hm (m : Member) : m.toDocument.tree.Within (n + 1) :=
    within_object_tree (by simp [Document.tree])
  have hl (l : Location) : l.toDocument.tree.Within (n + 1) :=
    within_object_tree (by simp [Document.tree])
  cases s with
  | namedType t =>
    refine within_object_tree ?_
    simp only [List.forall_mem_cons]
    exact ⟨by simp [Document.tree], by simp [Document.tree], within_list_tree hc _,
      within_list_tree hm _, within_list_tree hl _, by simp [Document.tree], by simp⟩
  | other k name => exact within_object_tree (by simp [Document.tree])

theorem SymbolTable.within_toDocument (t : SymbolTable) (n : Nat) :
    t.toDocument.tree.Within (n + 5) := by
  refine within_object_tree ?_
  simp only [List.forall_mem_cons]
  exact ⟨within_list_tree (fun s => s.within_toDocument n) _, by simp⟩

/-- Reading undoes writing, and the text may as well be that of any other presentation: entries in
any order, defaults left out, other entries among them, records as lists. -/
theorem SymbolTable.ofJson_presentation (t : SymbolTable) :
    ofJson t.toDocument.toText = .ok t ∧
      ∀ (d : Tree) (text : String), d.WritesDocument text → d.Within Json.levels →
        d.Presents specs t → ofJson text = .ok t :=
  ⟨(ofJson_eq_ok (writesDocument _) (t.within_toDocument 122) t).mpr t.presents_toDocument,
    fun _ _ hw hd hp => (ofJson_eq_ok hw hd t).mpr hp⟩

theorem SymbolTable.ofJson_mixed_presentation :
    ofJson ("[[[\"event\",\"E\"],\x7b\"is_generated\":false,\"note\":null," ++
        "\"display_name\":\"A\",\"kind\":\"named_type\"\x7d]]") =
      .ok ⟨[.other .event "E", .namedType { displayName := "A" }]⟩ := by
  let event : Document := .list [.text "event", .text "E"]
  let type : Document := .object [("is_generated", .bool false), ("note", .null),
    ("display_name", .text "A"), ("kind", .text "named_type")]
  let table : Document := .list [.list [event, type]]
  have hevent : Symbol.PresentedBy (.other .event "E") event.tree :=
    ⟨rfl, isText_tree "event", isText_tree "E", trivial⟩
  have htype : Symbol.PresentedBy (.namedType { displayName := "A" }) type.tree := by
    refine ⟨rfl, ?_, ?_⟩
    · simp [tree, entryTrees, Spelling.text?_ofText]
    · simp [tree, entryTrees, Spelling.text?_ofText, Symbol.slots, NamedType.specs, FieldSpec.slot,
        Slot.Holds, Tree.under, Tree.tagSlot, Tree.IsText, Tree.IsFlag, Symbol.kind, SymbolKind.text]
  have hwithin : table.tree.Within Json.levels := by
    simp [table, event, type, tree, itemTrees, entryTrees, Json.levels, Tree.Within]
  exact (ofJson_presentation _).2 table.tree table.toText (writesDocument table) hwithin
    ⟨⟨_, rfl, .cons hevent (.cons htype .nil)⟩, trivial⟩

end InitializerLint
