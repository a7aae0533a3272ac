import InitializerLint.Proofs.Json.Render
import InitializerLint.Proofs.Json.Shape
import InitializerLint.Proofs.Symbol.Format

/-! The shape of a symbol table, whatever its contents: which fields there are, which of them are
required, and of what type they are. No text of another shape is accepted. -/
namespace InitializerLint

open Json (Document FieldSpec Slot Spelling Tree)

/-- The name of a kind, or an object with nothing under that name. -/
def MemberKind.Shape (d : Tree) : Prop := ∃ k : MemberKind,
  d.IsText k.text ∨ ∃ q e, d = .object [(q, e)] ∧ Spelling.text? q = some k.text ∧
    (e = .null ∨ e = .object [])

def Location.Shape : Tree → Prop := Tree.Fills [
  .required "file" Tree.IsSomeText,
  .required "line" Tree.IsSomeWord,
  .required "column" Tree.IsSomeWord,
  .optional "length" Tree.IsSomeWord]

def Constructor.Shape : Tree → Prop := Tree.Fills [
  .optional "is_static" Tree.IsSomeFlag,
  .optional "is_implicitly_declared" Tree.IsSomeFlag]

def Member.Shape : Tree → Prop := Tree.Fills [
  .required "name" Tree.IsSomeText,
  .required "kind" MemberKind.Shape,
  .optional "is_static" Tree.IsSomeFlag]

/-- A symbol has the slots of the variant its kind names. -/
def Symbol.Shape (d : Tree) : Prop :=
  d.Fills [
    .required "kind" (·.IsText "named_type"),
    .required "display_name" Tree.IsSomeText,
    .optional "constructors" (Tree.IsListOf Constructor.Shape),
    .optional "members" (Tree.IsListOf Member.Shape),
    .optional "locations" (Tree.IsListOf Location.Shape),
    .optional "is_generated" Tree.IsSomeFlag] ∨
  ∃ kind ∈ ["method", "field", "property", "event", "namespace"], d.Fills [
    .required "kind" (·.IsText kind),
    .required "name" Tree.IsSomeText]

def SymbolTable.Shape : Tree → Prop := Tree.Fills [.optional "symbols" (Tree.IsListOf Symbol.Shape)]

section shape

variable {d : Tree}

theorem MemberKind.shape_of_isChoice {k : MemberKind} (h : d.IsChoice variants k) : Shape d := by
  obtain ⟨name, hn, h⟩ := h
  obtain rfl := (lookup_variants name k).mp hn
  exact ⟨k, h⟩

theorem Location.shape_of_keeps {l : Location} (h : d.Keeps specs l) : Shape d := by
  refine h.2.mono ?_
  exact .cons (.required rfl fun _ hl => ⟨_, hl⟩) <|
    .cons (.required rfl fun _ hl => ⟨_, hl⟩) <|
    .cons (.required rfl fun _ hl => ⟨_, hl⟩) <|
    .cons (.optional fun _ hl => ⟨_, hl⟩) .nil

theorem Constructor.shape_of_keeps {c : Constructor} (h : d.Keeps specs c) : Shape d := by
  refine h.2.mono ?_
  exact .cons (.optional fun _ hc => ⟨_, hc⟩) <| .cons (.optional fun _ hc => ⟨_, hc⟩) .nil

theorem Member.shape_of_keeps {m : Member} (h : d.Keeps specs m) : Shape d := by
  refine h.2.mono ?_
  exact .cons (.required rfl fun _ hm => ⟨_, hm⟩) <|
    .cons (.required rfl fun _ hm => MemberKind.shape_of_isChoice hm) <|
    .cons (.optional fun _ hm => ⟨_, hm⟩) .nil

theorem Symbol.shape_of_presentedBy {s : Symbol} (h : s.PresentedBy d) : Shape d := by
  cases s with
  | namedType t =>
    refine .inl (h.2.mono ?_)
    exact .cons ⟨rfl, id, fun _ ht => ht⟩ <|
      .cons (.required rfl fun _ ht => ⟨_, ht⟩) <|
      .cons (.optional fun _ ht => ht.isListOf fun _ _ hc => Constructor.shape_of_keeps hc) <|
      .cons (.optional fun _ ht => ht.isListOf fun _ _ hm => Member.shape_of_keeps hm) <|
      .cons (.optional fun _ ht => ht.isListOf fun _ _ hl => Location.shape_of_keeps hl) <|
      .cons (.optional fun _ ht => ⟨_, ht⟩) .nil
  | other k name =>
    refine .inr ⟨k.text, ?_, h.2.mono ?_⟩
    · cases k <;> decide
    · exact .cons ⟨rfl, id, fun _ hs => hs⟩ <| .cons (.required rfl fun _ hs => ⟨_, hs⟩) .nil

theorem SymbolTable.shape_of_presents {t : SymbolTable} (h : d.Presents specs t) : Shape d := by
  refine h.mono ?_
  exact .cons (.optional fun _ ht => ht.isListOf fun _ _ hs => Symbol.shape_of_presentedBy hs) .nil

end shape

section contents

variable {d : Tree}

theorem Location.exists_keeps (hr : d.Readable) (h : Shape d) : ∃ l, d.Keeps specs l := by
  obtain ⟨l, hl⟩ := Json.TreeReader.exists_presents describes <| Tree.Fills.mono
    (.cons (.of_required fun _ => id) <| .cons (.of_required fun _ => id) <|
      .cons (.of_required fun _ => id) <| .cons (.of_optional rfl fun _ => id) .nil) h
  exact ⟨l, hr, hl⟩

theorem Constructor.exists_keeps (hr : d.Readable) (h : Shape d) : ∃ c, d.Keeps specs c := by
  obtain ⟨c, hc⟩ := Json.TreeReader.exists_presents describes <| Tree.Fills.mono
    (.cons (.of_optional rfl fun _ => id) <| .cons (.of_optional rfl fun _ => id) .nil) h
  exact ⟨c, hr, hc⟩

theorem Member.exists_keeps (hr : d.Readable) (h : Shape d) : ∃ m, d.Keeps specs m := by
  have hkind (d : Tree) (hd : MemberKind.Shape d) : ∃ k, d.IsChoice MemberKind.variants k := by
    obtain ⟨k, hk⟩ := hd
    exact ⟨k, k.text, (MemberKind.lookup_variants _ _).mpr rfl, hk⟩
  obtain ⟨m, hm⟩ := Json.TreeReader.exists_presents describes <| Tree.Fills.mono
    (.cons (.of_required fun _ => id) <| .cons (.of_required hkind) <|
      .cons (.of_optional rfl fun _ => id) .nil) h
  exact ⟨m, hr, hm⟩

theorem Symbol.exists_presentedBy (hr : d.Readable) (h : Shape d) : ∃ s : Symbol, s.PresentedBy d := by
  rcases h with h | ⟨kind, hkind, h⟩
  · obtain ⟨k, rest, hs, hk, hrest, hf⟩ :=
      Tree.exists_splits (by simp [Slot.required, Slot.optional]) hr h
    obtain ⟨t, ht⟩ := Json.TreeReader.exists_presents NamedType.describes <| Tree.Fills.mono
      (.cons (.of_required fun _ h => h.2) <|
        .cons (.of_optional rfl fun _ h => h.2.exists_isList (fun _ => Constructor.exists_keeps) h.1) <|
        .cons (.of_optional rfl fun _ h => h.2.exists_isList (fun _ => Member.exists_keeps) h.1) <|
        .cons (.of_optional rfl fun _ h => h.2.exists_isList (fun _ => Location.exists_keeps) h.1) <|
        .cons (.of_optional rfl fun _ h => h.2) .nil) (hf.readable hrest)
    exact ⟨.namedType t, hr, hs.fills (Symbol.namedType t).name_ne_kind hk ht⟩
  · obtain ⟨k, rfl⟩ : ∃ k : OtherKind, k.text = kind := by
      simp only [List.mem_cons, List.not_mem_nil, or_false] at hkind
      rcases hkind with rfl | rfl | rfl | rfl | rfl
      exacts [⟨.method, rfl⟩, ⟨.field, rfl⟩, ⟨.property, rfl⟩, ⟨.event, rfl⟩, ⟨.nameSpace, rfl⟩]
    obtain ⟨q, rest, hs, hk, -, hf⟩ := Tree.exists_splits (by simp [Slot.required]) hr h
    obtain ⟨name, hn⟩ := Json.TreeReader.exists_presents describes_name <| Tree.Fills.mono
      (.cons (.of_required fun _ h => h) .nil) hf
    exact ⟨.other k name, hr, hs.fills (Symbol.other k name).name_ne_kind hk hn⟩

theorem SymbolTable.exists_presents (hr : d.Readable) (h : Shape d) : ∃ t, d.Presents specs t :=
  Json.TreeReader.exists_presents describes <| Tree.Fills.mono
    (.cons (.of_optional rfl fun _ h => h.2.exists_isList (fun _ => Symbol.exists_presentedBy) h.1) .nil)
    (Tree.Fills.readable hr h)

end contents

/-- Nothing outside the format is accepted, and of what is in the format all that is readable. -/
theorem SymbolTable.ofJson_shape (d : Tree) (text : String) (hw : d.WritesDocument text)
    (hd : d.Within Json.levels) :
    (∀ t, ofJson text = .ok t → Shape d) ∧
      (¬Shape d → ∃ e, ofJson text = .error (.json e)) ∧
      (d.Readable → Shape d → ∃ t, ofJson text = .ok t) := by
  have hshape (t : SymbolTable) (ht : ofJson text = .ok t) : Shape d :=
    shape_of_presents ((ofJson_eq_ok hw hd t).mp ht)
  refine ⟨hshape, fun hno => ?_, fun hr h => ?_⟩
  · have hjson : ofJson text = (Json.read SymbolTable.read text).mapError .json := rfl
    cases hr : Json.read SymbolTable.read text with
    | ok t => exact absurd (hshape t (by rw [hjson, hr]; rfl)) hno
    | error e => exact ⟨e, by rw [hjson, hr]; rfl⟩
  · obtain ⟨t, ht⟩ := exists_presents hr h
    exact ⟨t, (ofJson_eq_ok hw hd t).mpr ht⟩

theorem SymbolTable.ofJson_unknown_kind :
    ∃ e, ofJson "[[[\"delegate\",\"X\"]]]" = .error (.json e) := by
  let table : Document := .list [.list [.list [.text "delegate", .text "X"]]]
  have hno : ¬Shape table.tree := by
    rintro ⟨⟨ds, hd, hs⟩, -⟩
    cases hd
    simp [Document.itemTrees, Document.tree, Symbol.Shape, Tree.Fills, Tree.FillInOrder, Slot.Holds,
      Slot.required, Slot.optional, Tree.IsText, Spelling.text?_ofText] at hs
  have hwithin : table.tree.Within Json.levels := by
    simp [table, Document.tree, Document.itemTrees, Json.levels, Tree.Within]
  exact (ofJson_shape table.tree table.toText (Document.writesDocument table) hwithin).2.1 hno

end InitializerLint
