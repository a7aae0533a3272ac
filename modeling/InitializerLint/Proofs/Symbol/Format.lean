import InitializerLint.Proofs.Json.Buffered
import InitializerLint.Proofs.Json.RecordReader
import InitializerLint.Symbol.Table

/-! The JSON format of symbol tables: the trees that present a table, and the proof that a table
is read from exactly these. -/
namespace InitializerLint

open Json (FieldSpec Reader Slot Tree TreeReader)

def Location.specs : List (FieldSpec Location) := [
  ⟨"file", (·.file), none, Tree.IsText⟩,
  ⟨"line", (·.line), none, Tree.IsWord⟩,
  ⟨"column", (·.column), none, Tree.IsWord⟩,
  ⟨"length", (·.length), some 0, Tree.IsWord⟩]

def Constructor.specs : List (FieldSpec Constructor) := [
  ⟨"is_static", (·.isStatic), some false, Tree.IsFlag⟩,
  ⟨"is_implicitly_declared", (·.isImplicitlyDeclared), some false, Tree.IsFlag⟩]

def Member.specs : List (FieldSpec Member) := [
  ⟨"name", (·.name), none, Tree.IsText⟩,
  ⟨"kind", (·.kind), none, Tree.IsChoice MemberKind.variants⟩,
  ⟨"is_static", (·.isStatic), some false, Tree.IsFlag⟩]

def NamedType.specs : List (FieldSpec NamedType) := [
  ⟨"display_name", (·.displayName), none, Tree.IsText⟩,
  ⟨"constructors", (·.constructors), some [], Tree.IsList (Tree.Keeps Constructor.specs)⟩,
  ⟨"members", (·.members), some [], Tree.IsList (Tree.Keeps Member.specs)⟩,
  ⟨"locations", (·.locations), some [], Tree.IsList (Tree.Keeps Location.specs)⟩,
  ⟨"is_generated", (·.isGenerated), some false, Tree.IsFlag⟩]

def Symbol.nameSpecs : List (FieldSpec String) := [⟨"name", id, none, Tree.IsText⟩]

/-- What a symbol has besides its kind. -/
def Symbol.slots : Symbol → List Slot
  | .namedType t => NamedType.specs.map (·.slot t)
  | .other _ name => Symbol.nameSpecs.map (·.slot name)

/-- The kind stands in a slot of its own, the first one in a list. -/
def Symbol.PresentedBy (s : Symbol) (d : Tree) : Prop :=
  d.Readable ∧ d.Fills (Tree.tagSlot "kind" s.kind.text :: s.slots)

def SymbolTable.specs : List (FieldSpec SymbolTable) := [
  ⟨"symbols", (·.symbols), some [], Tree.IsList fun d s => s.PresentedBy d⟩]

section describes

open Json.TreeReader

theorem Location.describes : Describes Location.specs (bufferedSchema Location.schema) where
  fields :=
    .cons (.of_buffered (fun l c => { l with file := c }) rfl rfl rfl
      (fun _ _ => buffered_text) (fun _ _ => rfl) (by simp [specs])) <|
    .cons (.of_buffered (fun l c => { l with line := c }) rfl rfl rfl
      (fun _ _ => buffered_word) (fun _ _ => rfl) (by simp [specs])) <|
    .cons (.of_buffered (fun l c => { l with column := c }) rfl rfl rfl
      (fun _ _ => buffered_word) (fun _ _ => rfl) (by simp [specs])) <|
    .cons (.of_buffered (fun l c => { l with length := c }) rfl rfl rfl
      (fun _ _ => buffered_word) (fun _ _ => rfl) (by simp [specs])) .nil
  nodup := by decide
  blank := by simp [specs, bufferedSchema, schema]
  ext := by
    rintro ⟨⟩ ⟨⟩
    simp [specs]

theorem Constructor.describes : Describes Constructor.specs (bufferedSchema Constructor.schema) where
  fields :=
    .cons (.of_buffered (fun k c => { k with isStatic := c }) rfl rfl rfl
      (fun _ _ => buffered_flag) (fun _ _ => rfl) (by simp [specs])) <|
    .cons (.of_buffered (fun k c => { k with isImplicitlyDeclared := c }) rfl rfl rfl
      (fun _ _ => buffered_flag) (fun _ _ => rfl) (by simp [specs])) .nil
  nodup := by decide
  blank := by simp [specs, bufferedSchema, schema]
  ext := by
    rintro ⟨⟩ ⟨⟩
    simp [specs]

theorem Member.describes : Describes Member.specs (bufferedSchema Member.schema) where
  fields :=
    .cons (.of_buffered (fun m c => { m with name := c }) rfl rfl rfl
      (fun _ _ => buffered_text) (fun _ _ => rfl) (by simp [specs])) <|
    .cons (.of_buffered (fun m c => { m with kind := c }) rfl rfl rfl
      (fun _ _ => buffered_choice) (fun _ _ => rfl) (by simp [specs])) <|
    .cons (.of_buffered (fun m c => { m with isStatic := c }) rfl rfl rfl
      (fun _ _ => buffered_flag) (fun _ _ => rfl) (by simp [specs])) .nil
  nodup := by decide
  blank := by simp [specs, bufferedSchema, schema]
  ext := by
    rintro ⟨⟩ ⟨⟩
    simp [specs]

theorem NamedType.describes : Describes NamedType.specs (bufferedSchema NamedType.schema) where
  fields :=
    .cons (.of_buffered (fun t c => { t with displayName := c }) rfl rfl rfl
      (fun _ _ => buffered_text) (fun _ _ => rfl) (by simp [specs])) <|
    .cons (.of_buffered (fun t c => { t with constructors := c }) rfl rfl rfl
      (fun _ _ => buffered_records Constructor.describes) (fun _ _ => rfl) (by simp [specs])) <|
    .cons (.of_buffered (fun t c => { t with members := c }) rfl rfl rfl
      (fun _ _ => buffered_records Member.describes) (fun _ _ => rfl) (by simp [specs])) <|
    .cons (.of_buffered (fun t c => { t with locations := c }) rfl rfl rfl
      (fun _ _ => buffered_records Location.describes) (fun _ _ => rfl) (by simp [specs])) <|
    .cons (.of_buffered (fun t c => { t with isGenerated := c }) rfl rfl rfl
      (fun _ _ => buffered_flag) (fun _ _ => rfl) (by simp [specs])) .nil
  nodup := by decide
  blank := by simp [specs, bufferedSchema, schema]
  ext := by
    rintro ⟨⟩ ⟨⟩
    simp [specs]

theorem Symbol.describes_name : Describes nameSpecs (bufferedSchema nameSchema) where
  fields := .cons (.of_buffered (fun _ c => c) rfl rfl
      (funext fun _ => funext fun v => (bind_pure (Data.Decode.text "a string" v)).symm)
      (fun _ _ => buffered_text) (fun _ _ => rfl) (by simp [nameSpecs])) .nil
  nodup := by decide
  blank := by simp [nameSpecs]
  ext := by simp [nameSpecs]

private theorem eq_text_of_lookup {α : Type} {text : α → String} {all : List α} {name : String}
    {a : α} (h : (all.map fun a => (text a, a)).lookup name = some a) : name = text a := by
  obtain ⟨as, bs, hl, -⟩ := List.lookup_eq_some_iff.mp h
  have hmem : (name, a) ∈ all.map fun a => (text a, a) := by simp [hl]
  obtain ⟨a', -, ha⟩ := List.mem_map.mp hmem
  cases ha
  rfl

theorem MemberKind.lookup_variants (name : String) (k : MemberKind) :
    variants.lookup name = some k ↔ name = k.text := by
  refine ⟨eq_text_of_lookup, ?_⟩
  rintro rfl
  cases k <;> decide

theorem SymbolKind.lookup_variants (name : String) (k : SymbolKind) :
    variants.lookup name = some k ↔ name = k.text := by
  refine ⟨eq_text_of_lookup, ?_⟩
  rintro rfl
  cases k with
  | namedType => decide
  | other k => cases k <;> decide

/-- The rest of a symbol is a record of its own. -/
theorem Symbol.buffered_decode (k : SymbolKind) (d : Tree) (s : Symbol) :
    buffered (Symbol.decode k) d = some s ↔ k = s.kind ∧ d.Readable ∧ d.Fills s.slots := by
  cases k with
  | namedType =>
    have h := buffered_except_map (Data.Decode.record NamedType.schema) Symbol.namedType d
    change buffered (fun v => (Data.Decode.record NamedType.schema v).map Symbol.namedType) d = _ ↔ _
    rw [h, Option.map_eq_some_iff]
    simp only [buffered_record_eq_some _ NamedType.describes]
    constructor
    · rintro ⟨t, ht, rfl⟩
      exact ⟨rfl, ht⟩
    · rintro ⟨hk, hd⟩
      cases s with
      | namedType t => exact ⟨t, hd, rfl⟩
      | other => cases hk
  | other k =>
    have h := buffered_except_map (Data.Decode.record nameSchema) (Symbol.other k) d
    change buffered (fun v => (Data.Decode.record nameSchema v).map (Symbol.other k)) d = _ ↔ _
    rw [h, Option.map_eq_some_iff]
    simp only [buffered_record_eq_some _ describes_name]
    constructor
    · rintro ⟨name, hn, rfl⟩
      exact ⟨rfl, hn⟩
    · rintro ⟨hk, hd⟩
      cases s with
      | namedType => cases hk
      | other k' name =>
        cases hk
        exact ⟨name, hd, rfl⟩

theorem Symbol.name_ne_kind (s : Symbol) : ∀ slot ∈ s.slots, slot.name ≠ "kind" := by
  intro slot h he
  have hmem : "kind" ∈ s.slots.map (·.name) := List.mem_map.mpr ⟨slot, h, he⟩
  cases s <;> simp [slots, NamedType.specs, nameSpecs, FieldSpec.slot] at hmem

/-- A symbol is found where its kind and its other contents are in place. -/
theorem Symbol.read_eq_some (d : Tree) (s : Symbol) :
    (Symbol.read : TreeReader Symbol) d = some s ↔ s.PresentedBy d := by
  have hread : (Symbol.read : TreeReader Symbol) d = some s ↔ ∃ k v,
      TreeReader.tagged "kind" SymbolKind.variants d = some (k, v) ∧ Symbol.decode k v = .ok s := by
    change (TreeReader.tagged "kind" SymbolKind.variants d).bind _ = _ ↔ _
    rw [Option.bind_eq_some_iff, Prod.exists]
    refine exists₂_congr fun k v => and_congr_right fun _ => ?_
    dsimp only
    cases Symbol.decode k v with
    | ok s' => exact (Option.some_inj.trans (by simp))
    | error f => exact ⟨nofun, nofun⟩
  rw [PresentedBy, Tree.fills_tagSlot s.name_ne_kind, hread]
  simp only [tagged_eq_some, variant_eq_some, SymbolKind.lookup_variants]
  constructor
  · rintro ⟨k, v, ⟨kd, rest, hs, ⟨name, ht, rfl⟩, hv⟩, hd⟩
    obtain ⟨rfl, hr, hf⟩ := (Symbol.buffered_decode k rest s).mp (buffered_eq_some.mpr ⟨v, hv, hd⟩)
    exact ⟨kd, rest, hs, ht, hr, hf⟩
  · rintro ⟨kd, rest, hs, ht, hr, hf⟩
    have hd := (Symbol.buffered_decode s.kind rest s).mpr ⟨rfl, hr, hf⟩
    obtain ⟨v, hv, hd⟩ := buffered_eq_some.mp hd
    exact ⟨s.kind, v, ⟨kd, rest, hs, ⟨_, ht, rfl⟩, hv⟩, hd⟩

theorem SymbolTable.describes : Describes SymbolTable.specs SymbolTable.schema where
  fields := .cons (.of_set (fun _ c => { symbols := c }) _ rfl rfl rfl (fun d as => by
      rw [← funext fun d => funext fun s => propext (Symbol.read_eq_some d s)]
      exact list_eq_some) (fun _ _ => rfl) (by simp [specs])) .nil
  nodup := by decide
  blank := by simp [specs, schema]
  ext := by
    rintro ⟨⟩ ⟨⟩
    simp [specs]

end describes

section text

open Json.Reader

theorem Symbol.follows_read :
    Follows Tree.Within (Symbol.read : Reader Symbol) (Symbol.read : TreeReader Symbol) := by
  refine (follows_tagged _ _ _).check fun ⟨k, v⟩ d n rest => ?_
  dsimp only
  cases Symbol.decode k v with
  | ok s => exact .pure s rest
  | error f => exact Json.Scan.reads_failFloating f rest rest

theorem SymbolTable.follows_read : Follows Tree.Within (SymbolTable.read : Reader SymbolTable)
    (SymbolTable.read : TreeReader SymbolTable) := by
  have hlist := (follows_list Symbol.follows_read).mono Tree.Within.inside
  exact (follows_record {
    blank := rfl
    fields := .cons ⟨rfl, rfl, fun _ => hlist.map _⟩ .nil }).mono Tree.Within.inside

/-- A table is read from the texts of the trees that present it; all other texts are errors. -/
theorem SymbolTable.ofJson_eq_ok {d : Tree} {text : String} (hw : d.WritesDocument text)
    (hd : d.Within Json.levels) (t : SymbolTable) :
    ofJson text = .ok t ↔ d.Presents specs t := by
  have hr := read_eq SymbolTable.follows_read hw hd
  have ht : (SymbolTable.read : TreeReader SymbolTable) d = some t ↔ d.Presents specs t :=
    TreeReader.record_eq_some describes d t
  rw [← ht, ofJson]
  cases hφ : (SymbolTable.read : TreeReader SymbolTable) d with
  | some t' =>
    rw [hφ] at hr
    simp only [hr]
    simp [Except.mapError]
  | none =>
    rw [hφ] at hr
    obtain ⟨e, he⟩ := hr
    simp [he, Except.mapError]

end text
end InitializerLint
