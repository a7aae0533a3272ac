import InitializerLint.Proofs.Config.Presentation
import InitializerLint.Proofs.Json.Shape

/-! Settings given in part: what a text gives replaces the default, field by field, and a text
that gives a section or a field twice, as nothing or as something else is an error. -/
namespace InitializerLint

open Json (Document FieldSpec Slot Spelling Tree)

/-- What stands for a field: what is under its name, or in its place in the list of fields. -/
def Json.Tree.part? (names : List String) (name : String) : Tree → Option Tree
  | .object es => (under name es).head?
  | .list ds => ds[names.idxOf name]?
  | _ => none

/-- A value is the one given, or the default if none is. -/
def AsGiven {α : Type} (given : Option Tree) (Means : Tree → α → Prop) (default value : α) : Prop :=
  match given with
  | some d => Means d value
  | none => value = default

section given

variable {α : Type} {given : Option Tree} {Means Means' : Tree → α → Prop} {default value : α}

theorem AsGiven.mono (h : AsGiven given Means default value)
    (hm : ∀ d, Means d value → Means' d value) : AsGiven given Means' default value := by
  cases given with
  | some d => exact hm d h
  | none => exact h

theorem Json.Tree.FillInOrder.holds_get? {slots : List Slot} {ds : List Tree}
    (h : FillInOrder slots ds) (hn : (slots.map (·.name)).Nodup) {s : Slot} (hs : s ∈ slots) :
    s.Holds (ds[(slots.map (·.name)).idxOf s.name]?).toList := by
  induction slots generalizing ds with
  | nil => cases hs
  | cons t slots ih =>
    rw [List.map_cons, List.nodup_cons] at hn
    have hrest : FillInOrder slots ds.tail := by
      cases ds with
      | nil => exact h.2
      | cons d ds => exact h.2
    rcases List.mem_cons.mp hs with rfl | hs
    · rw [List.map_cons, List.idxOf_cons_self]
      cases ds with
      | nil => exact h.1
      | cons d ds => exact h.1
    · have hne : t.name ≠ s.name := fun he => hn.1 (he ▸ List.mem_map_of_mem hs)
      have hs := ih hrest hn.2 hs
      rw [List.getElem?_tail] at hs
      rwa [List.map_cons, List.idxOf_cons_ne _ hne]

/-- Each slot is filled by the part of the tree that stands for it. -/
theorem Json.Tree.Fills.holds_part? {slots : List Slot} {d : Tree} (h : d.Fills slots)
    (hn : (slots.map (·.name)).Nodup) {s : Slot} (hs : s ∈ slots) :
    s.Holds (d.part? (slots.map (·.name)) s.name).toList := by
  cases d with
  | object es =>
    have hs : s.Holds (under s.name es) := h.2 s hs
    change s.Holds (under s.name es).head?.toList
    match under s.name es, hs with
    | [], hs => exact hs
    | [d], hs => exact hs
  | list ds => exact FillInOrder.holds_get? h hn hs
  | _ => exact h.elim

variable {specs : List (FieldSpec α)} {p : FieldSpec α}

theorem Json.Tree.Presents.asGiven {d : Tree} {a b : α} (h : d.Presents specs a)
    (hn : (specs.map (·.name)).Nodup) (hp : p ∈ specs) (hb : p.default? = some (p.get b)) :
    AsGiven (d.part? (specs.map (·.name)) p.name) p.Means (p.get b) (p.get a) := by
  have hnames : (specs.map (·.slot a)).map (·.name) = specs.map (·.name) := by
    rw [List.map_map]
    rfl
  have hholds := Fills.holds_part? h (hnames ▸ hn) (List.mem_map_of_mem hp)
  rw [hnames] at hholds
  change (p.slot a).Holds (d.part? (specs.map (·.name)) p.name).toList at hholds
  cases hg : d.part? (specs.map (·.name)) p.name with
  | some e =>
    rw [hg] at hholds
    exact hholds
  | none =>
    rw [hg] at hholds
    have hdefault : p.default? = some (p.get a) := hholds
    rw [hb, Option.some.injEq] at hdefault
    exact hdefault.symm

/-- A field of a section that is itself given or not. -/
theorem AsGiven.field {b a : α} (h : AsGiven given (Tree.Presents specs) b a)
    (hn : (specs.map (·.name)).Nodup) (hp : p ∈ specs) (hb : p.default? = some (p.get b)) :
    AsGiven (given.bind (·.part? (specs.map (·.name)) p.name)) p.Means (p.get b) (p.get a) := by
  cases given with
  | some d => exact Tree.Presents.asGiven h hn hp hb
  | none =>
    have hab : a = b := h
    rw [hab]
    rfl

end given

/-- The tree given for a field of a section. -/
def Config.given {α : Type} (d : Tree) (name : String) (fields : List (FieldSpec α))
    (field : String) : Option Tree :=
  (d.part? (specs.map (·.name)) name).bind (·.part? (fields.map (·.name)) field)

/-- A map from patterns to rules: of entries with one pattern the last counts. -/
def PerType.LastOf (d : Tree) (m : PerType) : Prop :=
  ∃ entries, d.IsEntries (Tree.IsList Tree.IsText) entries ∧ m.Distinct ∧
    ∀ pattern, m.lookup pattern = entries.reverse.lookup pattern

/-- Each setting is the one given, whatever else is given, or its default. -/
structure Config.Overlays (d : Tree) (c : Config) : Prop where
  parallel : AsGiven (given d "engine" EngineOptions.specs "parallel") Tree.IsFlag
    ({} : Config).engine.parallel c.engine.parallel
  jobs : AsGiven (given d "engine" EngineOptions.specs "jobs") Tree.IsWord
    ({} : Config).engine.jobs c.engine.jobs
  analyzeGenerated : AsGiven (given d "engine" EngineOptions.specs "analyze_generated") Tree.IsFlag
    ({} : Config).engine.analyzeGenerated c.engine.analyzeGenerated
  disabled : AsGiven (given d "rules" RuleSelection.specs "disabled") (Tree.IsList Tree.IsText)
    ({} : Config).rules.disabled c.rules.disabled
  perType : AsGiven (given d "rules" RuleSelection.specs "per_type") PerType.LastOf
    ({} : Config).rules.perType c.rules.perType
  methodThreshold : AsGiven (given d "static_initializer" RuleOptions.specs "method_threshold")
    Tree.IsWord ({} : Config).staticInitializer.methodThreshold c.staticInitializer.methodThreshold

theorem PerType.MeantBy.lastOf {d : Tree} {m : PerType} (h : MeantBy d m) : LastOf d m := by
  obtain ⟨entries, hd, rfl⟩ := h
  exact ⟨entries, hd, distinct_ofEntries entries, lookup_ofEntries entries⟩

theorem Config.overlays_of_presents {d : Tree} {c : Config} (h : d.Presents specs c) :
    Overlays d c := by
  have hn := describes.nodup
  have hengine : AsGiven (d.part? (specs.map (·.name)) "engine") (Tree.Presents EngineOptions.specs)
      {} c.engine := h.asGiven (b := {}) (p := specs[0]) hn (by simp [specs]) rfl
  have hrules : AsGiven (d.part? (specs.map (·.name)) "rules") (Tree.Presents RuleSelection.specs)
      {} c.rules := h.asGiven (b := {}) (p := specs[1]) hn (by simp [specs]) rfl
  have hinit : AsGiven (d.part? (specs.map (·.name)) "static_initializer")
      (Tree.Presents RuleOptions.specs) {} c.staticInitializer :=
    h.asGiven (b := {}) (p := specs[2]) hn (by simp [specs]) rfl
  have he := EngineOptions.describes.nodup
  have hr := RuleSelection.describes.nodup
  have ho := RuleOptions.describes.nodup
  exact {
    parallel := hengine.field (p := EngineOptions.specs[0]) he (by simp [EngineOptions.specs]) rfl
    jobs := hengine.field (p := EngineOptions.specs[1]) he (by simp [EngineOptions.specs]) rfl
    analyzeGenerated :=
      hengine.field (p := EngineOptions.specs[2]) he (by simp [EngineOptions.specs]) rfl
    disabled := hrules.field (p := RuleSelection.specs[0]) hr (by simp [RuleSelection.specs]) rfl
    perType := (hrules.field (p := RuleSelection.specs[1]) hr (by simp [RuleSelection.specs]) rfl).mono
      fun _ => PerType.MeantBy.lastOf
    methodThreshold := hinit.field (p := RuleOptions.specs[0]) ho (by simp [RuleOptions.specs]) rfl }

section shape

def EngineOptions.Shape : Tree → Prop := Tree.Fills [
  .optional "parallel" Tree.IsSomeFlag,
  .optional "jobs" Tree.IsSomeWord,
  .optional "analyze_generated" Tree.IsSomeFlag]

def RuleSelection.Shape : Tree → Prop := Tree.Fills [
  .optional "disabled" (Tree.IsListOf Tree.IsSomeText),
  .optional "per_type" (Tree.IsObjectOf (Tree.IsListOf Tree.IsSomeText))]

def RuleOptions.Shape : Tree → Prop := Tree.Fills [.optional "method_threshold" Tree.IsSomeWord]

/-- Known sections and fields stand at most once each and have their types; what stands under
other names does not matter. -/
def Config.Shape : Tree → Prop := Tree.Fills [
  .optional "engine" EngineOptions.Shape,
  .optional "rules" RuleSelection.Shape,
  .optional "static_initializer" RuleOptions.Shape]

variable {d : Tree}

theorem EngineOptions.shape_iff : Shape d ↔ ∃ o, d.Presents specs o := by
  constructor
  · intro h
    exact Json.TreeReader.exists_presents describes <| Tree.Fills.mono
      (.cons (.of_optional rfl fun _ => id) <| .cons (.of_optional rfl fun _ => id) <|
        .cons (.of_optional rfl fun _ => id) .nil) h
  · rintro ⟨o, h⟩
    refine h.mono ?_
    exact .cons (.optional fun _ h => ⟨_, h⟩) <| .cons (.optional fun _ h => ⟨_, h⟩) <|
      .cons (.optional fun _ h => ⟨_, h⟩) .nil

theorem PerType.shape_iff :
    d.IsObjectOf (Tree.IsListOf Tree.IsSomeText) ↔ ∃ m, PerType.MeantBy d m := by
  have htexts (d : Tree) : d.IsListOf Tree.IsSomeText ↔ ∃ texts, d.IsList Tree.IsText texts :=
    Tree.isListOf_iff fun _ => Iff.rfl
  rw [Tree.isObjectOf_iff htexts]
  constructor
  · rintro ⟨entries, h⟩
    exact ⟨_, entries, h, rfl⟩
  · rintro ⟨_, entries, h, -⟩
    exact ⟨entries, h⟩

theorem RuleSelection.shape_iff : Shape d ↔ ∃ o, d.Presents specs o := by
  have htexts (d : Tree) : d.IsListOf Tree.IsSomeText ↔ ∃ texts, d.IsList Tree.IsText texts :=
    Tree.isListOf_iff fun _ => Iff.rfl
  constructor
  · intro h
    exact Json.TreeReader.exists_presents describes <| Tree.Fills.mono
      (.cons (.of_optional rfl fun d => (htexts d).mp) <|
        .cons (.of_optional rfl fun _ => PerType.shape_iff.mp) .nil) h
  · rintro ⟨o, h⟩
    refine h.mono ?_
    exact .cons (.optional fun d h => (htexts d).mpr ⟨_, h⟩) <|
      .cons (.optional fun _ h => PerType.shape_iff.mpr ⟨_, h⟩) .nil

theorem RuleOptions.shape_iff : Shape d ↔ ∃ o, d.Presents specs o := by
  constructor
  · intro h
    exact Json.TreeReader.exists_presents describes <|
      Tree.Fills.mono (.cons (.of_optional rfl fun _ => id) .nil) h
  · rintro ⟨o, h⟩
    exact h.mono (.cons (.optional fun _ h => ⟨_, h⟩) .nil)

theorem Config.shape_iff : Shape d ↔ ∃ c, d.Presents specs c := by
  constructor
  · intro h
    exact Json.TreeReader.exists_presents describes <| Tree.Fills.mono
      (.cons (.of_optional rfl fun _ => EngineOptions.shape_iff.mp) <|
        .cons (.of_optional rfl fun _ => RuleSelection.shape_iff.mp) <|
        .cons (.of_optional rfl fun _ => RuleOptions.shape_iff.mp) .nil) h
  · rintro ⟨c, h⟩
    refine h.mono ?_
    exact .cons (.optional fun _ h => EngineOptions.shape_iff.mpr ⟨_, h⟩) <|
      .cons (.optional fun _ h => RuleSelection.shape_iff.mpr ⟨_, h⟩) <|
      .cons (.optional fun _ h => RuleOptions.shape_iff.mpr ⟨_, h⟩) .nil

end shape

/-- A settings file in JSON overlays the defaults or is an error, by its shape alone; and written
settings are read back. -/
theorem Config.load_json_overlay (files : Files.Tree) (path : String)
    (hext : Files.fileExtension path = "json") :
    (∀ d text, files.readText path = .ok text → d.WritesDocument text →
      (Shape d → ∃ c, (load files path).value = .ok c ∧ Overlays d c) ∧
        (¬Shape d → ∃ e, (load files path).value = .error (.json e))) ∧
      ∀ c : Config, c.rules.perType.Distinct → files.readText path = .ok c.toDocument.toText →
        (load files path).value = .ok c := by
  constructor
  · intro d text htext hw
    obtain ⟨hok, herror⟩ := parse_json hw
    rw [value_load htext, hext, shape_iff]
    refine ⟨?_, herror⟩
    rintro ⟨c, hc⟩
    exact ⟨c, hok c hc, overlays_of_presents hc⟩
  · intro c hc htext
    rw [value_load htext, hext]
    exact (parse_json (Json.Document.writesDocument c.toDocument)).1 c (presents_toDocument hc)

/-- Sections are left out or given in part, a pattern is given twice, and one key means nothing. -/
theorem Config.load_json_overlay_partial :
    let settings : Document := .object [("note", .null),
      ("rules", .object [("per_type", .object [("A*", .list []), ("A*", .list [.text "all"])])]),
      ("static_initializer", .object [("method_threshold", .number 7)])]
    let files := ({} : Files.Tree).insert "c.json" (.file settings.toText.toUTF8)
    ∃ c, (load files "c.json").value = .ok c ∧ c.engine.jobs = 0 ∧ c.rules.disabled = [] ∧
      c.rules.perType.lookup "A*" = some ["all"] ∧ c.staticInitializer.methodThreshold = 7 := by
  intro settings files
  have htext : files.readText "c.json" = .ok settings.toText :=
    Files.Tree.readText_of_file (p := .ofPath "c.json") rfl rfl
  have hshape : Shape settings.tree := by
    have hword : (Document.number 7).tree.IsSomeWord := ⟨7, Document.isWord_tree 7⟩
    have hpatterns : (Document.object [("A*", .list []), ("A*", .list [.text "all"])]).tree.IsObjectOf
        (Tree.IsListOf Tree.IsSomeText) := by
      simp [Tree.IsObjectOf, Tree.IsListOf, Tree.IsSomeText, Tree.IsText, Document.tree,
        Document.entryTrees, Document.itemTrees, Spelling.text?_ofText, or_imp, forall_and]
    simpa [settings, Shape, RuleSelection.Shape, RuleOptions.Shape, Tree.Fills, Tree.under,
      Slot.optional, Slot.Holds, Document.tree, Document.entryTrees, Spelling.text?_ofText]
      using ⟨hpatterns, hword⟩
  obtain ⟨c, hload, hc⟩ := ((load_json_overlay files "c.json" (by decide)).1 settings.tree _ htext
    (Document.writesDocument settings)).1 hshape
  have hjobs : c.engine.jobs = 0 := by
    simpa [given, settings, Document.tree, Document.entryTrees, Tree.part?, Tree.under,
      Spelling.text?_ofText, AsGiven] using hc.jobs
  have hdisabled : c.rules.disabled = [] := by
    simpa [given, settings, Document.tree, Document.entryTrees, Tree.part?, Tree.under,
      Spelling.text?_ofText, AsGiven] using hc.disabled
  have hperType : PerType.LastOf (Document.object [("A*", .list []), ("A*", .list [.text "all"])]).tree
      c.rules.perType := by
    simpa [given, settings, Document.tree, Document.entryTrees, Tree.part?, Tree.under,
      Spelling.text?_ofText, AsGiven] using hc.perType
  have hthreshold : (Document.number 7).tree.IsWord c.staticInitializer.methodThreshold := by
    simpa [given, settings, Document.tree, Document.entryTrees, Tree.part?, Tree.under,
      Spelling.text?_ofText, AsGiven] using hc.methodThreshold
  refine ⟨c, hload, hjobs, hdisabled, ?_, ?_⟩
  · obtain ⟨entries, hentries, -, hlookup⟩ := hperType
    have hall : entries = [("A*", []), ("A*", ["all"])] := by
      simpa [Tree.IsEntries, Tree.IsList, Tree.IsText, List.forall₂_cons_left_iff, Document.tree,
        Document.entryTrees, Document.itemTrees, Spelling.text?_ofText] using hentries
    rw [hlookup, hall]
    rfl
  · obtain ⟨ds, hds, hvalue⟩ := hthreshold
    cases hds
    rw [Json.Numeral.digitsValue_decimal] at hvalue
    exact UInt64.toNat_inj.mp hvalue.symm

end InitializerLint
