import InitializerLint.Config.Load
import InitializerLint.Proofs.Config.PerType
import InitializerLint.Proofs.Json.Content
import InitializerLint.Proofs.Json.RecordReader

/-! The JSON format of settings: the trees that present them, and the proof that settings are read
from exactly these. No reader of settings opens more than four brackets inside each other, so what
stands under other keys may be nested at will. -/
namespace InitializerLint

open Json (FieldSpec Reader Tree TreeReader)

/-- Patterns with lists of rules; of entries with one pattern the last counts. -/
def PerType.MeantBy (d : Tree) (m : PerType) : Prop :=
  ∃ entries, d.IsEntries (Tree.IsList Tree.IsText) entries ∧ m = PerType.ofEntries entries

def RuleOptions.specs : List (FieldSpec RuleOptions) := [
  ⟨"method_threshold", (·.methodThreshold), some 50, Tree.IsWord⟩]

def EngineOptions.specs : List (FieldSpec EngineOptions) := [
  ⟨"parallel", (·.parallel), some true, Tree.IsFlag⟩,
  ⟨"jobs", (·.jobs), some 0, Tree.IsWord⟩,
  ⟨"analyze_generated", (·.analyzeGenerated), some true, Tree.IsFlag⟩]

def RuleSelection.specs : List (FieldSpec RuleSelection) := [
  ⟨"disabled", (·.disabled), some [], Tree.IsList Tree.IsText⟩,
  ⟨"per_type", (·.perType), some [], PerType.MeantBy⟩]

def Config.specs : List (FieldSpec Config) := [
  ⟨"engine", (·.engine), some {}, Tree.Presents EngineOptions.specs⟩,
  ⟨"rules", (·.rules), some {}, Tree.Presents RuleSelection.specs⟩,
  ⟨"static_initializer", (·.staticInitializer), some {}, Tree.Presents RuleOptions.specs⟩]

section describes

open Json.TreeReader

theorem readTexts_eq_some {d : Tree} {texts : List String} :
    (readTexts : TreeReader (List String)) d = some texts ↔ d.IsList Tree.IsText texts := by
  change list (scalar _) d = _ ↔ _
  simp only [list_eq_some, scalar_text]

theorem RuleOptions.describes : Describes RuleOptions.specs RuleOptions.schema where
  fields := .cons (.of_set (fun _ c => { methodThreshold := c }) _ rfl rfl rfl
    (fun _ _ => scalar_word) (fun _ _ => rfl) (by simp [specs])) .nil
  nodup := by decide
  blank := by simp [specs, schema]
  ext := by
    rintro ⟨⟩ ⟨⟩
    simp [specs]

theorem EngineOptions.describes : Describes EngineOptions.specs EngineOptions.schema where
  fields :=
    .cons (.of_set (fun o c => { o with parallel := c }) _ rfl rfl rfl
      (fun _ _ => scalar_flag) (fun _ _ => rfl) (by simp [specs])) <|
    .cons (.of_set (fun o c => { o with jobs := c }) _ rfl rfl rfl
      (fun _ _ => scalar_word) (fun _ _ => rfl) (by simp [specs])) <|
    .cons (.of_set (fun o c => { o with analyzeGenerated := c }) _ rfl rfl rfl
      (fun _ _ => scalar_flag) (fun _ _ => rfl) (by simp [specs])) .nil
  nodup := by decide
  blank := by simp [specs, schema]
  ext := by
    rintro ⟨⟩ ⟨⟩
    simp [specs]

/-- The entries as they stand, made into a map. -/
def PerType.readMap : TreeReader PerType := do return PerType.ofEntries (← entries readTexts)

theorem PerType.readMap_eq_some (d : Tree) (m : PerType) : readMap d = some m ↔ MeantBy d m := by
  have hentries (es : List (String × List String)) : entries readTexts d = some es ↔
      d.IsEntries (Tree.IsList Tree.IsText) es := by simp only [entries_eq_some, readTexts_eq_some]
  have hread : readMap d = (entries readTexts d).map PerType.ofEntries := (Option.map_eq_bind ..).symm
  rw [hread, Option.map_eq_some_iff, MeantBy]
  simp only [hentries, eq_comm]

private theorem read_perType : (fun o : RuleSelection => do
      return { o with perType := PerType.ofEntries (← entries readTexts) }) =
    fun o => do return { o with perType := ← PerType.readMap } := by
  funext o d
  change Option.bind _ _ = Option.bind (Option.bind _ _) _
  rw [Option.bind_assoc]
  rfl

theorem RuleSelection.describes : Describes RuleSelection.specs RuleSelection.schema where
  fields :=
    .cons (.of_set (fun o c => { o with disabled := c }) _ rfl rfl rfl
      (fun _ _ => readTexts_eq_some) (fun _ _ => rfl) (by simp [specs])) <|
    .cons (.of_set (fun o c => { o with perType := c }) PerType.readMap rfl rfl
      read_perType PerType.readMap_eq_some (fun _ _ => rfl) (by simp [specs])) .nil
  nodup := by decide
  blank := by simp [specs, schema]
  ext := by
    rintro ⟨⟩ ⟨⟩
    simp [specs]

theorem Config.describes : Describes Config.specs Config.schema where
  fields :=
    .cons (.of_set (fun c o => { c with engine := o }) _ rfl rfl rfl
      (record_eq_some EngineOptions.describes) (fun _ _ => rfl) (by simp [specs])) <|
    .cons (.of_set (fun c o => { c with rules := o }) _ rfl rfl rfl
      (record_eq_some RuleSelection.describes) (fun _ _ => rfl) (by simp [specs])) <|
    .cons (.of_set (fun c o => { c with staticInitializer := o }) _ rfl rfl rfl
      (record_eq_some RuleOptions.describes) (fun _ _ => rfl) (by simp [specs])) .nil
  nodup := by decide
  blank := by simp [specs, schema]
  ext := by
    rintro ⟨⟩ ⟨⟩
    simp [specs]

end describes

section text

open Json.Reader

/-- At least `k` brackets may be opened. -/
def Levels (k : Nat) : Nat → Tree → Prop := fun n _ => k ≤ n

theorem Levels.inside {k n : Nat} {d : Tree} (h : Levels (k + 1) n d) :
    Tree.Inside (Levels k) n d := by
  unfold Levels at h
  obtain ⟨n, rfl⟩ : ∃ m, n = m + 1 := ⟨n - 1, by omega⟩
  cases d with
  | list ds => exact fun _ _ => Nat.le_of_succ_le_succ h
  | object es => exact fun _ _ => Nat.le_of_succ_le_succ h
  | _ => exact trivial

theorem Levels.of_le {j k n : Nat} {d : Tree} (hjk : j ≤ k) (h : Levels k n d) : Levels j n d :=
  Nat.le_trans hjk h

theorem follows_readTexts : Follows (Levels 1) (readTexts : Reader (List String)) readTexts :=
  (follows_list (follows_scalar _ _)).mono Levels.inside

theorem RuleOptions.follows : Follows (Levels 1) (Json.Reader.record RuleOptions.schema)
    (TreeReader.record RuleOptions.schema) :=
  (follows_record {
    blank := rfl
    fields := .cons ⟨rfl, rfl, fun _ => (follows_scalar _ _).map _⟩ .nil }).mono Levels.inside

theorem EngineOptions.follows : Follows (Levels 1) (Json.Reader.record EngineOptions.schema)
    (TreeReader.record EngineOptions.schema) :=
  (follows_record {
    blank := rfl
    fields :=
      .cons ⟨rfl, rfl, fun _ => (follows_scalar _ _).map _⟩ <|
      .cons ⟨rfl, rfl, fun _ => (follows_scalar _ _).map _⟩ <|
      .cons ⟨rfl, rfl, fun _ => (follows_scalar _ _).map _⟩ .nil }).mono Levels.inside

theorem RuleSelection.follows : Follows (Levels 3) (Json.Reader.record RuleSelection.schema)
    (TreeReader.record RuleSelection.schema) := by
  have hentries := (follows_entries follows_readTexts).mono (Levels.inside (k := 1))
  exact (follows_record {
    blank := rfl
    fields :=
      .cons ⟨rfl, rfl, fun _ => (follows_readTexts.mono (Levels.of_le (by decide))).map _⟩ <|
      .cons ⟨rfl, rfl, fun _ => hentries.map _⟩ .nil }).mono (Levels.inside (k := 2))

theorem Config.follows_read :
    Follows (Levels 4) (Config.read : Reader Config) (Config.read : TreeReader Config) :=
  (follows_record {
    blank := rfl
    fields :=
      .cons ⟨rfl, rfl, fun _ => (EngineOptions.follows.mono (Levels.of_le (by decide))).map _⟩ <|
      .cons ⟨rfl, rfl, fun _ => RuleSelection.follows.map _⟩ <|
      .cons ⟨rfl, rfl, fun _ => (RuleOptions.follows.mono (Levels.of_le (by decide))).map _⟩ .nil
    }).mono (Levels.inside (k := 3))

/-- Settings are read from the texts of the trees that present them; all other texts are errors. -/
theorem Config.parse_json {d : Tree} {text : String} (hw : d.WritesDocument text) :
    (∀ c, d.Presents specs c → parse "json" text = .ok c) ∧
      ((¬∃ c, d.Presents specs c) → ∃ e, parse "json" text = .error (.json e)) := by
  have hr := read_eq Config.follows_read hw (show 4 ≤ Json.levels by decide)
  have hp (c : Config) : (Config.read : TreeReader Config) d = some c ↔ d.Presents specs c :=
    TreeReader.record_eq_some describes d c
  have hparse : parse "json" text = (Json.read Config.read text).mapError .json := rfl
  simp only [← hp, hparse]
  cases hφ : (Config.read : TreeReader Config) d with
  | some c' =>
    rw [hφ] at hr
    simp only [hr]
    simp [Except.mapError]
  | none =>
    rw [hφ] at hr
    obtain ⟨e, he⟩ := hr
    simp [he, Except.mapError]

end text
end InitializerLint
