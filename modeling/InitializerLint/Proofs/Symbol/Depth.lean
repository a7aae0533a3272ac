import InitializerLint.Proofs.Json.Depth
import InitializerLint.Proofs.Symbol.Format

/-! The limit on brackets in symbol tables. It holds for the symbols, which are kept before they are
decoded; what stands beside them in a table may be nested at will. -/
namespace InitializerLint

open Json (FieldSpec Reader Tree TreeReader)
open Data (Schema)

/-- Brackets left for a symbol when those of the table and of its list are open. -/
def Symbol.levels : Nat := 125

/-- The symbols of a table, each within the limit. -/
def SymbolTable.limitedSpecs : List (FieldSpec SymbolTable) := [
  ⟨"symbols", (·.symbols), some [],
    Tree.IsList fun d s => d.Within Symbol.levels ∧ s.PresentedBy d⟩]

def SymbolTable.limitedSchema : Schema TreeReader SymbolTable where
  name := "SymbolTable"
  blank := {}
  fields := [⟨"symbols", false, fun _ => return {
    symbols := ← TreeReader.list (TreeReader.within Symbol.levels Symbol.read) }⟩]

section limit

open Json.TreeReader Json.Reader

theorem SymbolTable.describes_limited : Describes limitedSpecs limitedSchema where
  fields := .cons (.of_set (fun _ c => { symbols := c }) _ rfl rfl rfl (fun d as => by
      simp only [list_eq_some, within_eq_some, Symbol.read_eq_some]) (fun _ _ => rfl)
      (by simp [limitedSpecs])) .nil
  nodup := by decide
  blank := by simp [limitedSpecs, limitedSchema]
  ext := by
    rintro ⟨⟩ ⟨⟩
    simp [limitedSpecs]

theorem Symbol.follows_read_within (n : Nat) : Follows (fun m _ => m = n)
    (Symbol.read : Reader Symbol) (within n (Symbol.read : TreeReader Symbol)) := by
  unfold Symbol.read
  rw [← within_bind]
  refine (follows_tagged_within _ _ n _).check fun ⟨k, v⟩ m d rest => ?_
  dsimp only
  cases Symbol.decode k v with
  | ok s => exact .pure s rest
  | error f => exact Json.Scan.reads_failFloating f rest rest

/-- An exact number of brackets left is one less inside a bracket. -/
theorem inside_of_levels {m n : Nat} {d : Tree} (h : m = n + 1) :
    Tree.Inside (fun m _ => m = n) m d := by
  subst h
  cases d with
  | list ds => exact fun _ _ => rfl
  | object es => exact fun _ _ => rfl
  | _ => exact trivial

theorem SymbolTable.follows_read_limited : Follows (fun m _ => m = Json.levels)
    (SymbolTable.read : Reader SymbolTable) (record limitedSchema) := by
  have hlist := (follows_list (Symbol.follows_read_within Symbol.levels)).mono inside_of_levels
  exact (follows_record {
    blank := rfl
    fields := .cons ⟨rfl, rfl, fun _ => hlist.map _⟩ .nil }).mono inside_of_levels

/-- A table is read from the texts of the trees that present it within the limit; all other texts
are errors. -/
theorem SymbolTable.ofJson_limited {d : Tree} {text : String} (hw : d.WritesDocument text) :
    (∀ t, ofJson text = .ok t ↔ d.Presents limitedSpecs t) ∧
      ((¬∃ t, d.Presents limitedSpecs t) → ∃ e, ofJson text = .error (.json e)) := by
  have hr := read_eq SymbolTable.follows_read_limited hw rfl
  have ht (t : SymbolTable) : record limitedSchema d = some t ↔ d.Presents limitedSpecs t :=
    record_eq_some describes_limited d t
  simp only [← ht, ofJson]
  cases hφ : record limitedSchema d with
  | some t' =>
    rw [hφ] at hr
    simp only [hr]
    simp [Except.mapError]
  | none =>
    rw [hφ] at hr
    obtain ⟨e, he⟩ := hr
    simp [he, Except.mapError]

end limit
end InitializerLint
