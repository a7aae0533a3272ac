import InitializerLint.Data.Decode
import InitializerLint.Symbol.Basic

/-! Symbol tables read from data. -/
namespace InitializerLint

open Data (Decode Field Schema Source)

def Location.schema : Schema Decode Location where
  name := "Location"
  blank := ⟨"", 0, 0, 0⟩
  fields := [
    ⟨"file", true, fun l v => return { l with file := ← Decode.text "path string" v }⟩,
    ⟨"line", true, fun l v => return { l with line := ← Decode.word v }⟩,
    ⟨"column", true, fun l v => return { l with column := ← Decode.word v }⟩,
    ⟨"length", false, fun l v => return { l with length := ← Decode.word v }⟩]

def Constructor.schema : Schema Decode Constructor where
  name := "ConstructorSymbol"
  blank := {}
  fields := [
    ⟨"is_static", false, fun c v => return { c with isStatic := ← Decode.flag v }⟩,
    ⟨"is_implicitly_declared", false,
      fun c v => return { c with isImplicitlyDeclared := ← Decode.flag v }⟩]

def MemberKind.variants : List (String × MemberKind) := MemberKind.all.map fun k => (k.text, k)

def Member.schema : Schema Decode Member where
  name := "MemberSymbol"
  blank := ⟨"", .method, false⟩
  fields := [
    ⟨"name", true, fun m v => return { m with name := ← Decode.text "a string" v }⟩,
    ⟨"kind", true, fun m v => return { m with kind := ← Decode.choice MemberKind.variants v }⟩,
    ⟨"is_static", false, fun m v => return { m with isStatic := ← Decode.flag v }⟩]

def NamedType.schema : Schema Decode NamedType where
  name := "NamedTypeSymbol"
  blank := { displayName := "" }
  fields := [
    ⟨"display_name", true, fun t v => return { t with displayName := ← Decode.text "a string" v }⟩,
    ⟨"constructors", false, fun t v =>
      return { t with constructors := ← Decode.list (Decode.record Constructor.schema) v }⟩,
    ⟨"members", false, fun t v =>
      return { t with members := ← Decode.list (Decode.record Member.schema) v }⟩,
    ⟨"locations", false, fun t v =>
      return { t with locations := ← Decode.list (Decode.record Location.schema) v }⟩,
    ⟨"is_generated", false, fun t v => return { t with isGenerated := ← Decode.flag v }⟩]

/-- A symbol of another kind is a record of its name alone. -/
def Symbol.nameSchema : Schema Decode String where
  name := "OtherSymbol"
  blank := ""
  fields := [⟨"name", true, fun _ v => Decode.text "a string" v⟩]

/-- A symbol of a known kind out of the rest of its data. -/
def Symbol.decode : SymbolKind → Decode Symbol
  | .namedType, v => (Decode.record NamedType.schema v).map .namedType
  | .other k, v => (Decode.record Symbol.nameSchema v).map (.other k)

def SymbolKind.variants : List (String × SymbolKind) := SymbolKind.all.map fun k => (k.text, k)

section
variable {m : Type → Type} [Source m]

def Symbol.read : m Symbol := do
  let (kind, rest) ← Source.tagged "internally tagged enum Symbol" "kind" SymbolKind.variants
  match Symbol.decode kind rest with
  | .ok s => return s
  | .error f => Source.fail f

def SymbolTable.schema : Schema m SymbolTable where
  name := "SymbolTable"
  blank := {}
  fields := [⟨"symbols", false, fun _ => return { symbols := ← Source.list Symbol.read }⟩]

def SymbolTable.read : m SymbolTable := Source.record SymbolTable.schema

end
end InitializerLint
