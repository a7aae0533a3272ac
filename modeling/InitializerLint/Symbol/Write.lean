import InitializerLint.Json.Document
import InitializerLint.Symbol.Basic

/-! Symbol tables as JSON documents, every field written. -/
namespace InitializerLint

open Json (Document)

def Location.toDocument (l : Location) : Document :=
  .object [("file", .text l.file), ("line", .number l.line.toNat),
    ("column", .number l.column.toNat), ("length", .number l.length.toNat)]

def Constructor.toDocument (c : Constructor) : Document :=
  .object [("is_static", .bool c.isStatic), ("is_implicitly_declared", .bool c.isImplicitlyDeclared)]

def Member.toDocument (m : Member) : Document :=
  .object [("name", .text m.name), ("kind", .text m.kind.text), ("is_static", .bool m.isStatic)]

/-- A symbol names its kind before its own fields. -/
def Symbol.toDocument : Symbol → Document
  | .namedType t => .object [
      ("kind", .text SymbolKind.namedType.text), ("display_name", .text t.displayName),
      ("constructors", .list (t.constructors.map (·.toDocument))),
      ("members", .list (t.members.map (·.toDocument))),
      ("locations", .list (t.locations.map (·.toDocument))),
      ("is_generated", .bool t.isGenerated)]
  | .other k name => .object [("kind", .text k.text), ("name", .text name)]

def SymbolTable.toDocument (t : SymbolTable) : Document :=
  .object [("symbols", .list (t.symbols.map (·.toDocument)))]

end InitializerLint
