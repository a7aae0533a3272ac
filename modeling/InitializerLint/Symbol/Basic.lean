import InitializerLint.Symbol.Location

/-! Declarations as a host hands them over: named types with their constructors and
members, and symbols of the other kinds, of which only the name matters. -/
namespace InitializerLint

inductive OtherKind where
  | method | field | property | event | nameSpace
deriving DecidableEq

inductive SymbolKind where
  | namedType
  | other (kind : OtherKind)
deriving DecidableEq

def OtherKind.text : OtherKind → String
  | .method => "method"
  | .field => "field"
  | .property => "property"
  | .event => "event"
  | .nameSpace => "namespace"

namespace SymbolKind

def text : SymbolKind → String
  | .namedType => "named_type"
  | .other k => k.text

/-- Every kind, in the order in which they are listed to the user. -/
def all : List SymbolKind :=
  [.namedType, .other .method, .other .field, .other .property, .other .event, .other .nameSpace]

def ofText? (s : String) : Option SymbolKind := all.find? (·.text == s)

end SymbolKind

inductive MemberKind where
  | method | operator | property | field | event | nestedType
deriving DecidableEq

namespace MemberKind

def text : MemberKind → String
  | .method => "method"
  | .operator => "operator"
  | .property => "property"
  | .field => "field"
  | .event => "event"
  | .nestedType => "nested_type"

/-- Every kind, in the order in which they are listed to the user. -/
def all : List MemberKind := [.method, .operator, .property, .field, .event, .nestedType]

def ofText? (s : String) : Option MemberKind := all.find? (·.text == s)

end MemberKind

structure Constructor where
  isStatic : Bool := false
  isImplicitlyDeclared : Bool := false
deriving DecidableEq, Inhabited

structure Member where
  name : String
  kind : MemberKind
  isStatic : Bool := false
deriving DecidableEq

structure NamedType where
  displayName : String
  constructors : List Constructor := []
  members : List Member := []
  locations : List Location := []
  isGenerated : Bool := false
deriving DecidableEq, Inhabited

/-- A type declared in several places is located at the first of them. -/
def NamedType.location? (t : NamedType) : Option Location := t.locations.head?

inductive Symbol where
  | namedType (type : NamedType)
  | other (kind : OtherKind) (name : String)
deriving DecidableEq

namespace Symbol

def kind : Symbol → SymbolKind
  | .namedType _ => .namedType
  | .other k _ => .other k

def name : Symbol → String
  | .namedType t => t.displayName
  | .other _ n => n

def namedType? : Symbol → Option NamedType
  | .namedType t => some t
  | .other _ _ => none

end Symbol

structure SymbolTable where
  symbols : List Symbol := []
deriving DecidableEq

def SymbolTable.namedTypes (t : SymbolTable) : List NamedType :=
  t.symbols.filterMap Symbol.namedType?

end InitializerLint
