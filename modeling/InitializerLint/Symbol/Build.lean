import InitializerLint.Symbol.Basic

/-! Named types built step by step. -/
namespace InitializerLint

namespace Constructor

def static : Constructor := ⟨true, false⟩
def inst : Constructor := ⟨false, false⟩
def implicit (c : Constructor) : Constructor := { c with isImplicitlyDeclared := true }

end Constructor

namespace Member

def staticMethod (name : String) : Member := ⟨name, .method, true⟩
def instanceMethod (name : String) : Member := ⟨name, .method, false⟩

end Member

inductive BuildStep where
  | constructor (c : Constructor)
  | member (m : Member)
  | staticMethods (count : Nat)
  | instanceMethods (count : Nat)
  | location (l : Location)
  | generated

namespace NamedType

/-- Members `make i` for the next `count` indices `i` of the member list. -/
def generateMembers (t : NamedType) (count : Nat) (make : Nat → Member) : NamedType :=
  { t with members := t.members ++ (List.range' t.members.length count).map make }

def apply (t : NamedType) : BuildStep → NamedType
  | .constructor c => { t with constructors := t.constructors ++ [c] }
  | .member m => { t with members := t.members ++ [m] }
  | .staticMethods n => t.generateMembers n fun i => .staticMethod ("Method" ++ toString i)
  | .instanceMethods n => t.generateMembers n fun i => .instanceMethod ("Instance" ++ toString i)
  | .location l => { t with locations := t.locations ++ [l] }
  | .generated => { t with isGenerated := true }

def build (name : String) (steps : List BuildStep) : NamedType :=
  steps.foldl apply { displayName := name }

end NamedType
end InitializerLint
