import InitializerLint.Symbol.Location

/-! What a rule reports about a declaration. -/
namespace InitializerLint

inductive Severity where
  | info | warning | error
deriving DecidableEq

namespace Severity

def text : Severity → String
  | .info => "info"
  | .warning => "warning"
  | .error => "error"

/-- From the mildest to the gravest. -/
def all : List Severity := [.info, .warning, .error]

def ofText? (s : String) : Option Severity := all.find? (·.text == s)

def rank : Severity → Nat
  | .info => 0
  | .warning => 1
  | .error => 2

instance : LE Severity := ⟨fun a b => a.rank ≤ b.rank⟩
instance (a b : Severity) : Decidable (a ≤ b) := Nat.decLe a.rank b.rank
instance : Max Severity := ⟨fun a b => if a ≤ b then b else a⟩
instance : Inhabited Severity := ⟨.warning⟩

def gravest? (xs : List Severity) : Option Severity := xs.max?

def sorted (xs : List Severity) : List Severity := xs.mergeSort fun a b => a ≤ b

end Severity

inductive Category where
  | performance
deriving DecidableEq

namespace Category

def text : Category → String
  | .performance => "Performance"

def all : List Category := [.performance]

def ofText? (s : String) : Option Category := all.find? (·.text == s)

end Category

structure Finding where
  ruleId : String
  severity : Severity
  category : Category
  message : String
  location : Option Location
deriving DecidableEq

namespace Finding

def isWarning (f : Finding) : Bool := f.severity = .warning
def isError (f : Finding) : Bool := f.severity = .error

def text (f : Finding) : String :=
  (match f.location with
    | some l => l.text ++ ": "
    | none => "") ++ f.severity.text ++ " " ++ f.ruleId ++ ": " ++ f.message

end Finding
end InitializerLint
