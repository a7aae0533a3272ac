import InitializerLint.Data.Value

/-! Records described by their fields, and the sources that typed data is read from. -/
namespace InitializerLint.Data

/-- A field that is read by `m` into a record under construction. -/
structure Field (m : Type → Type) (α : Type) where
  name : String
  required : Bool
  read : α → m α

/-- A record: its fields in order, and the value that has every default in place. -/
structure Schema (m : Type → Type) (α : Type) where
  name : String
  fields : List (Field m α)
  blank : α

namespace Schema

variable {m : Type → Type} {α : Type}

def expected (s : Schema m α) : String := "struct " ++ s.name

def expectedElements (s : Schema m α) : String :=
  s.expected ++ " with " ++ toString s.fields.length ++
    (if s.fields.length = 1 then " element" else " elements")

def find? (s : Schema m α) (key : String) : Option (Field m α) :=
  s.fields.find? (·.name == key)

/-- The first required field that was not given. -/
def missing? (s : Schema m α) (given : List String) : Option String :=
  (s.fields.find? fun f => f.required && !given.contains f.name).map (·.name)

end Schema

/-- Somewhere typed data can be read from, one item after the other. `tagged` reads a map or
list that names its own variant under `key` and leaves the rest to be decoded. -/
class Source (m : Type → Type) extends Monad m where
  fail : {α : Type} → Fault → m α
  text : (expected : String) → m String
  flag : m Bool
  word : m UInt64
  list : {α : Type} → m α → m (List α)
  entries : {α : Type} → m α → m (List (String × α))
  record : {α : Type} → Schema m α → m α
  tagged : {τ : Type} → (expected key : String) → (variants : List (String × τ)) → m (τ × Value)

end InitializerLint.Data
