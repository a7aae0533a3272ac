import InitializerLint.Data.Schema

/-! Decoding of values that were read whole. A record may stand as a map or as the list of
its fields in order. -/
namespace InitializerLint.Data

abbrev Decode (α : Type) := Value → Except Fault α

namespace Decode

variable {α : Type}

def mismatch (expected : String) (v : Value) : Except Fault α :=
  .error (.invalidType v.found expected)

def text (expected : String) : Decode String
  | .text s => .ok s
  | v => mismatch expected v

def flag : Decode Bool
  | .bool b => .ok b
  | v => mismatch "a boolean" v

def word : Decode UInt64
  | .unsigned n => .ok n
  | .signed n => if n < 0 then .error (.invalidValue (.integer n) "usize") else .ok (.ofNat n.toNat)
  | v => mismatch "usize" v

def list (item : Decode α) : Decode (List α)
  | .list vs => vs.mapM item
  | v => mismatch "a sequence" v

/-- The field a key stands for: its name, or its place among the fields. -/
def fieldOf? (s : Schema Decode α) : Value → Except Fault (Option (Field Decode α))
  | .text key => .ok (s.find? key)
  | .unsigned n => .ok s.fields[n.toNat]?
  | v => mismatch "field identifier" v

def entriesFrom (s : Schema Decode α) (given : List String) (a : α) :
    List (Value × Value) → Except Fault α
  | [] =>
    match s.missing? given with
    | some name => .error (.missingField name)
    | none => .ok a
  | (k, v) :: es => do
    match ← fieldOf? s k with
    | none => entriesFrom s given a es
    | some f =>
      if given.contains f.name then .error (.duplicateField f.name)
      else entriesFrom s (f.name :: given) (← f.read a v) es

/-- Fields not reached keep their defaults; `i` elements have been read so far. -/
def elementsFrom (s : Schema Decode α) (i : Nat) (a : α) :
    List (Field Decode α) → List Value → Except Fault α
  | [], [] => .ok a
  | [], rest => .error (.invalidLength (i + rest.length)
      (toString i ++ (if i = 1 then " element" else " elements") ++ " in sequence"))
  | f :: fs, [] =>
    if f.required then .error (.invalidLength i s.expectedElements)
    else elementsFrom s (i + 1) a fs []
  | f :: fs, v :: vs => do elementsFrom s (i + 1) (← f.read a v) fs vs

def record (s : Schema Decode α) : Decode α
  | .map es => entriesFrom s [] s.blank es
  | .list vs => elementsFrom s 0 s.blank s.fields vs
  | v => mismatch s.expected v

def unit : Decode Unit
  | .unit => .ok ()
  | .map [] => .ok ()
  | v => mismatch "unit" v

/-- The variant a key stands for: its name, or its place among the variants. -/
def variant (variants : List (String × α)) : Decode α
  | .text name =>
    match variants.lookup name with
    | some a => .ok a
    | none => .error (.unknownVariant name (variants.map (·.1)))
  | .unsigned n =>
    match variants[n.toNat]? with
    | some (_, a) => .ok a
    | none => .error (.invalidValue (.integer n.toNat)
        ("variant index 0 <= i < " ++ toString variants.length))
  | v => mismatch "variant identifier" v

/-- A choice without content: the variant's name, or a map from it to nothing. -/
def choice (variants : List (String × α)) : Decode α
  | .text name => variant variants (.text name)
  | .map [(k, v)] => do
    let a ← variant variants k
    unit v
    return a
  | .map _ => .error (.invalidValue .map "map with a single key")
  | v => mismatch "string or map" v

end Decode
end InitializerLint.Data
