import InitializerLint.Data.Decode
import InitializerLint.Json.Value

/-! Typed data read straight from a JSON text. -/
namespace InitializerLint.Json

open Data (Decode Fault Field Schema Source)

/-- A reader knows how many more brackets may be opened inside each other. -/
abbrev Reader := ReaderT Nat Scan

namespace Reader

variable {α : Type}

/-- A value without parts. Another value is a fault at its end, or at its bracket. -/
def scalar (expected : String) (decode : Decode α) : Scan α := do
  Scan.valueStart
  match ← Scan.scalar? with
  | some v =>
    match decode v with
    | .ok a => return a
    | .error f => Scan.failHere (.fault f)
  | none =>
    match ← Scan.peek with
    | some '[' => Scan.failHere (.fault (.invalidType .list expected))
    | some '{' => Scan.failHere (.fault (.invalidType .map expected))
    | _ => Scan.failPeek .expectedValue

/-- Neither scalars nor the other kind of bracket are welcome. -/
def mismatch (expected : String) : Scan α := scalar expected (Decode.mismatch expected)

/-- Read inside a bracket, one level down. -/
def nested (close : Cursor → Cursor × Option Failure) (body : Reader α) : Reader α
  | 0 => Scan.failPeek .recursionLimit
  | levels + 1 => Scan.enclosed close (body levels)

def list (item : Reader α) : Reader (List α) := do
  Scan.valueStart
  match ← Scan.peek with
  | some '[' => nested Scan.closeList fun levels => Scan.items (item levels)
  | _ => mismatch "a sequence"

def entries (item : Reader α) : Reader (List (String × α)) := do
  Scan.valueStart
  match ← Scan.peek with
  | some '{' => nested Scan.closeObject fun levels => Scan.entries (item levels)
  | _ => mismatch "a map"

/-- The first of the fields from the `i`-th on that may not be left out. -/
def checkRest (s : Schema Reader α) (i : Nat) (a : α) : List (Field Reader α) → Scan α
  | [] => return a
  | f :: fs =>
    if f.required then Scan.failFloating (.invalidLength i s.expectedElements)
    else checkRest s (i + 1) a fs

/-- The fields of a record as the items of a list; fields not reached keep their defaults. -/
def elementsFrom (s : Schema Reader α) (levels : Nat) (i : Nat) (a : α) :
    List (Field Reader α) → Scan α
  | [] => return a
  | f :: fs => do
    if ← Scan.nextItem (i = 0) then
      elementsFrom s levels (i + 1) (← f.read a levels) fs
    else checkRest s i a (f :: fs)

/-- The entries of a record; keys that name no field are passed over. -/
def fieldsFrom (s : Schema Reader α) (levels : Nat) (given : List String) (a : α) :
    Nat → Scan α
  | 0 => Scan.failPeek .eofObject
  | n + 1 => do
    match ← Scan.nextKey given.isEmpty with
    | none =>
      match s.missing? given with
      | some name => Scan.failFloating (.missingField name)
      | none => return a
    | some key =>
      match s.find? key with
      | none => do
        Scan.colon
        Scan.skipValue
        fieldsFrom s levels (key :: given) a n
      | some f =>
        if given.contains key then Scan.failFloating (.duplicateField key)
        else do
          Scan.colon
          fieldsFrom s levels (key :: given) (← f.read a levels) n

def record (s : Schema Reader α) : Reader α := do
  Scan.valueStart
  match ← Scan.peek with
  | some '[' => nested Scan.closeList fun levels => elementsFrom s levels 0 s.blank s.fields
  | some '{' => nested Scan.closeObject fun levels =>
      Scan.bounded (fieldsFrom s levels [] s.blank)
  | _ => mismatch s.expected

def variant (variants : List (String × α)) : Scan α :=
  scalar "variant identifier" fun
    | .text name => Decode.variant variants (.text name)
    | v => Decode.mismatch "variant identifier" v

/-- The entries of a tagged map: the tag is read at once, the others are kept. -/
def taggedEntriesFrom (key : String) (variants : List (String × α)) (levels : Nat)
    (tag : Option α) (isFirst : Bool) : Nat → Scan (α × List (Data.Value × Data.Value))
  | 0 => Scan.failPeek .eofObject
  | n + 1 => do
    match ← Scan.nextKey isFirst with
    | none =>
      match tag with
      | some t => return (t, [])
      | none => Scan.failFloating (.missingField key)
    | some k =>
      if k = key then
        if tag.isSome then Scan.failFloating (.duplicateField key)
        else do
          Scan.colon
          let t ← variant variants
          taggedEntriesFrom key variants levels (some t) false n
      else do
        Scan.colon
        let v ← Scan.value levels
        let (t, es) ← taggedEntriesFrom key variants levels tag false n
        return (t, (.text k, v) :: es)

/-- A tagged list has its tag in front. -/
def taggedItems (key : String) (variants : List (String × α)) (levels : Nat) :
    Scan (α × List Data.Value) := do
  if ← Scan.nextItem true then
    let t ← variant variants
    return (t, ← Scan.bounded (Scan.itemsFrom (Scan.value levels) false))
  else Scan.failFloating (.missingField key)

def tagged (expected key : String) (variants : List (String × α)) : Reader (α × Data.Value) := do
  Scan.valueStart
  match ← Scan.peek with
  | some '[' => do
    let (t, vs) ← nested Scan.closeList (taggedItems key variants)
    return (t, .list vs)
  | some '{' => do
    let (t, es) ← nested Scan.closeObject fun levels =>
      Scan.bounded (taggedEntriesFrom key variants levels none true)
    return (t, .map es)
  | _ => mismatch expected

instance : Source Reader where
  fail f := fun _ => Scan.failFloating f
  text expected := fun _ => scalar expected (Decode.text expected)
  flag := fun _ => scalar "a boolean" Decode.flag
  word := fun _ => scalar "usize" Decode.word
  list := list
  entries := entries
  record := record
  tagged := tagged

end Reader

/-- A failure and the line and column it is reported at. -/
structure Error where
  cause : Cause
  line : Nat
  column : Nat

def Error.message (e : Error) : String :=
  e.cause.message ++ " at line " ++ toString e.line ++ " column " ++ toString e.column

/-- Line, from one, and bytes since the last line break, of the place `offset` bytes in. -/
def position (offset : Nat) : (line lineStart here : Nat) → List Char → Nat × Nat
  | line, lineStart, _, [] => (line, offset - lineStart)
  | line, lineStart, here, c :: cs =>
    if offset ≤ here then (line, offset - lineStart)
    else
      let here := here + c.utf8Size
      if c = '\n' then position offset (line + 1) here here cs
      else position offset line lineStart here cs

def Failure.locate (text : List Char) : Failure → Error
  | .placed cause offset =>
    let (l, c) := position offset 1 0 0 text
    ⟨cause, l, c⟩
  | .floating f cursor =>
    let (l, c) := position cursor.offset 1 0 0 text
    ⟨.fault f, l, c⟩

/-- The 128th bracket inside each other is one too many. -/
def levels : Nat := 127

/-- Read a whole text, blanks around it allowed. -/
def read {α : Type} (r : Reader α) (text : String) : Except Error α :=
  let whole : Scan α := do
    let a ← r levels
    Scan.skipSpace
    if (← Scan.peek).isSome then Scan.failPeek .trailingCharacters else return a
  match whole ⟨text.toList, 0⟩ with
  | .ok (a, _) => .ok a
  | .error e => .error (e.locate text.toList)

end InitializerLint.Json
