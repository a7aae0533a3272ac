import InitializerLint.Json.Number
import InitializerLint.Json.Text

/-! JSON values read whole, or passed over. -/
namespace InitializerLint.Json.Scan

variable {α : Type}

/-- A value without parts, if one starts here. -/
def scalar? : Scan (Option Data.Value) := do
  match ← peek with
  | some 'n' => do
    drop
    word ['u', 'l', 'l']
    return some .unit
  | some 't' => do
    drop
    word ['r', 'u', 'e']
    return some (.bool true)
  | some 'f' => do
    drop
    word ['a', 'l', 's', 'e']
    return some (.bool false)
  | some '"' => do
    drop
    return some (.text (← string))
  | some '-' => do
    drop
    return some (← number true)
  | some c => if isDigit c then return some (← number false) else return none
  | none => return none

/-- Skip blanks; something has to follow. -/
def valueStart : Scan Unit := do
  skipSpace
  if (← peek).isNone then failPeek .eofValue

/-- Whether another item follows; `isFirst` if none has been read. -/
def nextItem (isFirst : Bool) : Scan Bool := do
  skipSpace
  match ← peek with
  | none => failPeek .eofList
  | some ']' => return false
  | some c =>
    if isFirst then return true
    else if c = ',' then
      drop
      skipSpace
      match ← peek with
      | some ']' => failPeek .trailingComma
      | some _ => return true
      | none => failPeek .eofValue
    else failPeek .expectedListEnd

def itemsFrom (item : Scan α) (isFirst : Bool) : Nat → Scan (List α)
  | 0 => failPeek .eofList
  | n + 1 => do
    if ← nextItem isFirst then
      let a ← item
      return a :: (← itemsFrom item false n)
    else return []

/-- The items of a list, up to its bracket. -/
def items (item : Scan α) : Scan (List α) := bounded (itemsFrom item true)

/-- The next key of an object, if there is one. -/
def nextKey (isFirst : Bool) : Scan (Option String) := do
  skipSpace
  match ← peek with
  | none => failPeek .eofObject
  | some '}' => return none
  | some c =>
    if isFirst then key c
    else if c = ',' then
      drop
      skipSpace
      match ← peek with
      | some '}' => failPeek .trailingComma
      | some c => key c
      | none => failPeek .eofValue
    else failPeek .expectedObjectEnd
where
  key (c : Char) : Scan (Option String) :=
    if c = '"' then do
      drop
      return some (← string)
    else failPeek .keyMustBeString

def colon : Scan Unit := do
  skipSpace
  match ← peek with
  | none => failPeek .eofObject
  | some ':' => drop
  | some _ => failPeek .expectedColon

def entriesFrom (item : Scan α) (isFirst : Bool) : Nat → Scan (List (String × α))
  | 0 => failPeek .eofObject
  | n + 1 => do
    match ← nextKey isFirst with
    | none => return []
    | some k =>
      colon
      let a ← item
      return (k, a) :: (← entriesFrom item false n)

/-- The entries of an object, up to its brace. -/
def entries (item : Scan α) : Scan (List (String × α)) := bounded (entriesFrom item true)

/-- Where a list stands after it tried to end, and what was in the way. -/
def closeList (c : Cursor) : Cursor × Option Failure :=
  let c := c.skipSpace
  match c.rest with
  | [] => (c, some (.placed .eofList c.peekOffset))
  | ']' :: _ => (c.drop, none)
  | ',' :: _ =>
    let c := c.drop.skipSpace
    let cause := if c.rest.head? = some ']' then .trailingComma else .trailingCharacters
    (c, some (.placed cause c.peekOffset))
  | _ :: _ => (c, some (.placed .trailingCharacters c.peekOffset))

/-- Where an object stands after it tried to end, and what was in the way. -/
def closeObject (c : Cursor) : Cursor × Option Failure :=
  let c := c.skipSpace
  match c.rest with
  | [] => (c, some (.placed .eofObject c.peekOffset))
  | '}' :: _ => (c.drop, none)
  | ',' :: _ => (c, some (.placed .trailingComma c.peekOffset))
  | _ :: _ => (c, some (.placed .trailingCharacters c.peekOffset))

/-- Read what a bracket encloses and then its end. A floating fault is placed after the
attempt to end. -/
def enclosed (close : Cursor → Cursor × Option Failure) (body : Scan α) : Scan α := fun c =>
  match body c.drop with
  | .ok (a, c) =>
    match close c with
    | (c, none) => .ok (a, c)
    | (_, some e) => .error e
  | .error (.floating f c) => .error (.placed (.fault f) (close c).1.offset)
  | .error e => .error e

/-- Any value with at most `levels` brackets inside each other. -/
def value : Nat → Scan Data.Value
  | 0 => do
    valueStart
    match ← scalar?, ← peek with
    | some v, _ => return v
    | none, some '[' => failPeek .recursionLimit
    | none, some '{' => failPeek .recursionLimit
    | none, _ => failPeek .expectedValue
  | levels + 1 => do
    valueStart
    match ← scalar?, ← peek with
    | some v, _ => return v
    | none, some '[' => return .list (← enclosed closeList (items (value levels)))
    | none, some '{' => do
      let es ← enclosed closeObject (entries (value levels))
      return .map (es.map fun e => (.text e.1, e.2))
    | none, _ => failPeek .expectedValue

/-- A value without parts that is passed over: a number may have any size. -/
def skipScalar? : Scan Bool := do
  match ← peek with
  | some '"' => do
    drop
    skipString
    return true
  | some '-' => do
    drop
    let _ ← numeral .invalidNumber
    return true
  | some c =>
    if isDigit c then do
      let _ ← numeral .invalidNumber
      return true
    else return (← scalar?).isSome
  | none => return false

def skipItemsFrom (item : Scan Unit) (isFirst : Bool) : Nat → Scan Unit
  | 0 => failPeek .eofList
  | n + 1 => do
    skipSpace
    match ← peek with
    | none => failPeek .eofList
    | some ']' => drop
    | some c =>
      if isFirst then
        item
        skipItemsFrom item false n
      else if c = ',' then
        drop
        item
        skipItemsFrom item false n
      else failPeek .expectedListEnd

def skipKey : Scan Unit := do
  skipSpace
  match ← peek with
  | some '"' => do
    drop
    skipString
    colon
  | some _ => failPeek .keyMustBeString
  | none => failPeek .eofObject

def skipEntriesFrom (item : Scan Unit) (isFirst : Bool) : Nat → Scan Unit
  | 0 => failPeek .eofObject
  | n + 1 => do
    skipSpace
    match ← peek with
    | none => failPeek .eofObject
    | some '}' => drop
    | some c =>
      if isFirst then
        skipKey
        item
        skipEntriesFrom item false n
      else if c = ',' then
        drop
        skipKey
        item
        skipEntriesFrom item false n
      else failPeek .expectedObjectEnd

def skipValueFrom : Nat → Scan Unit
  | 0 => failPeek .eofValue
  | n + 1 => do
    valueStart
    if ← skipScalar? then pure ()
    else match ← peek with
      | some '[' => do
        drop
        bounded (skipItemsFrom (skipValueFrom n) true)
      | some '{' => do
        drop
        bounded (skipEntriesFrom (skipValueFrom n) true)
      | _ => failPeek .expectedValue

/-- Pass over a value, checking its form only; brackets nest without limit. -/
def skipValue : Scan Unit := bounded skipValueFrom

end InitializerLint.Json.Scan
