import InitializerLint.Data.Value

/-! Reading position in a JSON text, and the ways reading can stop. -/
namespace InitializerLint.Json

inductive Cause where
  | eofValue | eofList | eofObject | eofString
  | expectedValue | expectedIdent | expectedColon | expectedListEnd | expectedObjectEnd
  | keyMustBeString | trailingComma | trailingCharacters
  | recursionLimit
  | invalidNumber | numberOutOfRange
  | controlCharacter | invalidEscape | endOfHexEscape | loneSurrogate
  | fault (f : Data.Fault)

def wording : Data.Wording := ⟨"null", Number.Binary64.compact⟩

def Cause.message : Cause → String
  | .eofValue => "EOF while parsing a value"
  | .eofList => "EOF while parsing a list"
  | .eofObject => "EOF while parsing an object"
  | .eofString => "EOF while parsing a string"
  | .expectedValue => "expected value"
  | .expectedIdent => "expected ident"
  | .expectedColon => "expected `:`"
  | .expectedListEnd => "expected `,` or `]`"
  | .expectedObjectEnd => "expected `,` or `\x7d`"
  | .keyMustBeString => "key must be a string"
  | .trailingComma => "trailing comma"
  | .trailingCharacters => "trailing characters"
  | .recursionLimit => "recursion limit exceeded"
  | .invalidNumber => "invalid number"
  | .numberOutOfRange => "number out of range"
  | .controlCharacter => "control character (\\u0000-\\u001F) found while parsing a string"
  | .invalidEscape => "invalid escape"
  | .endOfHexEscape => "unexpected end of hex escape"
  | .loneSurrogate => "lone leading surrogate in hex escape"
  | .fault f => f.message wording

/-- What is left of the text, and how many bytes of it have been read. -/
structure Cursor where
  rest : List Char
  offset : Nat

/-- A fault found by a container is `floating`: it gets its place once the container has
tried to end. -/
inductive Failure where
  | placed (cause : Cause) (offset : Nat)
  | floating (fault : Data.Fault) (cursor : Cursor)

abbrev Scan := StateT Cursor (Except Failure)

def isSpace (c : Char) : Bool := c = ' ' || c = '\n' || c = '\t' || c = '\r'

def isDigit (c : Char) : Bool := '0' ≤ c && c ≤ '9'

namespace Cursor

def drop (c : Cursor) : Cursor :=
  match c.rest with
  | [] => c
  | x :: xs => ⟨xs, c.offset + x.utf8Size⟩

/-- Blanks and digits are one byte each. -/
def dropWhile (p : Char → Bool) (c : Cursor) : Cursor :=
  ⟨c.rest.dropWhile p, c.offset + (c.rest.takeWhile p).length⟩

def skipSpace (c : Cursor) : Cursor := c.dropWhile isSpace

/-- The place of a byte that was only looked at. -/
def peekOffset (c : Cursor) : Nat := if c.rest.isEmpty then c.offset else c.offset + 1

end Cursor

namespace Scan

variable {α : Type}

def failAt (cause : Cause) (offset : Nat) : Scan α := fun _ => .error (.placed cause offset)
def failHere (cause : Cause) : Scan α := fun c => .error (.placed cause c.offset)
def failPeek (cause : Cause) : Scan α := fun c => .error (.placed cause c.peekOffset)
def failFloating (f : Data.Fault) : Scan α := fun c => .error (.floating f c)

def peek : Scan (Option Char) := fun c => .ok (c.rest.head?, c)
def drop : Scan Unit := fun c => .ok ((), c.drop)
def next : Scan (Option Char) := fun c => .ok (c.rest.head?, c.drop)
def skipSpace : Scan Unit := fun c => .ok ((), c.skipSpace)
def offset : Scan Nat := fun c => .ok (c.offset, c)

/-- Run a loop with as many rounds as there are characters left. -/
def bounded (loop : Nat → Scan α) : Scan α := fun c => loop c.rest.length c

/-- The rest of a word; the wrong byte counts as read. -/
def word : List Char → Scan Unit
  | [] => pure ()
  | x :: xs => do
    let start ← offset
    match ← next with
    | none => failHere .eofValue
    | some c => if c = x then word xs else failAt .expectedIdent (start + 1)

end Scan
end InitializerLint.Json
