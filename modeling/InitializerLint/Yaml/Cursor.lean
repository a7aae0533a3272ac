import InitializerLint.Text.Utf8

/-! Reading position in a YAML text. Failure carries nothing: no answer depends on how a
text is malformed. -/
namespace InitializerLint.Yaml

/-- A place in the text, all counted from zero: the index in bytes, the column in
characters. -/
structure Mark where
  index : Nat := 0
  line : Nat := 0
  column : Nat := 0
deriving DecidableEq, Inhabited

structure Cursor where
  rest : List Char
  mark : Mark

/-- Characters that may stand in a text at all. -/
def isAllowed (c : Char) : Bool :=
  let n := c.toNat
  n = 0x9 || n = 0xA || n = 0xD || (0x20 ≤ n && n ≤ 0x7E) || n = 0x85 ||
    (0xA0 ≤ n && n ≤ 0xD7FF) || (0xE000 ≤ n && n ≤ 0xFFFD) || 0x10000 ≤ n

def isBreak (c : Char) : Bool :=
  c = '\r' || c = '\n' || c.toNat = 0x85 || c.toNat = 0x2028 || c.toNat = 0x2029

def isBlank (c : Char) : Bool := c = ' ' || c = '\t'

/-- The classes below hold of the end of the text too. -/
def isBlankOrEnd (c : Option Char) : Bool := c.all fun c => isBlank c || isBreak c

def isBreakOrEnd (c : Option Char) : Bool := c.all isBreak

def isDigit (c : Char) : Bool := '0' ≤ c && c ≤ '9'

/-- Letters of anchors, tag handles and directive names. -/
def isWordChar (c : Char) : Bool :=
  isDigit c || ('A' ≤ c && c ≤ 'Z') || ('a' ≤ c && c ≤ 'z') || c = '_' || c = '-'

def hexValue? (c : Char) : Option Nat :=
  if isDigit c then some (c.toNat - '0'.toNat)
  else if 'a' ≤ c && c ≤ 'f' then some (c.toNat - 'a'.toNat + 10)
  else if 'A' ≤ c && c ≤ 'F' then some (c.toNat - 'A'.toNat + 10)
  else none

namespace Cursor

def peek (c : Cursor) (ahead : Nat := 0) : Option Char := c.rest[ahead]?

def skip (c : Cursor) : Cursor :=
  match c.rest with
  | [] => c
  | x :: xs =>
    ⟨xs, { c.mark with index := c.mark.index + x.utf8Size, column := c.mark.column + 1 }⟩

/-- Pass over `n` characters of a line. -/
def advance (c : Cursor) (n : Nat) : Cursor :=
  let index := c.mark.index + Text.byteLength (c.rest.take n)
  ⟨c.rest.drop n, { c.mark with index := index, column := c.mark.column + n }⟩

/-- Pass over a line break; a carriage return and the line feed after it are one. -/
def skipBreak (c : Cursor) : Cursor :=
  match c.rest with
  | '\r' :: '\n' :: xs => ⟨xs, ⟨c.mark.index + 2, c.mark.line + 1, 0⟩⟩
  | x :: xs => if isBreak x then ⟨xs, ⟨c.mark.index + x.utf8Size, c.mark.line + 1, 0⟩⟩ else c
  | [] => c

/-- What a line break counts as in a text. -/
def breakText (c : Cursor) : List Char :=
  match c.rest with
  | x :: _ =>
    if x.toNat = 0x2028 || x.toNat = 0x2029 then [x] else if isBreak x then ['\n'] else []
  | [] => []

/-- Characters that are no line breaks, passed over while they satisfy `p`. -/
def skipWhile (p : Char → Bool) (c : Cursor) : Cursor :=
  c.advance (c.rest.takeWhile p).length

/-- Three dashes or dots at the start of a line, alone in their word. -/
def atDocumentMark (c : Cursor) (x : Char) : Bool :=
  c.mark.column = 0 && c.rest.take 3 = [x, x, x] && isBlankOrEnd (c.peek 3)

def atDocumentBoundary (c : Cursor) : Bool := c.atDocumentMark '-' || c.atDocumentMark '.'

end Cursor

abbrev Scan := StateT Cursor Option

namespace Scan

variable {α : Type}

def fail : Scan α := fun _ => none
def cursor : Scan Cursor := fun c => some (c, c)
def peek (ahead : Nat := 0) : Scan (Option Char) := fun c => some (c.peek ahead, c)
def skip : Scan Unit := fun c => some ((), c.skip)
def advance (n : Nat) : Scan Unit := fun c => some ((), c.advance n)
def skipBreak : Scan Unit := fun c => some ((), c.skipBreak)
def readBreak : Scan (List Char) := fun c => some (c.breakText, c.skipBreak)

/-- Take characters, none of them a line break, while they satisfy `p`. -/
def takeWhile (p : Char → Bool) : Scan (List Char) := fun c =>
  some (c.rest.takeWhile p, c.skipWhile p)

def skipBlanks : Scan Unit := fun c => some ((), c.skipWhile isBlank)

/-- A comment reaches up to the next line break. -/
def skipComment : Scan Unit := do
  if (← peek) = some '#' then
    let _ ← takeWhile (!isBreak ·)

/-- Run a loop with one more round than there are characters left. -/
def bounded (loop : Nat → Scan α) : Scan α := fun c => loop (c.rest.length + 1) c

end Scan
end InitializerLint.Yaml
