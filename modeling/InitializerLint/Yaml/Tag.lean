import InitializerLint.Yaml.Cursor

/-! Tags and the directives that name their handles. A tag's text is kept in bytes, since
its escapes may spell any. -/
namespace InitializerLint.Yaml

/-- A tag as written: with no handle, the suffix is the whole tag. -/
structure TagName where
  handle : List Char
  suffix : List UInt8

inductive Directive where
  | version (major minor : Nat)
  | tag (handle : List Char) (uri : List UInt8)

namespace Scan

def isUriChar (verbatim : Bool) (c : Char) : Bool :=
  isWordChar c || [';', '/', '?', ':', '@', '&', '=', '+', '$', '.', '!', '~', '*', '\'', '(', ')', '%'].contains c ||
    (verbatim && [',', '[', ']'].contains c)

def uriOctet : Scan Nat := do
  match ← peek, (← peek 1).bind hexValue?, (← peek 2).bind hexValue? with
  | some '%', some a, some b => do
    skip
    skip
    skip
    return 16 * a + b
  | _, _, _ => fail

def uriTail : Nat → Scan (List UInt8)
  | 0 => return []
  | n + 1 => do
    let b ← uriOctet
    if b / 64 = 2 then return .ofNat b :: (← uriTail n) else fail

/-- The escaped bytes of one character: the first tells how many there are. -/
def uriEscape : Scan (List UInt8) := do
  let b ← uriOctet
  let more ←
    if b < 0x80 then pure 0
    else if b / 32 = 6 then pure 1
    else if b / 16 = 14 then pure 2
    else if b / 8 = 30 then pure 3
    else fail
  return .ofNat b :: (← uriTail more)

def uriFrom (verbatim : Bool) : Nat → Scan (List UInt8)
  | 0 => return []
  | n + 1 => do
    match ← peek with
    | some '%' => do
      let e ← uriEscape
      return e ++ (← uriFrom verbatim n)
    | some c =>
      if isUriChar verbatim c then do
        skip
        return String.utf8EncodeChar c ++ (← uriFrom verbatim n)
      else return []
    | none => return []

def uri (verbatim : Bool) : Scan (List UInt8) := bounded (uriFrom verbatim)

/-- An exclamation mark, a word, and a second mark if there is one. -/
def tagHandle : Scan (List Char) := do
  if (← peek) = some '!' then do
    skip
    let word ← takeWhile isWordChar
    if (← peek) = some '!' then do
      skip
      return '!' :: word ++ ['!']
    else return '!' :: word
  else fail

/-- A tag counts up to its first zero byte only. -/
def beforeZero (bytes : List UInt8) : List UInt8 := bytes.takeWhile (· ≠ 0)

/-- A handle ends in a second mark; a word without one belongs to the suffix. -/
def tagName : Scan TagName := do
  if (← peek 1) = some '<' then do
    skip
    skip
    let u ← uri true
    if u.isEmpty || (← peek) ≠ some '>' then fail
    else do
      skip
      return ⟨[], beforeZero u⟩
  else do
    let handle ← tagHandle
    if 1 < handle.length && handle.getLast? = some '!' then do
      let u ← uri false
      if u.isEmpty then fail else return ⟨handle, beforeZero u⟩
    else do
      let suffix := beforeZero (Text.bytes (handle.drop 1) ++ (← uri false))
      return if suffix.isEmpty then ⟨[], [33]⟩ else ⟨['!'], suffix⟩

def tag (inFlow : Bool) : Scan TagName := do
  let t ← tagName
  let next ← peek
  if isBlankOrEnd next || (inFlow && next = some ',') then return t else fail

/-- The name of an anchor or alias, after its indicator. -/
def anchorName : Scan (List Char) := do
  skip
  let name ← takeWhile isWordChar
  let next ← peek
  if name.isEmpty then fail
  else if isBlankOrEnd next || next.any (['?', ':', ',', ']', '}', '%', '@', '\x60'].contains ·) then
    return name
  else fail

def versionNumber : Scan Nat := do
  let ds ← takeWhile isDigit
  if ds.isEmpty || 9 < ds.length then fail
  else return ds.foldl (fun n d => 10 * n + (d.toNat - '0'.toNat)) 0

def versionDirective : Scan Directive := do
  skipBlanks
  let major ← versionNumber
  if (← peek) = some '.' then do
    skip
    return .version major (← versionNumber)
  else fail

def tagDirective : Scan Directive := do
  skipBlanks
  let handle ← tagHandle
  if 1 < handle.length && handle.getLast? ≠ some '!' then fail
  else if !(← peek).any isBlank then fail
  else do
    skipBlanks
    let u ← uri true
    if u.isEmpty || !isBlankOrEnd (← peek) then fail else return .tag handle (beforeZero u)

/-- A directive and the rest of its line, which may hold a comment. -/
def directive : Scan Directive := do
  skip
  let name ← takeWhile isWordChar
  if !isBlankOrEnd (← peek) then fail
  else do
    let d ←
      if name = ['Y', 'A', 'M', 'L'] then versionDirective
      else if name = ['T', 'A', 'G'] then tagDirective
      else fail
    skipBlanks
    skipComment
    if isBreakOrEnd (← peek) then do
      skipBreak
      return d
    else fail

end Scan
end InitializerLint.Yaml
