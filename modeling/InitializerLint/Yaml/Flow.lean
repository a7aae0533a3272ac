import InitializerLint.Yaml.Cursor

/-! Scalars that flow over lines, plain or in quotes: a single line break inside them is a
space, further ones are kept. -/
namespace InitializerLint.Yaml

/-- Blanks and line breaks between two words. -/
structure Gap where
  folded : Bool := false
  spaces : List Char := []
  first : List Char := []
  more : List Char := []

def Gap.text (g : Gap) : List Char :=
  if !g.folded then g.spaces
  else if g.first = ['\n'] then (if g.more.isEmpty then [' '] else g.more)
  else g.first ++ g.more

namespace Scan

/-- Blanks after a line break do not count; a tab among them may not indent a line that is
less than `margin` deep. -/
def gapFrom (margin : Nat) (g : Gap) : Nat → Scan Gap
  | 0 => return g
  | n + 1 => do
    let c ← cursor
    match c.peek with
    | none => return g
    | some x =>
      if isBlank x then
        if g.folded && x = '\t' && c.mark.column < margin then fail
        else do
          skip
          gapFrom margin (if g.folded then g else { g with spaces := g.spaces ++ [x] }) n
      else if isBreak x then do
        let b ← readBreak
        if g.folded then gapFrom margin { g with more := g.more ++ b } n
        else gapFrom margin { folded := true, first := b } n
      else return g

def gap (margin : Nat) (g : Gap) : Scan Gap := bounded (gapFrom margin g)

def endsPlainInFlow (c : Char) : Bool :=
  c = ',' || c = '[' || c = ']' || c = '{' || c = '}'

/-- A word of a plain scalar. A colon ends it before a blank; in a collection so do commas
and brackets, right before which a colon may not stand. -/
def plainWordFrom (inFlow : Bool) : Nat → Scan (List Char)
  | 0 => return []
  | n + 1 => do
    match ← peek, ← peek 1 with
    | none, _ => return []
    | some x, y =>
      if isBlank x || isBreak x then return []
      else if inFlow && x = ':' && y.any (fun y => y = '?' || endsPlainInFlow y) then fail
      else if (x = ':' && isBlankOrEnd y) || (inFlow && endsPlainInFlow x) then return []
      else do
        skip
        return x :: (← plainWordFrom inFlow n)

/-- Words and the gaps between them; also whether the scalar was left after a line break. -/
def plainFrom (inFlow : Bool) (margin : Nat) (text : List Char) (g : Gap) :
    Nat → Scan (List Char × Bool)
  | 0 => return (text, g.folded)
  | n + 1 => do
    let c ← cursor
    if c.atDocumentBoundary || c.peek = some '#' then return (text, g.folded)
    else do
      let word ← bounded (plainWordFrom inFlow)
      let (text, g) := if word.isEmpty then (text, g) else (text ++ g.text ++ word, {})
      match ← peek with
      | none => return (text, g.folded)
      | some x =>
        if !(isBlank x || isBreak x) then return (text, g.folded)
        else do
          let g ← gap margin g
          if !inFlow && (← cursor).mark.column < margin then return (text, g.folded)
          else plainFrom inFlow margin text g n

/-- A plain scalar whose lines, outside collections, are indented by `margin` at least. -/
def plain (inFlow : Bool) (margin : Nat) : Scan (List Char × Bool) :=
  bounded (plainFrom inFlow margin [] {})

def simpleEscape? : Char → Option Nat
  | '0' => some 0x0
  | 'a' => some 0x7
  | 'b' => some 0x8
  | 't' => some 0x9
  | '\t' => some 0x9
  | 'n' => some 0xA
  | 'v' => some 0xB
  | 'f' => some 0xC
  | 'r' => some 0xD
  | 'e' => some 0x1B
  | ' ' => some 0x20
  | '"' => some 0x22
  | '/' => some 0x2F
  | '\\' => some 0x5C
  | 'N' => some 0x85
  | '_' => some 0xA0
  | 'L' => some 0x2028
  | 'P' => some 0x2029
  | _ => none

/-- How many hexadecimal digits follow the letter of an escape. -/
def escapeLength? : Char → Option Nat
  | 'x' => some 2
  | 'u' => some 4
  | 'U' => some 8
  | _ => none

def hexNumber : Nat → Nat → Scan Nat
  | 0, value => return value
  | n + 1, value => do
    match (← peek).bind hexValue? with
    | none => fail
    | some d => do
      skip
      hexNumber n (16 * value + d)

/-- The character an escape stands for, after its backslash. -/
def escape : Scan Char := do
  match ← peek with
  | none => fail
  | some x =>
    match simpleEscape? x, escapeLength? x with
    | some n, _ => do
      skip
      return Char.ofNat n
    | none, some len => do
      skip
      let n ← hexNumber len 0
      if (0xD800 ≤ n && n ≤ 0xDFFF) || 0x10FFFF < n then fail else return Char.ofNat n
    | none, none => fail

/-- Characters up to a blank, the closing quote or an escaped line break; also whether it
was such a break. -/
def quotedWordFrom (quote : Char) : Nat → Scan (List Char × Bool)
  | 0 => return ([], false)
  | n + 1 => do
    match ← peek, ← peek 1 with
    | none, _ => return ([], false)
    | some x, y =>
      if isBlank x || isBreak x then return ([], false)
      else if x = quote then
        if quote = '\'' && y = some '\'' then do
          skip
          skip
          prepend '\'' (← quotedWordFrom quote n)
        else return ([], false)
      else if quote = '"' && x = '\\' then do
        skip
        if y.any isBreak then do
          skipBreak
          return ([], true)
        else do
          let e ← escape
          prepend e (← quotedWordFrom quote n)
      else do
        skip
        prepend x (← quotedWordFrom quote n)
where
  prepend (x : Char) (w : List Char × Bool) : Scan (List Char × Bool) := return (x :: w.1, w.2)

def quotedFrom (quote : Char) (text : List Char) : Nat → Scan (List Char)
  | 0 => fail
  | n + 1 => do
    let c ← cursor
    if c.atDocumentBoundary || c.rest.isEmpty then fail
    else do
      let (word, escapedBreak) ← bounded (quotedWordFrom quote)
      if (← peek) = some quote then do
        skip
        return text ++ word
      else do
        let g ← gap 0 { folded := escapedBreak }
        quotedFrom quote (text ++ word ++ g.text) n

/-- A scalar in quotes, up to and with the closing one. -/
def quoted (quote : Char) : Scan (List Char) := do
  skip
  bounded (quotedFrom quote [])

end Scan
end InitializerLint.Yaml
