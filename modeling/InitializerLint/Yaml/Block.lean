import InitializerLint.Yaml.Cursor

/-! Block scalars: indented lines after a header, kept or folded. -/
namespace InitializerLint.Yaml

inductive Chomping where
  | strip | clip | keep
deriving DecidableEq

structure BlockHeader where
  chomping : Chomping := .clip
  increment : Option Nat := none

namespace Scan

def chomping? : Scan (Option Chomping) := do
  match ← peek with
  | some '+' => do
    skip
    return some .keep
  | some '-' => do
    skip
    return some .strip
  | _ => return none

def increment? : Scan (Option Nat) := do
  match ← peek with
  | some d =>
    if d = '0' then fail
    else if isDigit d then do
      skip
      return some (d.toNat - '0'.toNat)
    else return none
  | none => return none

/-- Chomping and indentation in either order, then nothing but a comment on the line. -/
def blockHeader : Scan BlockHeader := do
  let header ← match ← chomping? with
    | some c => do pure { chomping := c, increment := ← increment? }
    | none =>
      match ← increment? with
      | some i => do pure { chomping := (← chomping?).getD .clip, increment := some i }
      | none => pure {}
  skipBlanks
  skipComment
  if isBreakOrEnd (← peek) then do
    skipBreak
    return header
  else fail

/-- Empty lines and the indentation of the line after them, of which at most `indent`
columns are taken if that is known; also the deepest column seen. -/
def blockBreaksFrom (indent : Option Nat) (deepest : Nat) (breaks : List Char) :
    Nat → Scan (List Char × Nat)
  | 0 => return (breaks, deepest)
  | n + 1 => do
    let c ← cursor
    let spaces := c.rest.takeWhile (· = ' ')
    let taken := match indent with
      | none => spaces.length
      | some i => min spaces.length (i - c.mark.column)
    let here := c.advance taken
    set here
    let deepest := max deepest here.mark.column
    if here.peek = some '\t' && indent.all (here.mark.column < ·) then fail
    else if here.peek.any isBreak then do
      let b ← readBreak
      blockBreaksFrom indent deepest (breaks ++ b) n
    else return (breaks, deepest)

/-- Lines of a block scalar. `lastBreak` ends the text so far and `breaks` are the empty
lines after it; in a folded scalar a break between two lines that both start without a
blank becomes a space. -/
def blockLinesFrom (folded : Bool) (indent : Nat) (text lastBreak breaks : List Char)
    (afterBlank : Bool) : Nat → Scan (List Char × List Char × List Char)
  | 0 => return (text, lastBreak, breaks)
  | n + 1 => do
    let c ← cursor
    if c.mark.column ≠ indent || c.rest.isEmpty then return (text, lastBreak, breaks)
    else do
      let blank := c.peek.any isBlank
      let joint :=
        if folded && lastBreak = ['\n'] && !afterBlank && !blank then
          (if breaks.isEmpty then [' '] else [])
        else lastBreak
      let line ← takeWhile (!isBreak ·)
      let lineBreak ← readBreak
      let (nextBreaks, _) ← bounded (blockBreaksFrom (some indent) 0 [])
      blockLinesFrom folded indent (text ++ joint ++ breaks ++ line) lineBreak nextBreaks blank n

/-- A block scalar inside a block indented to `parent`. -/
def block (folded : Bool) (parent : Int) : Scan (List Char) := do
  skip
  let header ← blockHeader
  let given := header.increment.map fun i => if 0 ≤ parent then parent.toNat + i else i
  let (breaks, deepest) ← bounded (blockBreaksFrom given 0 [])
  let indent := given.getD (max deepest (max (parent + 1).toNat 1))
  let (text, lastBreak, breaks) ← bounded (blockLinesFrom folded indent [] [] breaks false)
  match header.chomping with
  | .strip => return text
  | .clip => return text ++ lastBreak
  | .keep => return text ++ lastBreak ++ breaks

end Scan
end InitializerLint.Yaml
