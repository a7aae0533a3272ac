import InitializerLint.Glob.Pattern

/-! How a glob is matched: plain comparisons where its shape allows them, its byte pattern
otherwise. The last dot of a name's last component decides about extensions. -/
namespace InitializerLint.Glob

/-- The part of a name after its last slash; nothing if that is a step upwards. -/
def baseName (name : List Char) : List Char :=
  let base := (name.reverse.takeWhile (· ≠ '/')).reverse
  if base = ['.', '.'] then [] else base

/-- A base name from its last dot on, or nothing. -/
def extension (base : List Char) : List Char :=
  if base.contains '.' then '.' :: (base.reverse.takeWhile (· ≠ '.')).reverse else []

inductive Plan where
  | base (text : List Char)
  | whole (text : List Char)
  | ext (text : List Char)
  | begins (text : List Char)
  | ends (text : List Char) (component : Bool)
  | patternWithExt (ext : List Char)
  | pattern

namespace Plan

/-- The text of a list of literals. -/
def literals? : List Token → Option (List Char)
  | [] => some []
  | .literal c :: ts => (literals? ts).map (c :: ·)
  | _ :: _ => none

def nonempty? (text : List Char) : Option (List Char) := if text.isEmpty then none else some text

def base? : List Token → Option (List Char)
  | .leadingDirs :: ts => do
    let text ← literals? ts
    if text.contains '/' then none else nonempty? text
  | _ => none

def ext? (ts : List Token) : Option (List Char) :=
  let ts := match ts with
    | .leadingDirs :: ts => ts
    | ts => ts
  match ts with
  | .star :: .literal '.' :: ts => do
    let text ← literals? ts
    if text.contains '.' || text.contains '/' then none else some ('.' :: text)
  | _ => none

def begins? (ts : List Token) : Option (List Char) :=
  match ts.getLast? with
  | some .star => literals? ts.dropLast >>= nonempty?
  | some .trailingDirs => (literals? ts.dropLast).map (· ++ ['/'])
  | _ => literals? ts >>= nonempty?

def ends? (ts : List Token) : Option (List Char × Bool) :=
  match ts with
  | .leadingDirs :: .literal c :: ts => do
    let text ← literals? ts
    some ('/' :: c :: text, true)
  | .leadingDirs :: .star :: ts => closing ts
  | .leadingDirs :: ts => closing ts
  | .star :: ts => closing ts
  | ts => closing ts
where
  closing (ts : List Token) : Option (List Char × Bool) := do
    let text ← literals? ts >>= nonempty?
    if text = ['/'] then none else some (text, false)

/-- The literal extension that every match must have: the literals at the end from the
last dot on, without a slash among them. -/
def requiredExt? (ts : List Token) : Option (List Char) :=
  let rec go (ext : List Char) : List Token → Option (List Char)
    | .literal '/' :: _ => none
    | .literal '.' :: _ => some ('.' :: ext)
    | .literal c :: ts => go (c :: ext) ts
    | _ => none
  go [] ts.reverse

def ofTokens (ts : List Token) : Plan :=
  match base? ts, literals? ts >>= nonempty?, ext? ts, begins? ts, ends? ts, requiredExt? ts with
  | some t, _, _, _, _, _ => .base t
  | none, some t, _, _, _, _ => .whole t
  | none, none, some t, _, _, _ => .ext t
  | none, none, none, some t, _, _ => .begins t
  | none, none, none, none, some (t, c), _ => .ends t c
  | none, none, none, none, none, some t => .patternWithExt t
  | none, none, none, none, none, none => .pattern

/-- Whether matching needs the byte pattern. -/
def usesPattern : Plan → Bool
  | .patternWithExt _ | .pattern => true
  | _ => false

end Plan
end InitializerLint.Glob
