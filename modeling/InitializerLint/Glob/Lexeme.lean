/-! The pieces a glob is written in, before groups and double stars are put together. -/
namespace InitializerLint.Glob

/-- Why a text is not a glob. -/
inductive Fault where
  | unclosedClass
  | invalidRange (first last : Char)
  | unopenedGroup
  | unclosedGroup
  | danglingEscape
deriving DecidableEq

def Fault.message : Fault → String
  | .unclosedClass => "unclosed character class; missing ']'"
  | .invalidRange a b => "invalid range; '" ++ a.toString ++ "' > '" ++ b.toString ++ "'"
  | .unopenedGroup => "unopened alternate group; missing '\x7b' (maybe escape '\x7d' with '[\x7d]'?)"
  | .unclosedGroup => "unclosed alternate group; missing '\x7d' (maybe escape '\x7b' with '[\x7b]'?)"
  | .danglingEscape => "dangling '\\'"

/-- A character class; the ranges stand in the order in which they are written. -/
structure CharClass where
  negated : Bool
  ranges : List (Char × Char)
deriving DecidableEq

inductive Lexeme where
  | literal (c : Char) (escaped : Bool)
  | any
  | star
  | opening
  | closing
  | comma
  | charClass (cls : CharClass)
  | bad (fault : Fault)
deriving DecidableEq

namespace Lexeme

/-- What has been read of a class; `ranges` is reversed, and in a range the last of them
waits for its upper end. -/
structure ClassState where
  negated : Bool := false
  isFirst : Bool := true
  inRange : Bool := false
  ranges : List (Char × Char) := []

inductive Mode where
  | text
  | escape
  | classHead
  | classBody (s : ClassState)

/-- What a character does to an open class: it ends the class or extends it. A further
range out of a finished one moves that one's upper end. -/
def ClassState.step (s : ClassState) (c : Char) : Except Fault (CharClass ⊕ ClassState) :=
  let s' := { s with isFirst := false }
  let extend : Except Fault (CharClass ⊕ ClassState) :=
    match s.ranges with
    | (a, _) :: rest =>
      if c < a then .error (.invalidRange a c)
      else .ok (.inr { s' with inRange := false, ranges := (a, c) :: rest })
    | [] => .ok (.inr { s' with inRange := false, ranges := [(c, c)] })
  if c = ']' && !s.isFirst then
    let ranges := if s.inRange then ('-', '-') :: s.ranges else s.ranges
    .ok (.inl ⟨s.negated, ranges.reverse⟩)
  else if c = '-' && !s.isFirst && !s.inRange then
    .ok (.inr { s' with inRange := true })
  else if s.inRange then extend
  else .ok (.inr { s' with ranges := (c, c) :: s.ranges })

def ofChar (c : Char) : Lexeme :=
  match c with
  | '?' => .any
  | '*' => .star
  | '{' => .opening
  | '}' => .closing
  | ',' => .comma
  | c => .literal c false

def lexFrom : Mode → List Char → List Lexeme
  | .text, [] => []
  | .text, c :: cs =>
    if c = '[' then lexFrom .classHead cs
    else if c = '\\' then lexFrom .escape cs
    else ofChar c :: lexFrom .text cs
  | .escape, [] => [.bad .danglingEscape]
  | .escape, c :: cs => .literal c true :: lexFrom .text cs
  | .classHead, [] => [.bad .unclosedClass]
  | .classHead, c :: cs =>
    if c = '!' || c = '^' then lexFrom (.classBody { negated := true }) cs
    else match ClassState.step {} c with
      | .error f => [.bad f]
      | .ok (.inl cls) => .charClass cls :: lexFrom .text cs
      | .ok (.inr s) => lexFrom (.classBody s) cs
  | .classBody _, [] => [.bad .unclosedClass]
  | .classBody s, c :: cs =>
    match s.step c with
    | .error f => [.bad f]
    | .ok (.inl cls) => .charClass cls :: lexFrom .text cs
    | .ok (.inr s) => lexFrom (.classBody s) cs

/-- Reading stops at the first fault, which is then the last lexeme. -/
def lex (text : List Char) : List Lexeme := lexFrom .text text

end Lexeme
end InitializerLint.Glob
