import InitializerLint.Glob.Lexeme

/-! Globs as token lists: groups are nested and a double star between separators stands
for whole directories. -/
namespace InitializerLint.Glob

inductive Token where
  | literal (c : Char)
  | any
  | star
  | leadingDirs
  | trailingDirs
  | innerDirs
  | charClass (cls : CharClass)
  | alternates (branches : List (List Token))

/-- A group still open: the branch around it and its own finished branches, both reversed. -/
structure Group where
  outer : List Token
  finished : List (List Token)

namespace Token

/-- A double star reaches over directories only after a separator, or, inside a group,
right after an escaped brace or comma. -/
def followsBoundary (prev : Option Char) (groups : List Group) : Bool :=
  prev = some '/' || (!groups.isEmpty && (prev = some ',' || prev = some '{'))

/-- Directories at the end of a branch or between two separators take the place of the
token before them, unless that one spans directories itself. -/
def replaceLast (dirs : Token) : List Token → List Token
  | .leadingDirs :: rest => .leadingDirs :: rest
  | .trailingDirs :: rest => .trailingDirs :: rest
  | _ :: rest => dirs :: rest
  | [] => [dirs]

/-- Read lexemes into `branch` (reversed), inside `groups`, after the character `prev`. -/
def parseFrom (prev : Option Char) (groups : List Group) (branch : List Token) :
    List Lexeme → Except Fault (List Token)
  | [] => if groups.isEmpty then .ok branch.reverse else .error .unclosedGroup
  | .bad f :: _ => .error f
  | .any :: ls => parseFrom (some '?') groups (.any :: branch) ls
  | .literal c _ :: ls => parseFrom (some c) groups (.literal c :: branch) ls
  | .charClass cls :: ls => parseFrom (some ']') groups (.charClass cls :: branch) ls
  | .opening :: ls => parseFrom (some '{') (⟨branch, []⟩ :: groups) [] ls
  | .closing :: ls =>
    match groups with
    | [] => .error .unopenedGroup
    | g :: gs =>
      parseFrom (some '}') gs (.alternates (branch.reverse :: g.finished).reverse :: g.outer) ls
  | .comma :: ls =>
    match groups with
    | [] => parseFrom (some ',') [] (.literal ',' :: branch) ls
    | g :: gs => parseFrom (some ',') (⟨g.outer, branch.reverse :: g.finished⟩ :: gs) [] ls
  | .star :: .star :: ls =>
    if branch.isEmpty then
      match ls with
      | [] => parseFrom (some '*') groups [.leadingDirs] []
      | .literal '/' false :: ls => parseFrom (some '/') groups [.leadingDirs] ls
      | ls => parseFrom (some '*') groups [.star, .star] ls
    else if followsBoundary prev groups then
      match ls with
      | [] => parseFrom (some '*') groups (replaceLast .trailingDirs branch) []
      | .literal '/' false :: ls => parseFrom (some '/') groups (replaceLast .innerDirs branch) ls
      | .comma :: ls =>
        if groups.isEmpty then parseFrom (some '*') groups (.star :: .star :: branch) (.comma :: ls)
        else parseFrom (some '*') groups (replaceLast .trailingDirs branch) (.comma :: ls)
      | .closing :: ls =>
        if groups.isEmpty then parseFrom (some '*') groups (.star :: .star :: branch) (.closing :: ls)
        else parseFrom (some '*') groups (replaceLast .trailingDirs branch) (.closing :: ls)
      | ls => parseFrom (some '*') groups (.star :: .star :: branch) ls
    else parseFrom (some '*') groups (.star :: .star :: branch) ls
  | .star :: ls => parseFrom (some '*') groups (.star :: branch) ls

def parse (text : List Char) : Except Fault (List Token) :=
  parseFrom none [] [] (Lexeme.lex text)

end Token
end InitializerLint.Glob
