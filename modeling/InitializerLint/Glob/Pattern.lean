import InitializerLint.Glob.Token

/-! Byte patterns: what a glob's tokens mean on the UTF-8 bytes of a name.

A match is found by following the set of reachable positions through the pattern. -/
namespace InitializerLint.Glob

inductive Pattern where
  | byte (b : UInt8)
  | anyByte
  | anyBytes
  | optionalSlash
  | oneOf (negated : Bool) (ranges : List (UInt8 × UInt8))
  | choice (branches : List (List Pattern))

def slash : UInt8 := 47

/-- The byte ranges of a class: a character gives each of its bytes, and a range runs from
the last byte of its lower end to the first byte of its upper end. -/
def byteRanges : Char × Char → List (UInt8 × UInt8)
  | (a, b) =>
    let single := fun x : UInt8 => (x, x)
    let xs := String.utf8EncodeChar a
    if a = b then xs.map single
    else
      match xs.getLast?, String.utf8EncodeChar b with
      | some x, y :: ys => xs.dropLast.map single ++ (x, y) :: ys.map single
      | _, _ => []

def inRanges (ranges : List (UInt8 × UInt8)) (b : UInt8) : Bool :=
  ranges.any fun r => r.1 ≤ b && b ≤ r.2

namespace Pattern

mutual

/-- A branch that means nothing is no alternative; a group without alternatives is empty. -/
def ofToken : Token → List Pattern
  | .literal c => (String.utf8EncodeChar c).map .byte
  | .any => [.anyByte]
  | .star => [.anyBytes]
  | .leadingDirs => [.choice [[.optionalSlash], [.anyBytes, .byte slash]]]
  | .trailingDirs => [.byte slash, .anyBytes]
  | .innerDirs => [.choice [[.byte slash], [.byte slash, .anyBytes, .byte slash]]]
  | .charClass cls => [.oneOf cls.negated (cls.ranges.flatMap byteRanges)]
  | .alternates bs =>
    match (ofBranches bs).filter (!·.isEmpty) with
    | [] => []
    | parts => [.choice parts]

def ofTokens : List Token → List Pattern
  | [] => []
  | t :: ts => ofToken t ++ ofTokens ts

def ofBranches : List (List Token) → List (List Pattern)
  | [] => []
  | b :: bs => ofTokens b :: ofBranches bs

end

/-- A glob that is nothing but a double star matches everything. -/
def ofGlob : List Token → List Pattern
  | [.leadingDirs] => [.anyBytes]
  | ts => ofTokens ts

mutual

/-- How deep a pattern is nested, each group, choice, repetition and class counting once. -/
def depth : Pattern → Nat
  | .byte _ | .anyByte => 0
  | .anyBytes | .optionalSlash => 1
  | .oneOf _ ranges => if ranges.length ≥ 2 then 2 else 1
  | .choice bs => (if bs.length ≥ 2 then 2 else 1) + branchesDepth bs

def itemsDepth : List Pattern → Nat
  | [] => 0
  | p :: ps => max p.depth (itemsDepth ps)

def branchesDepth : List (List Pattern) → Nat
  | [] => 0
  | b :: bs => max ((if b.length ≥ 2 then 1 else 0) + itemsDepth b) (branchesDepth bs)

end

def nestingLimit : Nat := 250

/-- The whole pattern, anchored at both ends, is one more sequence around its items. -/
def tooDeep (ps : List Pattern) : Bool := nestingLimit < 1 + itemsDepth ps

/-- Positions reached by one byte of `accept`. Entry `i` of `reached` says whether the first `i`
bytes of the name can have been passed. -/
def stepByte (accept : UInt8 → Bool) (name : List UInt8) (reached : List Bool) : List Bool :=
  false :: List.zipWith (fun r b => r && accept b) reached name

/-- Positions at or after a reached one. -/
def stepAny (seen : Bool) : List Bool → List Bool
  | [] => []
  | r :: rs => (seen || r) :: stepAny (seen || r) rs

def union (a b : List Bool) : List Bool := List.zipWith (· || ·) a b

mutual

def step (name : List UInt8) : Pattern → List Bool → List Bool
  | .byte b, reached => stepByte (· == b) name reached
  | .anyByte, reached => stepByte (fun _ => true) name reached
  | .anyBytes, reached => stepAny false reached
  | .optionalSlash, reached => union reached (stepByte (· == slash) name reached)
  | .oneOf negated ranges, reached => stepByte (fun b => inRanges ranges b != negated) name reached
  | .choice bs, reached => stepBranches name bs reached

def stepItems (name : List UInt8) : List Pattern → List Bool → List Bool
  | [], reached => reached
  | p :: ps, reached => stepItems name ps (p.step name reached)

def stepBranches (name : List UInt8) : List (List Pattern) → List Bool → List Bool
  | [], reached => reached.map fun _ => false
  | b :: bs, reached => union (stepItems name b reached) (stepBranches name bs reached)

end

/-- Before anything is read only the start is reached. -/
def start (name : List UInt8) : List Bool := true :: name.map fun _ => false

def matchesBytes (ps : List Pattern) (name : List UInt8) : Bool :=
  (stepItems name ps (start name)).getLast?.getD false

end Pattern
end InitializerLint.Glob
