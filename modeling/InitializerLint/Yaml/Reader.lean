import InitializerLint.Data.Decode
import InitializerLint.Yaml.Scalar

/-! Typed data read from a YAML document.

The nodes are read from left to right; an alias is read where its anchor stands. -/
namespace InitializerLint.Yaml

open Data (Decode Fault Field Schema Source Value)

inductive Path where
  | root
  | key (parent : Path) (name : String)
  | item (parent : Path) (index : Nat)
  | unknown (parent : Path)

namespace Path

def text : Path → String
  | .root => "."
  | .key .root name => name
  | .key p name => p.text ++ "." ++ name
  | .item p i => p.text ++ "[" ++ toString i ++ "]"
  | .unknown .root => "?"
  | .unknown p => p.text ++ ".?"

end Path

structure Place where
  path : Path
  mark : Mark

/-- Every way in which a text is malformed is `damaged`. A fault without a place
gets that of the collection it was found in. -/
inductive Failure where
  | damaged
  | tooDeep (mark : Mark)
  | tooManyRepetitions
  | fault (f : Fault) (place : Option Place)

def wording : Data.Wording := ⟨"unit value", Number.Binary64.plain⟩

/-- The start of the text is not mentioned. -/
def Mark.message (m : Mark) : String :=
  if m.line = 0 && m.column = 0 then ""
  else " at line " ++ toString (m.line + 1) ++ " column " ++ toString (m.column + 1)

def Place.describe (message : String) (p : Place) : String :=
  (match p.path with
    | .root => message
    | path => path.text ++ ": " ++ message) ++ p.mark.message

/-- The text of a failure that is not about the form of the document. -/
def Failure.message : Failure → String
  | .damaged => "malformed document"
  | .tooDeep m => "recursion limit exceeded" ++ m.message
  | .tooManyRepetitions => "repetition limit exceeded"
  | .fault f none => f.message wording
  | .fault f (some p) => p.describe (f.message wording)

/-- What stays the same while a node is read. -/
structure Context where
  document : Document
  path : Path

/-- The nodes left, and how many aliases have been followed. -/
structure State where
  rest : List Node
  jumps : Nat

abbrev Read := ReaderT Context (StateT State (Except Failure))

namespace Read

variable {α : Type}

def fail (e : Failure) : Read α := fun _ _ => .error e
def failFault (f : Fault) : Read α := fail (.fault f none)

def peek : Read Node := fun _ s =>
  match s.rest with
  | n :: _ => .ok (n, s)
  | [] => .error .damaged

def drop : Read Unit := fun _ s => .ok ((), { s with rest := s.rest.drop 1 })

def next : Read Node := do
  let n ← peek
  drop
  return n

def under (segment : Path → Path) (x : Read α) : Read α := fun c =>
  x { c with path := segment c.path }

/-- A fault that has no place yet is about the node at `mark`. -/
def placed (mark : Mark) (x : Read α) : Read α := fun c s =>
  match x c s with
  | .error (.fault f none) => .error (.fault f (some ⟨c.path, mark⟩))
  | r => r

/-- Read elsewhere and come back. -/
def elsewhere (nodes : List Node) (x : Read α) : Read α := fun c s =>
  (x c { s with rest := nodes }).map fun (a, s') => (a, { s with jumps := s'.jumps })

/-- A document of `n` nodes may follow `100 * n` aliases. -/
def follow (id : Nat) : Read (List Node) := fun c s =>
  let s := { s with jumps := s.jumps + 1 }
  if c.document.nodes.length * 100 < s.jumps then .error .tooManyRepetitions
  else match c.document.anchors.lookup id with
    | some position => .ok (c.document.nodes.drop position, s)
    | none => .error .damaged

/-- Read one node, at its anchor if it is an alias. -/
def node (x : Node → Read α) : Read α := do
  let n ← next
  match n.kind with
  | .alias id =>
    match ← follow id with
    | t :: ts => elsewhere ts (placed t.mark (x t))
    | [] => fail .damaged
  | _ => placed n.mark (x n)

/-- Run a loop with as many rounds as there are nodes left. -/
def bounded (loop : Nat → Read α) : Read α := fun c s => loop s.rest.length c s

/-- What a node is found to be when something else is expected. -/
def mismatch (expected : String) (n : Node) : Read α :=
  match n.kind with
  | .scalar tag style s =>
    match Scalar.meaning tag style s with
    | .ok m => failFault (.invalidType m.found expected)
    | .error f => failFault f
  | .sequenceStart _ => failFault (.invalidType .list expected)
  | .mappingStart _ => failFault (.invalidType .map expected)
  | _ => fail .damaged

/-- The items of a sequence and its end; the item reader is given the item's number. -/
def itemsFrom (item : Read α) (i : Nat) : Nat → Read (List α)
  | 0 => fail .damaged
  | n + 1 => do
    match (← peek).kind with
    | .sequenceEnd => do
      drop
      return []
    | _ => do
      let a ← under (.item · i) item
      return a :: (← itemsFrom item (i + 1) n)

def items (item : Read α) : Read (List α) := bounded (itemsFrom item 0)

/-- How a path names the value of a key: only a scalar can be shown. -/
def segment (key : Node) (p : Path) : Path :=
  match key.kind with
  | .scalar _ _ s => .key p s
  | _ => .unknown p

def entriesFrom {κ : Type} (key : Read κ) (item : Read α) : Nat → Read (List (κ × α))
  | 0 => fail .damaged
  | n + 1 => do
    let k ← peek
    match k.kind with
    | .mappingEnd => do
      drop
      return []
    | _ => do
      let a ← key
      let b ← under (segment k) item
      return (a, b) :: (← entriesFrom key item n)

/-- The entries of a mapping and its end. -/
def entries {κ : Type} (key : Read κ) (item : Read α) : Read (List (κ × α)) :=
  bounded (entriesFrom key item)

/-- A scalar's meaning where a value is to be kept. -/
def keptScalar (expected : String) (tag : Option Tag) (style : Style) (s : String) : Read Value :=
  match Scalar.meaning tag style s with
  | .ok (.value v) => return v
  | .ok (.wide n) => failFault (.invalidType (.wide n) expected)
  | .error f => failFault f

/-- Any value with at most `levels` collections inside each other. A local tag would make it
a variant, which cannot be kept. -/
def valueAs (expected : String) : Nat → Read Value
  | 0 => node fun n =>
    match n.kind with
    | .scalar (some .localTag) _ _ => failFault .taggedContent
    | .scalar tag style s => keptScalar expected tag style s
    | .sequenceStart (some .localTag) => failFault .taggedContent
    | .mappingStart (some .localTag) => failFault .taggedContent
    | .sequenceStart _ => fail (.tooDeep n.mark)
    | .mappingStart _ => fail (.tooDeep n.mark)
    | .void => return .unit
    | _ => fail .damaged
  | levels + 1 => node fun n =>
    match n.kind with
    | .scalar (some .localTag) _ _ => failFault .taggedContent
    | .scalar tag style s => keptScalar expected tag style s
    | .sequenceStart (some .localTag) => failFault .taggedContent
    | .mappingStart (some .localTag) => failFault .taggedContent
    | .sequenceStart _ => return .list (← items (valueAs "any value" levels))
    | .mappingStart _ => do
      let any := valueAs "any value" levels
      return .map (← entries any any)
    | .void => return .unit
    | _ => fail .damaged

def value (levels : Nat) : Read Value := valueAs "any value" levels

/-- Pass over a node with everything in it; `depth` collections are open. -/
def skipFrom (depth : Nat) : Nat → Read Unit
  | 0 => fail .damaged
  | n + 1 => do
    match (← next).kind with
    | .sequenceStart _ => skipFrom (depth + 1) n
    | .mappingStart _ => skipFrom (depth + 1) n
    | .sequenceEnd => if depth ≤ 1 then return () else skipFrom (depth - 1) n
    | .mappingEnd => if depth ≤ 1 then return () else skipFrom (depth - 1) n
    | _ => if depth = 0 then return () else skipFrom depth n

def skip : Read Unit := bounded (skipFrom 0)

end Read

/-- A reader knows how many more collections may be opened inside each other. -/
abbrev Reader := ReaderT Nat Read

namespace Reader

variable {α : Type}

/-- The text of any scalar, whatever it would stand for. -/
def text (expected : String) : Read String :=
  Read.node fun n =>
    match n.kind with
    | .scalar _ _ s => return s
    | _ => Read.mismatch expected n

def spelled (expected : String) (tag : Tag) (parse : String → Option α) : Read α :=
  Read.node fun n =>
    match n.kind with
    | .scalar t style s =>
      match (if Scalar.spells tag t style then parse s else none) with
      | some a => return a
      | none => Read.mismatch expected n
    | _ => Read.mismatch expected n

/-- Whether a node stands for an empty collection. -/
def isVoid (n : Node) : Bool :=
  match n.kind with
  | .void => true
  | .scalar _ style s => style = .plain && s.isEmpty
  | _ => false

/-- Read inside a collection, one level down. -/
def nested (mark : Mark) (levels : Nat) (body : Reader α) : Read α :=
  match levels with
  | 0 => Read.fail (.tooDeep mark)
  | levels + 1 => body levels

def list (item : Reader α) : Reader (List α) := fun levels =>
  Read.node fun n =>
    match n.kind with
    | .sequenceStart _ => nested n.mark levels fun levels => Read.items (item levels)
    | _ => if isVoid n then return [] else Read.mismatch "a sequence" n

def entries (item : Reader α) : Reader (List (String × α)) := fun levels =>
  Read.node fun n =>
    match n.kind with
    | .mappingStart _ =>
      nested n.mark levels fun levels => Read.entries (text "a string") (item levels)
    | _ => if isVoid n then return [] else Read.mismatch "a map" n

def finish (s : Schema Reader α) (given : List String) (a : α) : Read α :=
  match s.missing? given with
  | some name => Read.failFault (.missingField name)
  | none => return a

/-- The entries of a record and its end; keys that name no field are passed over. -/
def fieldsFrom (s : Schema Reader α) (levels : Nat) (given : List String) (a : α) :
    Nat → Read α
  | 0 => Read.fail .damaged
  | n + 1 => do
    let k ← Read.peek
    match k.kind with
    | .mappingEnd => do
      let a ← finish s given a
      Read.drop
      return a
    | _ => do
      let key ← text "field identifier"
      match s.find? key with
      | none => do
        Read.skip
        fieldsFrom s levels given a n
      | some f =>
        if given.contains key then Read.failFault (.duplicateField key)
        else do
          let a ← Read.under (Read.segment k) (f.read a levels)
          fieldsFrom s levels (key :: given) a n

def record (s : Schema Reader α) : Reader α := fun levels =>
  Read.node fun n =>
    match n.kind with
    | .mappingStart _ => nested n.mark levels fun levels =>
        Read.bounded (fieldsFrom s levels [] s.blank)
    | _ => if isVoid n then finish s [] s.blank else Read.mismatch s.expected n

def variant (variants : List (String × α)) : Read α :=
  Read.node fun n =>
    match n.kind with
    | .scalar _ _ name =>
      match Decode.variant variants (.text name) with
      | .ok a => return a
      | .error f => Read.failFault f
    | _ => Read.mismatch "variant identifier" n

/-- The entries of a tagged mapping and its end: the tag is read at once, the others are
kept. -/
def taggedEntriesFrom (key : String) (variants : List (String × α)) (levels : Nat)
    (tag : Option α) : Nat → Read (α × List (Value × Value))
  | 0 => Read.fail .damaged
  | n + 1 => do
    let k ← Read.peek
    match k.kind with
    | .mappingEnd =>
      match tag with
      | some t => do
        Read.drop
        return (t, [])
      | none => Read.failFault (.missingField key)
    | _ => do
      match ← Read.valueAs ("a type tag `" ++ key ++ "` or any other value") levels with
      | .text name =>
        if name = key then
          if tag.isSome then Read.failFault (.duplicateField key)
          else do
            let t ← Read.under (Read.segment k) (variant variants)
            taggedEntriesFrom key variants levels (some t) n
        else keep k (.text name) n
      | v => keep k v n
where
  keep (k : Node) (v : Value) (n : Nat) : Read (α × List (Value × Value)) := do
    let w ← Read.under (Read.segment k) (Read.value levels)
    let (t, es) ← taggedEntriesFrom key variants levels tag n
    return (t, (v, w) :: es)

/-- A tagged sequence has its tag in front. -/
def taggedItems (key : String) (variants : List (String × α)) (levels : Nat) :
    Read (α × List Value) := do
  match (← Read.peek).kind with
  | .sequenceEnd => Read.failFault (.missingField key)
  | _ => do
    let t ← Read.under (.item · 0) (variant variants)
    return (t, ← Read.bounded (Read.itemsFrom (Read.value levels) 1))

def tagged (expected key : String) (variants : List (String × α)) : Reader (α × Value) :=
  fun levels => Read.node fun n =>
    match n.kind with
    | .scalar (some .localTag) _ _ => Read.failFault (.invalidType .tagged expected)
    | .sequenceStart (some .localTag) => Read.failFault (.invalidType .tagged expected)
    | .mappingStart (some .localTag) => Read.failFault (.invalidType .tagged expected)
    | .sequenceStart _ => do
      let (t, vs) ← nested n.mark levels (taggedItems key variants)
      return (t, .list vs)
    | .mappingStart _ => do
      let (t, es) ← nested n.mark levels fun levels =>
        Read.bounded (taggedEntriesFrom key variants levels none)
      return (t, .map es)
    | _ => Read.mismatch expected n

instance : Source Reader where
  fail f := fun _ => Read.failFault f
  text expected := fun _ => text expected
  flag := fun _ => spelled "a boolean" .bool Scalar.bool?
  word := fun _ => spelled "usize" .int Scalar.word?
  list := list
  entries := entries
  record := record
  tagged := tagged

end Reader

def levels : Nat := 128

/-- Read the one document of a text. What was read from a damaged text does not count. -/
def read {α : Type} (r : Reader α) (text : String) : Except Failure α :=
  let document := Document.ofText text
  match r levels ⟨document, .root⟩ ⟨document.nodes, 0⟩ with
  | .ok (a, _) => if document.intact then .ok a else .error .damaged
  | .error e => .error e

end InitializerLint.Yaml
