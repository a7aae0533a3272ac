import InitializerLint.Yaml.Token

/-! Events: nodes announced one after the other, collections by their two ends.

What is still expected stands on a stack of goals; each round meets the topmost goal with
one event. -/
namespace InitializerLint.Yaml

/-- The tags that matter: four force the type of a scalar, a local one marks a variant. One
that is local but not proper text has no effect. -/
inductive Tag where
  | bool | int | float | null | localTag | noText | other
deriving DecidableEq

structure Properties where
  anchor : Option (List Char) := none
  tag : Option Tag := none

inductive Event.Kind where
  | alias (name : List Char)
  | scalar (props : Properties) (style : Style) (text : List Char)
  | sequenceStart (props : Properties)
  | sequenceEnd
  | mappingStart (props : Properties)
  | mappingEnd

structure Event where
  kind : Event.Kind
  mark : Mark

/-- What the grammar wants next. `blockNode` says whether a sequence may stand without
indentation of its own. -/
inductive Goal where
  | blockNode (indentless : Bool)
  | flowNode
  | blockSequence
  | indentlessSequence
  | blockMappingKey
  | blockMappingValue
  | flowSequence (isFirst : Bool)
  | pairKey
  | pairValue
  | pairEnd
  | flowMappingKey (isFirst : Bool)
  | flowMappingValue
  | flowMappingNoValue
deriving DecidableEq

/-- Tag handles with what they stand for. -/
abbrev Handles := List (List Char × List UInt8)

namespace Tag

def coreUri : List UInt8 := Text.bytes "tag:yaml.org,2002:".toList

/-- A local tag starts with an exclamation mark. -/
def ofUri (uri : List UInt8) : Tag :=
  let isCore := fun name => uri == coreUri ++ Text.bytes name
  if isCore ['b', 'o', 'o', 'l'] then .bool
  else if isCore ['i', 'n', 't'] then .int
  else if isCore ['f', 'l', 'o', 'a', 't'] then .float
  else if isCore ['n', 'u', 'l', 'l'] then .null
  else match uri with
    | 33 :: rest => if (String.fromUTF8? ⟨rest.toArray⟩).isSome then .localTag else .noText
    | _ => .other

/-- Only a handle that is known can be used. -/
def ofName? (handles : Handles) (t : TagName) : Option Tag :=
  if t.handle.isEmpty then some (ofUri t.suffix)
  else (handles.lookup t.handle).map fun uri => ofUri (uri ++ t.suffix)

end Tag

namespace Goal

/-- An event, the goals that follow from it, and the tokens left. -/
abbrev Step := Option (Event × List Goal × List Token)

def emptyScalar (m : Mark) (props : Properties := {}) : Event := ⟨.scalar props .plain [], m⟩

/-- Anchor and tag of a node in either order, the place of the first, and whether there was
any. -/
def properties (handles : Handles) (ts : List Token) :
    Option (Properties × Option Mark × List Token) :=
  match ts with
  | ⟨.anchor a, m, _⟩ :: ⟨.tag t, _, _⟩ :: ts =>
    (Tag.ofName? handles t).map fun t => (⟨some a, some t⟩, some m, ts)
  | ⟨.tag t, m, _⟩ :: ⟨.anchor a, _, _⟩ :: ts =>
    (Tag.ofName? handles t).map fun t => (⟨some a, some t⟩, some m, ts)
  | ⟨.anchor a, m, _⟩ :: ts => some (⟨some a, none⟩, some m, ts)
  | ⟨.tag t, m, _⟩ :: ts => (Tag.ofName? handles t).map fun t => (⟨none, some t⟩, some m, ts)
  | ts => some ({}, none, ts)

/-- Properties without content belong to an empty scalar. -/
def node (handles : Handles) (block indentless : Bool) (ts : List Token) : Step :=
  match ts with
  | ⟨.alias name, m, _⟩ :: ts => some (⟨.alias name, m⟩, [], ts)
  | ts => do
    let (props, place, ts) ← properties handles ts
    let t ← ts.head?
    let m := place.getD t.start
    match t.kind with
    | .scalar style text => some (⟨.scalar props style text, m⟩, [], ts.drop 1)
    | .flowSequenceStart => some (⟨.sequenceStart props, m⟩, [.flowSequence true], ts.drop 1)
    | .flowMappingStart => some (⟨.mappingStart props, m⟩, [.flowMappingKey true], ts.drop 1)
    | .blockEntry =>
      if indentless then some (⟨.sequenceStart props, m⟩, [.indentlessSequence], ts)
      else bare props place ts
    | .blockSequenceStart =>
      if block then some (⟨.sequenceStart props, m⟩, [.blockSequence], ts.drop 1)
      else bare props place ts
    | .blockMappingStart =>
      if block then some (⟨.mappingStart props, m⟩, [.blockMappingKey], ts.drop 1)
      else bare props place ts
    | _ => bare props place ts
where
  bare (props : Properties) (place : Option Mark) (ts : List Token) : Step :=
    place.map fun m => (emptyScalar m props, [], ts)

/-! Tokens before which the part of a collection that they end is empty. -/

def endsBlockItem : Token.Kind → Bool
  | .blockEntry | .blockEnd => true
  | _ => false

def endsIndentlessItem : Token.Kind → Bool
  | .blockEntry | .key | .value | .blockEnd => true
  | _ => false

def endsBlockEntry : Token.Kind → Bool
  | .key | .value | .blockEnd => true
  | _ => false

def endsFlowMappingKey : Token.Kind → Bool
  | .value | .flowEntry | .flowMappingEnd => true
  | _ => false

def endsFlowMappingEntry : Token.Kind → Bool
  | .flowEntry | .flowMappingEnd => true
  | _ => false

def endsPairKey : Token.Kind → Bool
  | .value | .flowEntry | .flowSequenceEnd => true
  | _ => false

def endsPair : Token.Kind → Bool
  | .flowEntry | .flowSequenceEnd => true
  | _ => false

/-- The node after an indicator at `m`, or an empty scalar if the next token ends it. -/
def nodeUnless (ends : Token.Kind → Bool) (read : List Token → Step) (m : Option Mark)
    (follow : Goal) (ts : List Token) : Step := do
  let t ← ts.head?
  if ends t.kind then some (emptyScalar (m.getD t.start), [follow], ts)
  else do
    let (e, gs, ts) ← read ts
    some (e, gs ++ [follow], ts)

def flowSequenceItem (flow : List Token → Step) (ts : List Token) : Step :=
  match ts with
  | [] => none
  | ⟨.flowSequenceEnd, m, _⟩ :: ts => some (⟨.sequenceEnd, m⟩, [], ts)
  | ⟨.key, m, _⟩ :: ts => some (⟨.mappingStart {}, m⟩, [.pairKey, .flowSequence false], ts)
  | ts => (flow ts).map fun (e, gs, ts) => (e, gs ++ [.flowSequence false], ts)

def flowMappingItem (flow : List Token → Step) (ts : List Token) : Step :=
  match ts with
  | [] => none
  | ⟨.flowMappingEnd, m, _⟩ :: ts => some (⟨.mappingEnd, m⟩, [], ts)
  | ⟨.key, _, _⟩ :: ts =>
    nodeUnless endsFlowMappingKey flow none .flowMappingValue ts
  | ts => (flow ts).map fun (e, gs, ts) => (e, gs ++ [.flowMappingNoValue], ts)

def meet (handles : Handles) (goal : Goal) (ts : List Token) : Step :=
  let block := node handles true
  let flow := node handles false false
  match goal with
  | .blockNode indentless => block indentless ts
  | .flowNode => flow ts
  | .blockSequence =>
    match ts with
    | ⟨.blockEntry, _, m⟩ :: ts =>
      nodeUnless endsBlockItem (block false) (some m) .blockSequence ts
    | ⟨.blockEnd, m, _⟩ :: ts => some (⟨.sequenceEnd, m⟩, [], ts)
    | _ => none
  | .indentlessSequence =>
    match ts with
    | ⟨.blockEntry, _, m⟩ :: ts =>
      nodeUnless endsIndentlessItem (block false) (some m) .indentlessSequence ts
    | t :: ts => some (⟨.sequenceEnd, t.start⟩, [], t :: ts)
    | [] => none
  | .blockMappingKey =>
    match ts with
    | ⟨.key, _, m⟩ :: ts => nodeUnless endsBlockEntry (block true) (some m) .blockMappingValue ts
    | ⟨.blockEnd, m, _⟩ :: ts => some (⟨.mappingEnd, m⟩, [], ts)
    | _ => none
  | .blockMappingValue =>
    match ts with
    | ⟨.value, _, m⟩ :: ts =>
      nodeUnless endsBlockEntry (block true) (some m) .blockMappingKey ts
    | t :: ts => some (emptyScalar t.start, [.blockMappingKey], t :: ts)
    | [] => none
  | .flowSequence isFirst =>
    match isFirst, ts with
    | false, ⟨.flowEntry, _, _⟩ :: ts => flowSequenceItem flow ts
    | false, ⟨.flowSequenceEnd, m, _⟩ :: ts => some (⟨.sequenceEnd, m⟩, [], ts)
    | false, _ => none
    | true, ts => flowSequenceItem flow ts
  | .pairKey =>
    match ts with
    | t :: ts =>
      -- an empty key takes the token after it along
      if endsPairKey t.kind then some (emptyScalar t.stop, [.pairValue], ts)
      else (flow (t :: ts)).map fun (e, gs, ts) => (e, gs ++ [.pairValue], ts)
    | [] => none
  | .pairValue =>
    match ts with
    | ⟨.value, _, _⟩ :: ts => nodeUnless endsPair flow none .pairEnd ts
    | t :: ts => some (emptyScalar t.start, [.pairEnd], t :: ts)
    | [] => none
  | .pairEnd => ts.head?.map fun t => (⟨.mappingEnd, t.start⟩, [], ts)
  | .flowMappingKey isFirst =>
    match isFirst, ts with
    | false, ⟨.flowEntry, _, _⟩ :: ts => flowMappingItem flow ts
    | false, ⟨.flowMappingEnd, m, _⟩ :: ts => some (⟨.mappingEnd, m⟩, [], ts)
    | false, _ => none
    | true, ts => flowMappingItem flow ts
  | .flowMappingValue =>
    match ts with
    | ⟨.value, _, _⟩ :: ts =>
      nodeUnless endsFlowMappingEntry flow none (.flowMappingKey false) ts
    | t :: ts => some (emptyScalar t.start, [.flowMappingKey false], t :: ts)
    | [] => none
  | .flowMappingNoValue =>
    ts.head?.map fun t => (emptyScalar t.start, [.flowMappingKey false], ts)

/-- Meet all goals; the tokens left are absent if one could not be met. -/
def meetAll (handles : Handles) (goals : List Goal) (ts : List Token) :
    Nat → List Event × Option (List Token)
  | 0 => ([], none)
  | n + 1 =>
    match goals with
    | [] => ([], some ts)
    | g :: gs =>
      match meet handles g ts with
      | none => ([], none)
      | some (e, new, ts) =>
        let (es, rest) := meetAll handles (new ++ gs) ts n
        (e :: es, rest)

end Goal
end InitializerLint.Yaml
