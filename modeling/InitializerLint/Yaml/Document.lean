import InitializerLint.Yaml.Event

/-! The one document of a text: its nodes, with aliases bound to the places they repeat. -/
namespace InitializerLint.Yaml

inductive Node.Kind where
  | void
  | alias (id : Nat)
  | scalar (tag : Option Tag) (style : Style) (text : String)
  | sequenceStart (tag : Option Tag)
  | sequenceEnd
  | mappingStart (tag : Option Tag)
  | mappingEnd

structure Node where
  kind : Node.Kind
  mark : Mark

/-- A document as far as it could be read, and whether that is all of it. `anchors` maps an
anchor's number to a position among the nodes, later entries first. -/
structure Document where
  nodes : List Node
  anchors : List (Nat × Nat)
  intact : Bool

namespace Document

/-- Anchor names with their numbers. A new anchor is numbered by how many names there are,
so a name used again keeps the count. -/
structure Binding where
  names : List (List Char × Nat) := []
  places : List (Nat × Nat) := []

def Binding.add (b : Binding) (name : Option (List Char)) (position : Nat) : Binding :=
  match name with
  | none => b
  | some name =>
    let id := b.names.length
    ⟨(name, id) :: b.names.filter (·.1 ≠ name), (id, position) :: b.places⟩

/-- Events up to the first alias without an anchor before it. -/
def bindFrom (b : Binding) (position : Nat) : List Event → List Node × Binding × Bool
  | [] => ([], b, true)
  | e :: es =>
    let keep (kind : Node.Kind) (b : Binding) :=
      let (ns, b, ok) := bindFrom b (position + 1) es
      (⟨kind, e.mark⟩ :: ns, b, ok)
    match e.kind with
    | .alias name =>
      match b.names.lookup name with
      | some id => keep (.alias id) b
      | none => ([], b, false)
    | .scalar p style text =>
      keep (.scalar p.tag style (String.ofList text)) (b.add p.anchor position)
    | .sequenceStart p => keep (.sequenceStart p.tag) (b.add p.anchor position)
    | .sequenceEnd => keep .sequenceEnd b
    | .mappingStart p => keep (.mappingStart p.tag) (b.add p.anchor position)
    | .mappingEnd => keep .mappingEnd b

def ofEvents (events : List Event) (intact : Bool) : Document :=
  let (nodes, b, bound) := bindFrom {} 0 events
  ⟨nodes, b.places, bound && intact⟩

def defaultHandles : Handles :=
  [(['!'], [33]), (['!', '!'], Tag.coreUri)]

/-- Handles in force under some directives: at most one version, which is 1.1 or 1.2, and
each handle once. -/
def handlesOf (versionSeen : Bool) (handles : Handles) : List Directive → Option Handles
  | [] => some (handles ++ defaultHandles)
  | .version major minor :: ds =>
    if versionSeen || major ≠ 1 || !(minor = 1 || minor = 2) then none
    else handlesOf true handles ds
  | .tag handle uri :: ds =>
    if (handles.lookup handle).isSome then none
    else handlesOf versionSeen (handles ++ [(handle, uri)]) ds

def takeDirectives : List Token → List Directive × List Token
  | ⟨.directive d, _, _⟩ :: ts =>
    let (ds, ts) := takeDirectives ts
    (d :: ds, ts)
  | ts => ([], ts)

def isDocumentEnd (t : Token) : Bool := t.kind matches .documentEnd

/-- After the document there may only be its end marks. -/
def endsStream (ts : List Token) : Bool :=
  match ts.dropWhile isDocumentEnd with
  | t :: _ => (t.kind matches .streamEnd)
  | [] => false

/-- Whether a document that was announced has no content. -/
def endsContent : Token.Kind → Bool
  | .directive _ | .documentStart | .documentEnd | .streamEnd => true
  | _ => false

def ofContent (handles : Handles) (ts : List Token) : Document :=
  let (events, rest) := Goal.meetAll handles [.blockNode false] ts (4 * ts.length + 8)
  ofEvents events (rest.any endsStream)

def damaged : Document := ⟨[], [], false⟩

/-- An announced document: directives, its start mark and perhaps nothing. -/
def ofExplicit (ts : List Token) : Document :=
  let (ds, ts) := takeDirectives ts
  match handlesOf false [] ds, ts with
  | some handles, ⟨.documentStart, _, _⟩ :: t :: ts =>
    if endsContent t.kind then ofEvents [Goal.emptyScalar t.start] (endsStream (t :: ts))
    else ofContent handles (t :: ts)
  | _, _ => damaged

/-- A text without any document is read like an empty node. -/
def ofTokens (ts : List Token) : Document :=
  match ts.drop 1 with
  | [] => damaged
  | t :: ts =>
    match t.kind with
    | .streamEnd => ⟨[⟨.void, t.start⟩], [], true⟩
    | .directive _ => ofExplicit (t :: ts)
    | .documentStart => ofExplicit (t :: ts)
    | _ => ofContent defaultHandles (t :: ts)

def ofText (text : String) : Document := ofTokens (TokenList.ofText text.toList).tokens

end Document
end InitializerLint.Yaml
