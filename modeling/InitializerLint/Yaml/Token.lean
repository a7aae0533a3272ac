import InitializerLint.Yaml.Block
import InitializerLint.Yaml.Flow
import InitializerLint.Yaml.Tag

/-! Tokens of a YAML text.

A node followed by a colon turns out to be a mapping's key only at the colon. Until then it
is remembered as a possible key, and the tokens that announce it are put in front of it
afterwards. -/
namespace InitializerLint.Yaml

inductive Style where
  | plain | singleQuoted | doubleQuoted | literal | folded
deriving DecidableEq

inductive Token.Kind where
  | streamStart
  | streamEnd
  | directive (d : Directive)
  | documentStart
  | documentEnd
  | blockSequenceStart
  | blockMappingStart
  | blockEnd
  | flowSequenceStart
  | flowSequenceEnd
  | flowMappingStart
  | flowMappingEnd
  | blockEntry
  | flowEntry
  | key
  | value
  | alias (name : List Char)
  | anchor (name : List Char)
  | tag (name : TagName)
  | scalar (style : Style) (text : List Char)

structure Token where
  kind : Token.Kind
  start : Mark
  stop : Mark

/-- A node that may become a key: the number of its first token and its place. A required
one starts a line of a block mapping. -/
structure PossibleKey where
  required : Bool
  index : Nat
  mark : Mark

/-- The state between two tokens. There is one possible key for the block context and one
for each open collection, the innermost first. -/
structure Scanner where
  cursor : Cursor
  tokens : Array Token := #[]
  indent : Int := -1
  outerIndents : List Int := []
  keyAllowed : Bool := true
  keys : List (Option PossibleKey) := [none]
  finished : Bool := false

abbrev Lex := StateT Scanner Option

namespace Lex

variable {α : Type}

def fail : Lex α := fun _ => none

def inFlow : Lex Bool := return 1 < (← get).keys.length

def mark : Lex Mark := return (← get).cursor.mark

def peek (ahead : Nat := 0) : Lex (Option Char) := return (← get).cursor.peek ahead

/-- Read at the scanner's own cursor. -/
def scan (x : Scan α) : Lex α := fun s =>
  (x s.cursor).map fun (a, c) => (a, { s with cursor := c })

def allowKey (allowed : Bool) : Lex Unit := modify fun s => { s with keyAllowed := allowed }

def push (kind : Token.Kind) (start stop : Mark) : Lex Unit :=
  modify fun s => { s with tokens := s.tokens.push ⟨kind, start, stop⟩ }

def pushHere (kind : Token.Kind) : Lex Unit := do
  let m ← mark
  push kind m m

def insert (index : Nat) (kind : Token.Kind) (m : Mark) : Lex Unit :=
  modify fun s => { s with tokens := s.tokens.insertIdxIfInBounds index ⟨kind, m, m⟩ }

/-- An indicator of `length` characters. -/
def indicator (kind : Token.Kind) (length : Nat := 1) : Lex Unit := do
  let start ← mark
  scan (Scan.advance length)
  push kind start (← mark)

/-- A token with content. -/
def content (kind : α → Token.Kind) (x : Scan α) : Lex Unit := do
  let start ← mark
  let a ← scan x
  push (kind a) start (← mark)

/-- Blanks, comments and line breaks between tokens. A byte order mark may start a line, and
a tab may stand where no key can start. -/
def skipToNextFrom : Nat → Lex Unit
  | 0 => return ()
  | n + 1 => do
    if (← mark).column = 0 && (← peek) = some '\uFEFF' then scan Scan.skip
    let tabs := (← inFlow) || !(← get).keyAllowed
    let _ ← scan (Scan.takeWhile fun c => c = ' ' || (tabs && c = '\t'))
    scan Scan.skipComment
    if (← peek).any isBreak then do
      scan Scan.skipBreak
      if !(← inFlow) then allowKey true
      skipToNextFrom n

def skipToNext : Lex Unit := fun s => skipToNextFrom (s.cursor.rest.length + 1) s

/-- A key stays on its line and within 1024 bytes. -/
def isStale (here : Mark) (k : PossibleKey) : Bool :=
  k.mark.line < here.line || k.mark.index + 1024 < here.index

def dropStaleKeys : Lex Unit := do
  let s ← get
  let stale := fun k => isStale s.cursor.mark k
  if s.keys.any fun k => k.any fun k => stale k && k.required then fail
  else set { s with keys := s.keys.map (Option.filter fun k => !stale k) }

/-- A required key that is no key is an error. -/
def forgetKey : Lex Unit := do
  let s ← get
  match s.keys with
  | some k :: ks => if k.required then fail else set { s with keys := none :: ks }
  | _ => return ()

/-- Remember that a key may start here. -/
def saveKey : Lex Unit := do
  let s ← get
  if s.keyAllowed then do
    let block := s.keys.length ≤ 1
    let k : PossibleKey := {
      required := block && s.indent = s.cursor.mark.column
      index := s.tokens.size
      mark := s.cursor.mark }
    forgetKey
    modify fun s => { s with keys := some k :: s.keys.drop 1 }

/-- Close the blocks indented deeper than `column`. -/
def unrollFrom (column : Int) : List Int → Lex Unit
  | [] => return ()
  | outer :: rest => do
    if column < (← get).indent then do
      pushHere .blockEnd
      modify fun s => { s with indent := outer, outerIndents := rest }
      unrollFrom column rest

def unroll (column : Int) : Lex Unit := do
  if !(← inFlow) then unrollFrom column (← get).outerIndents

/-- Open a block if `column` is deeper than the current one; its token goes to the end, or
in front of the token with the given number. -/
def roll (column : Nat) (index : Option Nat) (kind : Token.Kind) (m : Mark) : Lex Unit := do
  let s ← get
  if !(← inFlow) && s.indent < column then do
    set { s with indent := (column : Int), outerIndents := s.indent :: s.outerIndents }
    match index with
    | none => push kind m m
    | some i => insert i kind m

def streamEnd : Lex Unit := do
  modify fun s =>
    let m := s.cursor.mark
    if m.column = 0 then s
    else { s with cursor := { s.cursor with mark := ⟨m.index, m.line + 1, 0⟩ } }
  unroll (-1)
  forgetKey
  allowKey false
  pushHere .streamEnd
  modify fun s => { s with finished := true }

def documentLine (x : Lex Unit) : Lex Unit := do
  unroll (-1)
  forgetKey
  allowKey false
  x

def flowStart (kind : Token.Kind) : Lex Unit := do
  saveKey
  modify fun s => { s with keys := none :: s.keys, keyAllowed := true }
  indicator kind

def flowEnd (kind : Token.Kind) : Lex Unit := do
  forgetKey
  modify fun s =>
    { s with keys := if 1 < s.keys.length then s.keys.drop 1 else s.keys, keyAllowed := false }
  indicator kind

def flowEntry : Lex Unit := do
  forgetKey
  allowKey true
  indicator .flowEntry

/-- Outside collections an indicator that opens a block stands where a key may start. -/
def openBlock (kind : Token.Kind) : Lex Unit := do
  if !(← inFlow) then do
    if (← get).keyAllowed then do
      let m ← mark
      roll m.column none kind m
    else fail

def blockEntry : Lex Unit := do
  openBlock .blockSequenceStart
  forgetKey
  allowKey true
  indicator .blockEntry

def explicitKey : Lex Unit := do
  openBlock .blockMappingStart
  forgetKey
  allowKey (!(← inFlow))
  indicator .key

def value : Lex Unit := do
  match (← get).keys with
  | some k :: ks => do
    insert k.index .key k.mark
    roll k.mark.column (some k.index) .blockMappingStart k.mark
    modify fun s => { s with keys := none :: ks }
    allowKey false
  | _ => do
    openBlock .blockMappingStart
    allowKey (!(← inFlow))
  indicator .value

/-- A node that may be a key. -/
def node (x : Lex Unit) : Lex Unit := do
  saveKey
  allowKey false
  x

def blockScalar (style : Style) : Lex Unit := do
  forgetKey
  allowKey true
  let parent := (← get).indent
  content (.scalar style) (Scan.block (style = .folded) parent)

/-- A scalar left after a line break is followed by a place where a key may start. -/
def plainScalar : Lex Unit := do
  let flow ← inFlow
  let margin := ((← get).indent + 1).toNat
  let start ← mark
  let (text, afterBreak) ← scan (Scan.plain flow margin)
  push (.scalar .plain text) start (← mark)
  if afterBreak then allowKey true

/-- Characters that cannot start a plain scalar, or only before a character of a word. -/
def isIndicator (c : Char) : Bool :=
  ['-', '?', ':', ',', '[', ']', '{', '}', '#', '&', '*', '!', '|', '>', '\'', '"', '%', '@', '\x60'].contains c

def startsPlain (flow : Bool) (c : Char) (next : Option Char) : Bool :=
  !(isBlank c || isBreak c || isIndicator c) || (c = '-' && !next.any isBlank) ||
    (!flow && (c = '?' || c = ':') && !isBlankOrEnd next)

/-- One more token, with those that it opens or closes. -/
def fetch : Lex Unit := do
  skipToNext
  dropStaleKeys
  let cursor := (← get).cursor
  unroll cursor.mark.column
  let flow ← inFlow
  match cursor.peek, cursor.peek 1 with
  | none, _ => streamEnd
  | some c, next =>
    let column := cursor.mark.column
    let wordEnds := isBlankOrEnd next
    if column = 0 && c = '%' then documentLine (content .directive Scan.directive)
    else if cursor.atDocumentMark '-' then documentLine (indicator .documentStart 3)
    else if cursor.atDocumentMark '.' then documentLine (indicator .documentEnd 3)
    else if c = '[' then flowStart .flowSequenceStart
    else if c = '{' then flowStart .flowMappingStart
    else if c = ']' then flowEnd .flowSequenceEnd
    else if c = '}' then flowEnd .flowMappingEnd
    else if c = ',' then flowEntry
    else if c = '-' && wordEnds then blockEntry
    else if c = '?' && (flow || wordEnds) then explicitKey
    else if c = ':' && (flow || wordEnds) then value
    else if c = '*' then node (content .alias Scan.anchorName)
    else if c = '&' then node (content .anchor Scan.anchorName)
    else if c = '!' then node (content .tag (Scan.tag flow))
    else if c = '|' && !flow then blockScalar .literal
    else if c = '>' && !flow then blockScalar .folded
    else if c = '\'' then node (content (.scalar .singleQuoted) (Scan.quoted '\''))
    else if c = '"' then node (content (.scalar .doubleQuoted) (Scan.quoted '"'))
    else if startsPlain flow c next then node plainScalar
    else fail

end Lex

/-- The tokens of a text. If it is malformed, those before the damage that cannot change any
more, and `complete` is false. -/
structure TokenList where
  tokens : List Token
  complete : Bool

namespace TokenList

/-- A token stays open to change while it may be part of a key. -/
def settled (s : Scanner) : List Token :=
  match (s.keys.filterMap (·.map (·.index))).min? with
  | none => s.tokens.toList
  | some i => s.tokens.toList.take i

/-- The most characters that are looked at to tell what comes next. -/
def lookahead : Nat := 4

/-- One more token. Keys that got stale at its end are given up at once. If the text goes on
where it cannot be read, it must not come too close to that. -/
def next (goesOn : Bool) : Lex Unit := do
  Lex.fetch
  if goesOn && (← get).cursor.rest.length < lookahead then Lex.fail
  else Lex.dropStaleKeys

def scanFrom (goesOn : Bool) (s : Scanner) : Nat → TokenList
  | 0 => ⟨settled s, false⟩
  | n + 1 =>
    match next goesOn s with
    | none => ⟨settled s, false⟩
    | some ((), s) => if s.finished then ⟨s.tokens.toList, true⟩ else scanFrom goesOn s n

def blockSize : Nat := 16384

/-- How many characters can be read if not all can. A text is taken in in blocks, and a block
with a character that may not stand in a text cannot be read at all. There are `earlier`
characters in the blocks before, and `here` so far in this one, with `room` for more bytes. -/
def readableFrom (earlier here room : Nat) : List Char → Option Nat
  | [] => none
  | c :: cs =>
    let fits := c.utf8Size ≤ room
    let earlier := if fits then earlier else earlier + here
    let here := if fits then here else 0
    let room := if fits then room else blockSize
    if isAllowed c then readableFrom earlier (here + 1) (room - c.utf8Size) cs else some earlier

def ofText (text : List Char) : TokenList :=
  let cut := readableFrom 0 0 blockSize text
  let cs := text.take (cut.getD text.length)
  scanFrom cut.isSome { cursor := ⟨cs, {}⟩, tokens := #[⟨.streamStart, {}, {}⟩] } (cs.length + 1)

end TokenList
end InitializerLint.Yaml
