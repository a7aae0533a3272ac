import InitializerLint.Files.Path
import InitializerLint.Text.Utf8

/-! Files around the directory one is at, and what can be read from them. -/
namespace InitializerLint.Files

/-- What is locked, a file or a directory, is there and may not be opened or entered. -/
inductive Entry where
  | file (content : ByteArray)
  | directory
  | locked (isDirectory : Bool)

/-- Where a way through directories starts: some levels above the directory one is at, or at
the root of all. -/
inductive Origin where
  | above (levels : Nat)
  | root
deriving DecidableEq

/-- A place is reached by going down from an origin. -/
structure Place where
  origin : Origin
  names : List (List Char)
deriving DecidableEq

namespace Place

def ofPathStart (path : String) : Place :=
  ⟨if path.toList.head? = some '/' then .root else .above 0, []⟩

/-- The directory around a place; the root is its own. -/
def parent (p : Place) : Place :=
  if p.names.isEmpty then
    match p.origin with
    | .above n => ⟨.above (n + 1), []⟩
    | .root => p
  else ⟨p.origin, p.names.dropLast⟩

/-- The place that one component of a path leads to. -/
def step (p : Place) (name : List Char) : Place :=
  if name.isEmpty || name = ['.'] then p
  else if name = ['.', '.'] then p.parent
  else ⟨p.origin, p.names ++ [name]⟩

/-- The places passed on a way, without its end. -/
def passed (p : Place) : List (List Char) → List Place
  | [] => []
  | name :: names => p :: passed (p.step name) names

def ofPath (path : String) : Place :=
  (splitSlashes path.toList).foldl step (ofPathStart path)

/-- The path to a place, without detours. -/
def path (p : Place) : String :=
  let up : List (List Char) := match p.origin with
    | .above n => List.replicate n ['.', '.']
    | .root => [[]]
  String.ofList (['/'].intercalate (up ++ p.names))

end Place

/-- Entries by their places, later ones first. -/
structure Tree where
  entries : List (Place × Entry) := []

inductive ReadError where
  | noSuchFile
  | isDirectory
  | notDirectory
  | nameTooLong
  | zeroInName
  | permissionDenied
  | notText
deriving DecidableEq

def ReadError.message : ReadError → String
  | .noSuchFile => "No such file or directory (os error 2)"
  | .isDirectory => "Is a directory (os error 21)"
  | .notDirectory => "Not a directory (os error 20)"
  | .nameTooLong => "File name too long (os error 36)"
  | .zeroInName => "file name contained an unexpected NUL byte"
  | .permissionDenied => "Permission denied (os error 13)"
  | .notText => "stream did not contain valid UTF-8"

namespace Tree

/-- Put an entry at a path; directories on the way are made. -/
def insert (t : Tree) (path : String) (e : Entry) : Tree :=
  let start := Place.ofPathStart path
  let passed := start.passed (splitSlashes path.toList)
  ⟨(.ofPath path, e) :: (passed.map fun p => (p, .directory)) ++ t.entries⟩

/-- Origins are directories; beyond them only what was put in is there. -/
def entryAt? (t : Tree) (p : Place) : Option Entry :=
  if p.names.isEmpty then some .directory else t.entries.lookup p

/-- The most bytes of one component. -/
def nameLimit : Nat := 255

/-- The most bytes of a path. -/
def pathLimit : Nat := 4095

/-- Follow one component of a path; it has to start in a directory. A slash behind a locked one does
not enter it yet. -/
def enter (t : Tree) (p : Place) (name : List Char) : Except ReadError Place :=
  match t.entryAt? p with
  | some .directory =>
    if (t.entryAt? (p.step name)).isSome then .ok (p.step name)
    else if nameLimit < Text.byteLength name then .error .nameTooLong
    else .error .noSuchFile
  | some (.locked true) => if name.isEmpty then .ok p else .error .permissionDenied
  | some (.file _) | some (.locked false) => .error .notDirectory
  | none => .error .noSuchFile

def locate (t : Tree) (path : String) : Except ReadError Place :=
  if path.toList.contains '\x00' then .error .zeroInName
  else if pathLimit < Text.byteLength path.toList then .error .nameTooLong
  else if path.isEmpty then .error .noSuchFile
  else (splitSlashes path.toList).foldlM t.enter (.ofPathStart path)

def contains (t : Tree) (path : String) : Bool := (t.locate path).isOk

/-- The text of a file. -/
def readText (t : Tree) (path : String) : Except ReadError String := do
  match t.entryAt? (← t.locate path) with
  | some (.file content) =>
    match String.fromUTF8? content with
    | some s => .ok s
    | none => .error .notText
  | some .directory => .error .isDirectory
  | some (.locked _) => .error .permissionDenied
  | none => .error .noSuchFile

end Tree
end InitializerLint.Files
