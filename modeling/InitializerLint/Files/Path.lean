/-! Path texts with slashes between their components. -/
namespace InitializerLint.Files

/-- A path to `name` inside the directory at `dir`; an empty path is the place one is at. -/
def joinPath (dir name : String) : String :=
  if dir.isEmpty then name
  else if dir.toList.getLast? = some '/' then dir ++ name
  else dir ++ "/" ++ name

/-- The texts between slashes. -/
def splitSlashes : List Char → List (List Char)
  | [] => [[]]
  | c :: cs =>
    if c = '/' then [] :: splitSlashes cs
    else match splitSlashes cs with
      | s :: ss => (c :: s) :: ss
      | [] => [[c]]

/-- The last component that is not a step in place; none if it is a step upwards. -/
def fileName (path : String) : List Char :=
  match ((splitSlashes path.toList).filter fun s => !s.isEmpty && s ≠ ['.']).getLast? with
  | some name => if name = ['.', '.'] then [] else name
  | none => []

/-- What follows the last dot of the file name; nothing if that dot is its first character. -/
def fileExtension (path : String) : String :=
  let name := (fileName path).reverse
  let ext := name.takeWhile (· ≠ '.')
  if (name.drop (ext.length + 1)).isEmpty then "" else String.ofList ext.reverse

end InitializerLint.Files
