/-! Where a declaration stands in its source file. -/
namespace InitializerLint

structure Location where
  file : String
  line : UInt64
  column : UInt64
  length : UInt64 := 0
deriving DecidableEq, Inhabited

def Location.text (l : Location) : String :=
  l.file ++ ":" ++ toString l.line ++ ":" ++ toString l.column

end InitializerLint
