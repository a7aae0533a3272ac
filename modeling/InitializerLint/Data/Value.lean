import InitializerLint.Number.Written
import InitializerLint.Text.Quoted

/-! Self-describing data, as read from a text before it is known what it stands for, and
what can be wrong with it. -/
namespace InitializerLint.Data

open InitializerLint.Number (Binary64)

/-- Maps keep their entries as they are written, repeated keys included. -/
inductive Value where
  | unit
  | bool (b : Bool)
  | unsigned (n : UInt64)
  | signed (n : Int)
  | float (x : Binary64)
  | text (s : String)
  | list (items : List Value)
  | map (entries : List (Value × Value))

/-- What was found in place of what was expected. -/
inductive Found where
  | unit
  | bool (b : Bool)
  | integer (n : Int)
  | wide (n : Int)
  | float (x : Binary64)
  | text (s : String)
  | list
  | map
  | tagged

def Value.found : Value → Found
  | .unit => .unit
  | .bool b => .bool b
  | .unsigned n => .integer n.toNat
  | .signed n => .integer n
  | .float x => .float x
  | .text s => .text s
  | .list _ => .list
  | .map _ => .map

/-- Words that differ between the formats data is read from. -/
structure Wording where
  unit : String
  float : Binary64 → String

/-- An integer beyond 64 bits is shown with the width it needs. -/
def Found.message (w : Wording) : Found → String
  | .unit => w.unit
  | .bool b => "boolean `" ++ toString b ++ "`"
  | .integer n => "integer `" ++ toString n ++ "`"
  | .wide n => "integer `" ++ toString n ++ "` as " ++ (if n < 0 then "i128" else "u128")
  | .float x => "floating point `" ++ w.float x ++ "`"
  | .text s => "string " ++ Text.quoted s
  | .list => "sequence"
  | .map => "map"
  | .tagged => "enum"

/-- Why data does not have the shape it is read into. -/
inductive Fault where
  | invalidType (found : Found) (expected : String)
  | invalidValue (found : Found) (expected : String)
  | invalidLength (length : Nat) (expected : String)
  | unknownVariant (name : String) (known : List String)
  | missingField (name : String)
  | duplicateField (name : String)
  | taggedContent

/-- The names one may choose from, each between backticks. -/
def listKnown : List String → String
  | [] => "there are no variants"
  | [a] => "expected `" ++ a ++ "`"
  | [a, b] => "expected `" ++ a ++ "` or `" ++ b ++ "`"
  | names => "expected one of " ++ ", ".intercalate (names.map fun n => "`" ++ n ++ "`")

def Fault.message (w : Wording) : Fault → String
  | .invalidType f e => "invalid type: " ++ f.message w ++ ", expected " ++ e
  | .invalidValue f e => "invalid value: " ++ f.message w ++ ", expected " ++ e
  | .invalidLength n e => "invalid length " ++ toString n ++ ", expected " ++ e
  | .unknownVariant name known => "unknown variant `" ++ name ++ "`, " ++ listKnown known
  | .missingField name => "missing field `" ++ name ++ "`"
  | .duplicateField name => "duplicate field `" ++ name ++ "`"
  | .taggedContent => "untagged and internally tagged enums do not support enum input"

end InitializerLint.Data
