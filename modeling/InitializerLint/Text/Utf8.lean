/-! The UTF-8 bytes of a text. -/
namespace InitializerLint.Text

def bytes (cs : List Char) : List UInt8 := cs.flatMap String.utf8EncodeChar

def byteLength : List Char → Nat
  | [] => 0
  | c :: cs => c.utf8Size + byteLength cs

end InitializerLint.Text
