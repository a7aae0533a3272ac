import InitializerLint.Json.Scan
import InitializerLint.Text.Utf8

/-! JSON strings after their opening quote, read for their text or passed over. -/
namespace InitializerLint.Json.Scan

def hexValue? (c : Char) : Option Nat :=
  if '0' ≤ c && c ≤ '9' then some (c.toNat - '0'.toNat)
  else if 'a' ≤ c && c ≤ 'f' then some (c.toNat - 'a'.toNat + 10)
  else if 'A' ≤ c && c ≤ 'F' then some (c.toNat - 'A'.toNat + 10)
  else none

/-- Four hexadecimal digits; four bytes are read even if they are none. -/
def hexEscape : Scan Nat := fun c =>
  if Text.byteLength (c.rest.take 4) < 4 then
    .error (.placed .eofString (c.offset + Text.byteLength (c.rest.take 4)))
  else match (c.rest.take 4).mapM hexValue? with
    | some ds => .ok (ds.foldl (fun n d => 16 * n + d) 0, ⟨c.rest.drop 4, c.offset + 4⟩)
    | none => .error (.placed .invalidEscape (c.offset + 4))

/-- Pass over `x`, which must follow a leading surrogate. -/
def surrogateMark (x : Char) : Scan Unit := do
  let start ← offset
  match ← next with
  | none => failHere .eofString
  | some c => if c = x then pure () else failAt .endOfHexEscape (start + 1)

/-- A code unit, or a surrogate pair in two escapes. -/
def unicodeEscape : Scan Char := do
  let n ← hexEscape
  if 0xDC00 ≤ n && n ≤ 0xDFFF then failHere .loneSurrogate
  else if n < 0xD800 || 0xDBFF < n then return Char.ofNat n
  else
    surrogateMark '\\'
    surrogateMark 'u'
    let n₂ ← hexEscape
    if n₂ < 0xDC00 || 0xDFFF < n₂ then failHere .loneSurrogate
    else return Char.ofNat ((n - 0xD800) * 1024 + (n₂ - 0xDC00) + 0x10000)

def simpleEscape? : Char → Option Char
  | '"' => some '"'
  | '\\' => some '\\'
  | '/' => some '/'
  | 'b' => some '\x08'
  | 'f' => some '\x0c'
  | 'n' => some '\n'
  | 'r' => some '\r'
  | 't' => some '\t'
  | _ => none

def escape : Scan Char := do
  let start ← offset
  match ← next with
  | none => failHere .eofString
  | some 'u' => unicodeEscape
  | some c =>
    match simpleEscape? c with
    | some x => return x
    | none => failAt .invalidEscape (start + 1)

def stringFrom (read : List Char) : Nat → Scan String
  | 0 => failHere .eofString
  | n + 1 => do
    match ← next with
    | none => failHere .eofString
    | some '"' => return String.ofList read.reverse
    | some '\\' => stringFrom ((← escape) :: read) n
    | some c => if c.toNat < 0x20 then failHere .controlCharacter else stringFrom (c :: read) n

/-- The text up to the closing quote, escapes resolved. -/
def string : Scan String := bounded (stringFrom [])

/-- An escape that is not looked into: surrogates need not be paired. -/
def skipEscape : Scan Unit := do
  let start ← offset
  match ← next with
  | none => failHere .eofString
  | some 'u' => do
    let _ ← hexEscape
  | some c => if (simpleEscape? c).isSome then pure () else failAt .invalidEscape (start + 1)

def skipStringFrom : Nat → Scan Unit
  | 0 => failHere .eofString
  | n + 1 => do
    let start ← offset
    match ← next with
    | none => failHere .eofString
    | some '"' => pure ()
    | some '\\' => do
      skipEscape
      skipStringFrom n
    | some c => if c.toNat < 0x20 then failAt .controlCharacter start else skipStringFrom n

def skipString : Scan Unit := bounded skipStringFrom

end InitializerLint.Json.Scan
