/-! JSON documents and their compact text. -/
namespace InitializerLint.Json

inductive Document where
  | null
  | bool (b : Bool)
  | number (n : Nat)
  | text (s : String)
  | list (items : List Document)
  | object (entries : List (String × Document))

namespace Document

def hexDigit (n : Nat) : Char := if n < 10 then Char.ofNat (48 + n) else Char.ofNat (87 + n)

/-- Only quotes, backslashes and control characters are escaped. -/
def escapeChar (c : Char) : List Char :=
  match c with
  | '"' => ['\\', '"']
  | '\\' => ['\\', '\\']
  | '\x08' => ['\\', 'b']
  | '\x0c' => ['\\', 'f']
  | '\n' => ['\\', 'n']
  | '\r' => ['\\', 'r']
  | '\t' => ['\\', 't']
  | c =>
    if c.toNat < 0x20 then ['\\', 'u', '0', '0', hexDigit (c.toNat / 16), hexDigit (c.toNat % 16)]
    else [c]

def quote (s : String) : List Char := '"' :: s.toList.flatMap escapeChar ++ ['"']

mutual

/-- No blanks; entries and items in order. -/
def render : Document → List Char
  | .null => ['n', 'u', 'l', 'l']
  | .bool true => ['t', 'r', 'u', 'e']
  | .bool false => ['f', 'a', 'l', 's', 'e']
  | .number n => Nat.toDigits 10 n
  | .text s => quote s
  | .list ds => '[' :: renderItems ds ++ [']']
  | .object es => '{' :: renderEntries es ++ ['}']

def renderItems : List Document → List Char
  | [] => []
  | [d] => d.render
  | d :: ds => d.render ++ ',' :: renderItems ds

def renderEntries : List (String × Document) → List Char
  | [] => []
  | [(k, d)] => quote k ++ ':' :: d.render
  | (k, d) :: es => quote k ++ ':' :: d.render ++ ',' :: renderEntries es

end

def toText (d : Document) : String := String.ofList d.render

end Document
end InitializerLint.Json
