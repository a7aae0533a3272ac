import InitializerLint.Glob.Token
import InitializerLint.Text.Utf8

/-! The regular expression of a glob, as messages show it. It works on bytes, so characters
outside ASCII stand in it byte by byte. -/
namespace InitializerLint.Glob

def isMeta (c : Char) : Bool :=
  ['\\', '.', '+', '*', '?', '(', ')', '|', '[', ']', '{', '}', '^', '$', '#', '&', '-', '~'].contains c

def hexDigit (n : Nat) : Char := if n < 10 then Char.ofNat (48 + n) else Char.ofNat (87 + n)

def escapeByte (b : UInt8) : List Char :=
  ['\\', 'x', hexDigit (b.toNat / 16), hexDigit (b.toNat % 16)]

def escapeLiteral (c : Char) : List Char :=
  if isMeta c then ['\\', c]
  else if c.toNat < 0x80 then [c]
  else (String.utf8EncodeChar c).flatMap escapeByte

def rangeExpression (r : Char × Char) : List Char :=
  if r.1 = r.2 then escapeLiteral r.1 else escapeLiteral r.1 ++ '-' :: escapeLiteral r.2

/-- Alternatives between bars; nothing at all if there are none. -/
def groupExpression (parts : List (List Char)) : List Char :=
  if parts.isEmpty then []
  else ['(', '?', ':'] ++ ['|'].intercalate parts ++ [')']

namespace Token

mutual

def expression : Token → List Char
  | .literal c => escapeLiteral c
  | .any => ['.']
  | .star => ['.', '*']
  | .leadingDirs => groupExpression [['/', '?'], ['.', '*', '/']]
  | .trailingDirs => ['/', '.', '*']
  | .innerDirs => groupExpression [['/'], ['/', '.', '*', '/']]
  | .charClass cls =>
    '[' :: (if cls.negated then ['^'] else []) ++ cls.ranges.flatMap rangeExpression ++ [']']
  | .alternates bs => groupExpression ((branchExpressions bs).filter (!·.isEmpty))

def expressions : List Token → List Char
  | [] => []
  | t :: ts => t.expression ++ expressions ts

def branchExpressions : List (List Token) → List (List Char)
  | [] => []
  | b :: bs => expressions b :: branchExpressions bs

end

/-- The whole name has to match, and bytes are not taken together into characters. -/
def globExpression (ts : List Token) : String :=
  String.ofList ("(?-u)^".toList ++ expressions ts ++ ['$'])

end Token
end InitializerLint.Glob
