import Buildsmith.Text.Printable

/-!
# Texts as literals

A text is shown between single quotes, or between double quotes if it holds single quotes and no
double ones.  Characters that are not printable are written as escapes with a fixed number of
hexadecimal digits.
-/

namespace Buildsmith.Text.Literal

def hexDigits : Nat → Nat → List Char
  | 0, _ => []
  | width + 1, n => hexDigits width (n / 16) ++ [Nat.digitChar (n % 16)]

def renderChar (quote : Char) (c : Char) : List Char :=
  if c = quote || c = '\\' then ['\\', c]
  else if c = '\t' then ['\\', 't']
  else if c = '\n' then ['\\', 'n']
  else if c = '\r' then ['\\', 'r']
  else if isPrintable c then [c]
  else if c.toNat < 0x100 then '\\' :: 'x' :: hexDigits 2 c.toNat
  else if c.toNat < 0x10000 then '\\' :: 'u' :: hexDigits 4 c.toNat
  else '\\' :: 'U' :: hexDigits 8 c.toNat

def render (s : String) : String :=
  let cs := s.toList
  let quote := if cs.contains '\'' && !cs.contains '"' then '"' else '\''
  String.ofList (quote :: cs.flatMap (renderChar quote) ++ [quote])

end Buildsmith.Text.Literal

/-! ## Bytes -/

namespace Buildsmith.Text.ByteLiteral

def hexPair (b : UInt8) : List Char :=
  [Nat.digitChar (b.toNat / 16), Nat.digitChar (b.toNat % 16)]

def renderByte (quote : Char) (b : UInt8) : List Char :=
  let c := Char.ofNat b.toNat
  if c = quote || c = '\\' then ['\\', c]
  else if c = '\t' then ['\\', 't']
  else if c = '\n' then ['\\', 'n']
  else if c = '\r' then ['\\', 'r']
  else if b < 0x20 || b ≥ 0x7F then '\\' :: 'x' :: hexPair b
  else [c]

/-- The literal; double quotes delimit it only if it holds single quotes and no double ones. -/
def render (bytes : List UInt8) : String :=
  let quote := if bytes.contains 0x27 && !bytes.contains 0x22 then '"' else '\''
  String.ofList ('b' :: quote :: bytes.flatMap (renderByte quote) ++ [quote])

end Buildsmith.Text.ByteLiteral

/-!
## Quoted text

Reading drops a backslash before any character other than a line feed and keeps that character.
-/

namespace Buildsmith.Text.Quoted

def escapeChars : List Char → List Char
  | [] => []
  | c :: cs =>
    if c = '\\' || c = '"' then '\\' :: c :: escapeChars cs else c :: escapeChars cs

/-- Drops each backslash that stands before a character other than a line feed. -/
def unescapeChars : List Char → List Char
  | [] => []
  | [c] => [c]
  | c :: d :: cs =>
    if c = '\\' && d ≠ '\n' then d :: unescapeChars cs else c :: unescapeChars (d :: cs)

def escape (s : String) : String :=
  String.ofList (escapeChars s.toList)

def unescape (s : String) : String :=
  String.ofList (unescapeChars s.toList)

def bodyChars : List Char → Option (List Char)
  | [] => none
  | '"' :: _ => some []
  | ['\\'] => none
  | '\\' :: d :: cs =>
    if d = '\n' then none else (bodyChars cs).map fun body => '\\' :: d :: body
  | c :: cs => (bodyChars cs).map (c :: ·)

def literalBody? (s : String) : Option String :=
  match s.toList with
  | '"' :: cs => (bodyChars cs).map String.ofList
  | _ => none

end Buildsmith.Text.Quoted
