import Buildsmith.Data.Value
import Buildsmith.Text.Pattern.Read

/-!
# Values as YAML

Records and lists are written in block style, four columns further in at each level, with the
fields of records in alphabetical order.  A text is plain if it then reads back as the same text,
else it stands in single quotes or, if it holds special characters, in double quotes.

Long texts are folded at spaces once a line is longer than eighty columns.
-/

namespace Buildsmith.Data.Yaml

open Text

def isBreak (c : Char) : Bool :=
  c = '\n' || c.toNat = 0x85 || c.toNat = 0x2028 || c.toNat = 0x2029

/-- Whether a character is a space or a break of any kind, or there is none. -/
def isGap : Option Char → Bool
  | none => true
  | some c => c.toNat = 0 || c = ' ' || c = '\t' || c = '\r' || isBreak c

/-- Characters beyond ASCII that need no escape if they are allowed at all. -/
def isForeign (c : Char) : Bool :=
  let n := c.toNat
  (n = 0x85 || (0xA0 ≤ n && n ≤ 0xD7FF) || (0xE000 ≤ n && n ≤ 0xFFFD) ||
    (0x10000 ≤ n && n < 0x10FFFF)) && n ≠ 0xFEFF

def isSpecial (foreign : Bool) (c : Char) : Bool :=
  !(c = '\n' || (' ' ≤ c && c ≤ '~')) && !(foreign && isForeign c)

def isIndicator (isFirst : Bool) (before : Option Char) (c : Char) (after : Option Char) : Bool :=
  if isFirst then
    "#,[]\x7b\x7d&*!|>'\"%@`".toList.contains c || ((c = '?' || c = ':' || c = '-') && isGap after)
  else (c = ':' && isGap after) || (c = '#' && isGap before)

def hasIndicator : Option Char → List Char → Bool
  | _, [] => false
  | before, c :: cs =>
    isIndicator before.isNone before c cs.head? || hasIndicator (some c) cs

def hasPair (p q : Char → Bool) (cs : List Char) : Bool :=
  (cs.zip (cs.drop 1)).any fun (a, b) => p a && q b

/-- The forms of plain texts that are read as something else than a text. -/
def otherForms : List String :=
  ["yes|Yes|YES|no|No|NO|true|True|TRUE|false|False|FALSE|on|On|ON|off|Off|OFF",
    "[-+]?(?:[0-9][0-9_]*)\\.[0-9_]*(?:[eE][-+][0-9]+)?",
    "\\.[0-9][0-9_]*(?:[eE][-+][0-9]+)?",
    "[-+]?[0-9][0-9_]*(?::[0-5]?[0-9])+\\.[0-9_]*",
    "[-+]?\\.(?:inf|Inf|INF)",
    "\\.(?:nan|NaN|NAN)",
    "[-+]?0b[0-1_]+",
    "[-+]?0[0-7_]+",
    "[-+]?(?:0|[1-9][0-9_]*)",
    "[-+]?0x[0-9a-fA-F_]+",
    "[-+]?[1-9][0-9_]*(?::[0-5]?[0-9])+",
    "<<",
    "~|null|Null|NULL|",
    "[0-9][0-9][0-9][0-9]-[0-9][0-9]-[0-9][0-9]",
    "[0-9][0-9][0-9][0-9]-[0-9][0-9]?-[0-9][0-9]?(?:[Tt]|[ \\t]+)[0-9][0-9]?:[0-9][0-9]:[0-9][0-9]" ++
      "(?:\\.[0-9]*)?(?:[ \\t]*(?:Z|[-+][0-9][0-9]?(?::[0-9][0-9])?))?",
    "="]

def readsOtherwise (s : String) : Bool :=
  otherForms.any fun form =>
    match Text.Pattern.compile {} ("(?:" ++ form ++ ")\\Z") with
    | .ok p => (p.match? s).isSome
    | .error _ => false

/-- The styles of texts. -/
inductive Style where
  | plain
  | single
  | double
  deriving DecidableEq, Repr

def styleOf (foreign : Bool) (s : String) : Style :=
  let cs := s.toList
  let atEdge (c : Option Char) : Bool := c.any fun c => c = ' ' || isBreak c
  let marked := startsWith s "---" || startsWith s "..." || hasIndicator none cs
  let special := cs.any (isSpecial foreign) || hasPair (· = ' ') isBreak cs
  let loose := hasPair isBreak (· = ' ') cs
  if !readsOtherwise s && !(atEdge cs.head? || atEdge cs.getLast? || cs.any isBreak || marked ||
      special || loose) then .plain
  else if special || loose then .double
  else .single

/-- What is being written: the text so far and the column. -/
structure Writing where
  text : String
  column : Nat

namespace Writing

def put (w : Writing) (s : String) : Writing :=
  { text := w.text ++ s, column := w.column + s.length }

def line (w : Writing) (indent : Nat) : Writing :=
  { text := w.text ++ "\n" ++ repeated indent " ", column := indent }

def start (w : Writing) (indent : Nat) (newLine : Bool) : Writing :=
  if newLine then w.line indent else w.put (repeated (indent - w.column) " ")

end Writing

def bestWidth : Nat := 80

def pieces : List Char → List (List Char)
  | [] => []
  | c :: cs =>
    let kind (c : Char) : Nat := if c = ' ' then 0 else if isBreak c then 1 else 2
    match pieces cs with
    | (d :: ds) :: rest =>
      if kind c = kind d then (c :: d :: ds) :: rest else [c] :: (d :: ds) :: rest
    | rest => [c] :: rest

def putPlain (indent : Nat) (w : Writing) : List (List Char) → Writing
  | [] => w
  | p :: rest =>
    if p = [' '] && w.column > bestWidth then putPlain indent (w.line indent) rest
    else putPlain indent (w.put (String.ofList p)) rest

def putBreaks (indent : Nat) (w : Writing) (breaks : List Char) : Writing :=
  let lead := if breaks.head? = some '\n' then "\n" else ""
  { text := w.text ++ lead ++ String.ofList breaks ++ repeated indent " ", column := indent }

/-- Writes the pieces of a text in single quotes; the first piece and the last are never folded. -/
def putSingle (indent : Nat) (isFirst : Bool) (w : Writing) : List (List Char) → Writing
  | [] => w
  | p :: rest =>
    let w :=
      if p.all isBreak then putBreaks indent w p
      else if p = [' '] && w.column > bestWidth && !isFirst && !rest.isEmpty then w.line indent
      else w.put (replace (String.ofList p) "'" "''")
    putSingle indent false w rest

def upperHex (width n : Nat) : String :=
  (String.ofList (Text.Literal.hexDigits width n)).toUpper

def escape (c : Char) : String :=
  let n := c.toNat
  match n with
  | 0 => "\\0"
  | 7 => "\\a"
  | 8 => "\\b"
  | 9 => "\\t"
  | 10 => "\\n"
  | 11 => "\\v"
  | 12 => "\\f"
  | 13 => "\\r"
  | 27 => "\\e"
  | 34 => "\\\""
  | 92 => "\\\\"
  | 0x85 => "\\N"
  | 0xA0 => "\\_"
  | 0x2028 => "\\L"
  | 0x2029 => "\\P"
  | n =>
    if n ≤ 0xFF then "\\x" ++ upperHex 2 n
    else if n ≤ 0xFFFF then "\\u" ++ upperHex 4 n
    else "\\U" ++ upperHex 8 n

def isEscaped (foreign : Bool) (c : Char) : Bool :=
  let n := c.toNat
  c = '"' || c = '\\' || n = 0x85 || n = 0x2028 || n = 0x2029 || n = 0xFEFF ||
    !((0x20 ≤ n && n ≤ 0x7E) ||
      (foreign && ((0xA0 ≤ n && n ≤ 0xD7FF) || (0xE000 ≤ n && n ≤ 0xFFFD))))

/-- Writes a text in double quotes: `pending` is not written yet, and `place` is the number of
characters before. -/
def putDouble (foreign : Bool) (indent : Nat) (place : Nat) (pending : List Char) (w : Writing) :
    List Char → Writing
  | [] => w.put (String.ofList pending)
  | c :: cs =>
    let (pending, w) :=
      if isEscaped foreign c then ([], (w.put (String.ofList pending)).put (escape c))
      else (pending, w)
    let isWritten := isEscaped foreign c
    let mayFold := 0 < place && !cs.isEmpty && (c = ' ' || isWritten || pending.isEmpty)
    let width := if isWritten then w.column - 1 else w.column + pending.length
    if mayFold && width > bestWidth then
      let w := (w.put (String.ofList pending ++ "\\")).line indent
      if isWritten then
        let w := if cs.head? = some ' ' then w.put "\\" else w
        putDouble foreign indent (place + 1) [] w cs
      else
        let w := if c = ' ' then w.put "\\" else w
        putDouble foreign indent (place + 1) [c] w cs
    else putDouble foreign indent (place + 1) (if isWritten then pending else pending ++ [c]) w cs

def putText (foreign : Bool) (indent : Nat) (w : Writing) (s : String) : Writing :=
  match styleOf foreign s with
  | .plain => putPlain indent w (pieces s.toList)
  | .single => (putSingle indent true (w.put "'") (pieces s.toList)).put "'"
  | .double => (putDouble foreign indent 0 [] (w.put "\"") s.toList).put "\""

/-- A number that is no integer; one with an exponent has a point all the same. -/
def realText (x : Binary64) : String :=
  let s := x.text ".inf" ".nan"
  if contains s "." || !contains s "e" then s else replace s "e" ".0e"

mutual

/-- Writes a value behind a key or a dash; `indent` is the column of what it belongs to. -/
def putValue (foreign : Bool) (indent : Nat) (inField : Bool) (w : Writing) : Value → Writing
  | .null => w.put " null"
  | .flag b => w.put (if b then " true" else " false")
  | .number n => w.put (" " ++ Text.Integer.text n)
  | .real x => w.put (" " ++ realText x)
  | .text s => putText foreign (indent + 4) (w.put " ") s
  | .list [] => w.put " []"
  | .list xs =>
    if inField then putItems foreign indent true w xs else putItems foreign (indent + 4) false w xs
  | .record [] => w.put " \x7b\x7d"
  | .record fs => putFields foreign (indent + 4) inField w fs

/-- Writes the items of a list; the first starts a new line or stays on the current one. -/
def putItems (foreign : Bool) (indent : Nat) (newLine : Bool) (w : Writing) :
    List Value → Writing
  | [] => w
  | x :: xs =>
    let w := (w.start indent newLine).put "-"
    putItems foreign indent true (putValue foreign indent false w x) xs

/-- Writes the fields of a record; the first starts a new line or stays on the current one. -/
def putFields (foreign : Bool) (indent : Nat) (newLine : Bool) (w : Writing) :
    List (String × Value) → Writing
  | [] => w
  | (k, v) :: fs =>
    let w := (putText foreign (indent + 4) (w.start indent newLine) k).put ":"
    putFields foreign indent true (putValue foreign indent true w v) fs

end

mutual

def sorted : Value → Value
  | .list xs => .list (sortedItems xs)
  | .record fs => .record ((sortedFields fs).mergeSort fun a b => a.1 ≤ b.1)
  | v => v

def sortedItems : List Value → List Value
  | [] => []
  | x :: xs => sorted x :: sortedItems xs

def sortedFields : List (String × Value) → List (String × Value)
  | [] => []
  | (k, v) :: fs => (k, sorted v) :: sortedFields fs

end

def render (foreign : Bool) (fields : Fields) : String :=
  match sorted (.record fields) with
  | .record fs => (putFields foreign 0 false { text := "", column := 0 } fs).text ++ "\n"
  | _ => ""

end Buildsmith.Data.Yaml
