import Buildsmith.Data.Value

/-!
# Values as JSON

`render` writes a value over several lines, with four more blanks at each level.  `parse?` reads a
value; besides the standard's numbers there are words for the infinities and for no number.
-/

namespace Buildsmith.Data.Json

open Char

def unitEscape (n : Nat) : List Char :=
  '\\' :: 'u' :: Text.Literal.hexDigits 4 n

/-- One character inside a string; with `ascii`, characters outside ASCII are escaped. -/
def escapeChar (ascii : Bool) (c : Char) : List Char :=
  match c with
  | '"' => ['\\', '"']
  | '\\' => ['\\', '\\']
  | '\n' => ['\\', 'n']
  | '\r' => ['\\', 'r']
  | '\t' => ['\\', 't']
  | c =>
    let n := c.toNat
    if n = 8 then ['\\', 'b']
    else if n = 12 then ['\\', 'f']
    else if n < 32 then unitEscape n
    else if ascii && n > 126 then
      if n < 0x10000 then unitEscape n
      else unitEscape (0xD800 + (n - 0x10000) / 0x400) ++ unitEscape (0xDC00 + (n - 0x10000) % 0x400)
    else [c]

def string (ascii : Bool) (s : String) : String :=
  String.ofList ('"' :: s.toList.flatMap (escapeChar ascii) ++ ['"'])

def newline (level : Nat) : String :=
  "\n" ++ Text.repeated (4 * level) " "

mutual

def renderAt (ascii : Bool) (level : Nat) : Value → String
  | .null => "null"
  | .flag b => if b then "true" else "false"
  | .number n => Text.Integer.text n
  | .real x => x.text "Infinity" "NaN"
  | .text s => string ascii s
  | .list [] => "[]"
  | .list (x :: xs) =>
    "[" ++ newline (level + 1) ++ renderAt ascii (level + 1) x ++ renderItems ascii (level + 1) xs ++
      newline level ++ "]"
  | .record [] => "\x7b\x7d"
  | .record ((k, v) :: fs) =>
    "\x7b" ++ newline (level + 1) ++ string ascii k ++ ": " ++ renderAt ascii (level + 1) v ++
      renderFields ascii (level + 1) fs ++ newline level ++ "\x7d"

def renderItems (ascii : Bool) (level : Nat) : List Value → String
  | [] => ""
  | x :: xs => "," ++ newline level ++ renderAt ascii level x ++ renderItems ascii level xs

def renderFields (ascii : Bool) (level : Nat) : List (String × Value) → String
  | [] => ""
  | (k, v) :: fs =>
    "," ++ newline level ++ string ascii k ++ ": " ++ renderAt ascii level v ++
      renderFields ascii level fs

end

def render (ascii : Bool) (v : Value) : String := renderAt ascii 0 v

def skip (cs : List Char) : List Char :=
  cs.dropWhile fun c => c = ' ' || c = '\t' || c = '\n' || c = '\r'

def readUnit : List Char → Option (Nat × List Char)
  | a :: b :: c :: d :: rest => do
    let digit (c : Char) : Option Nat :=
      if c.toNat < 128 then (Text.digitValue? c).filter (· < 16) else none
    let n := ((← digit a) * 16 + (← digit b)) * 16 + (← digit c)
    return (n * 16 + (← digit d), rest)
  | _ => none

def readEscape : List Char → Option (Char × List Char)
  | '"' :: rest => some ('"', rest)
  | '\\' :: rest => some ('\\', rest)
  | '/' :: rest => some ('/', rest)
  | 'b' :: rest => some (ofNat 8, rest)
  | 'f' :: rest => some (ofNat 12, rest)
  | 'n' :: rest => some ('\n', rest)
  | 'r' :: rest => some ('\r', rest)
  | 't' :: rest => some ('\t', rest)
  | 'u' :: rest => do
    let (n, rest) ← readUnit rest
    match rest with
    | '\\' :: 'u' :: more =>
      match readUnit more with
      | some (m, more) =>
        if 0xD800 ≤ n && n < 0xDC00 && 0xDC00 ≤ m && m < 0xE000 then
          return (ofNat (0x10000 + (n - 0xD800) * 0x400 + (m - 0xDC00)), more)
        else return (ofNat n, rest)
      | none => return (ofNat n, rest)
    | _ => return (ofNat n, rest)
  | _ => none

/-- Reads a string behind its opening quote; `word` is what was read of it, reversed. -/
def readString : Nat → List Char → List Char → Option (String × List Char)
  | 0, _, _ => none
  | fuel + 1, word, cs =>
    match cs with
    | '"' :: rest => some (String.ofList word.reverse, rest)
    | '\\' :: rest => do
      let (c, rest) ← readEscape rest
      readString fuel (c :: word) rest
    | c :: rest => if c.toNat < 32 then none else readString fuel (c :: word) rest
    | [] => none

def digitsValue (ds : List Char) : Nat :=
  ds.foldl (fun n c => n * 10 + (c.toNat - 48)) 0

def readPlaces : List Char → List Char × List Char
  | '.' :: rest => (rest.takeWhile isDigit, rest.dropWhile isDigit)
  | _ => ([], [])

def readExponent? : List Char → Option (Int × List Char)
  | c :: rest =>
    if c = 'e' || c = 'E' then
      let (sign, body) := match rest with
        | '-' :: body => ((-1 : Int), body)
        | '+' :: body => (1, body)
        | body => (1, body)
      let digits := body.takeWhile isDigit
      if digits.isEmpty then none
      else some (sign * digitsValue digits, body.drop digits.length)
    else none
  | [] => none

def readNumber (cs : List Char) : Option (Value × List Char) :=
  let (isNegative, body) := match cs with
    | '-' :: rest => (true, rest)
    | cs => (false, cs)
  let digits := match body with
    | '0' :: _ => ['0']
    | body => body.takeWhile isDigit
  let rest := body.drop digits.length
  let (places, behind) := readPlaces rest
  if digits.isEmpty then none
  else
    let rest := if places.isEmpty then rest else behind
    match readExponent? rest with
    | some (e, rest) =>
      some (.real (.ofDecimal isNegative (digitsValue (digits ++ places)) (e - places.length)), rest)
    | none =>
      if !places.isEmpty then
        let x := .ofDecimal isNegative (digitsValue (digits ++ places)) (-places.length)
        some (.real x, rest)
      else if digits.length > Text.Integer.maxDecimalDigits then none
      else
        let value : Int := digitsValue digits
        some (.number (if isNegative then -value else value), rest)

def readNumeral (cs : List Char) : Option (Value × List Char) :=
  match ([("NaN", .undefined), ("Infinity", .infinite false), ("-Infinity", .infinite true)] :
      List (String × Binary64)).find? fun w => w.1.toList.isPrefixOf cs with
  | some (word, x) => some (.real x, cs.drop word.length)
  | none => readNumber cs

mutual

def readValue : Nat → List Char → Option (Value × List Char)
  | 0, _ => none
  | fuel + 1, cs =>
    match cs with
    | '"' :: rest => (readString (rest.length + 1) [] rest).map fun (s, rest) => (.text s, rest)
    | '[' :: rest =>
      match skip rest with
      | ']' :: rest => some (.list [], rest)
      | rest => (readList fuel rest).map fun (xs, rest) => (.list xs, rest)
    | '\x7b' :: rest =>
      match skip rest with
      | '\x7d' :: rest => some (.record [], rest)
      | rest => (readFields fuel [] rest).map fun (fs, rest) => (.record fs, rest)
    | 'n' :: 'u' :: 'l' :: 'l' :: rest => some (.null, rest)
    | 't' :: 'r' :: 'u' :: 'e' :: rest => some (.flag true, rest)
    | 'f' :: 'a' :: 'l' :: 's' :: 'e' :: rest => some (.flag false, rest)
    | cs => readNumeral cs

def readList : Nat → List Char → Option (List Value × List Char)
  | 0, _ => none
  | fuel + 1, cs => do
    let (x, rest) ← readValue fuel cs
    match skip rest with
    | ']' :: rest => return ([x], rest)
    | ',' :: rest =>
      let (xs, rest) ← readList fuel (skip rest)
      return (x :: xs, rest)
    | _ => none

def readFields : Nat → Fields → List Char → Option (Fields × List Char)
  | 0, _, _ => none
  | fuel + 1, fs, cs =>
    match cs with
    | '"' :: rest => do
      let (key, rest) ← readString (rest.length + 1) [] rest
      match skip rest with
      | ':' :: rest =>
        let (v, rest) ← readValue fuel (skip rest)
        let fs := Fields.put key v fs
        match skip rest with
        | '\x7d' :: rest => return (fs, rest)
        | ',' :: rest => readFields fuel fs (skip rest)
        | _ => none
      | _ => none
    | _ => none

end

def parse? (s : String) : Option Value := do
  let cs := skip s.toList
  let (v, rest) ← readValue (2 * cs.length + 2) cs
  if (skip rest).isEmpty then some v else none

end Buildsmith.Data.Json
