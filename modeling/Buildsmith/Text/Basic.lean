/-!
# Characters and parts of texts

Trimming, splitting, finding and replacing are stated on lists of characters.  Occurrences are taken
from left to right and never overlap.
-/

namespace Buildsmith.Text

open String

/-!
## Blanks

White space is decided by the Unicode character database, together with the four information
separators.  The six ASCII blanks separate words in configuration files.
-/

def isBlank (c : Char) : Bool :=
  let n := c.toNat
  (9 ≤ n && n ≤ 13) || (28 ≤ n && n ≤ 32) || n == 0x85 || n == 0xA0 || n == 0x1680 ||
    (0x2000 ≤ n && n ≤ 0x200A) || n == 0x2028 || n == 0x2029 || n == 0x202F || n == 0x205F ||
    n == 0x3000

def isAsciiBlank (c : Char) : Bool :=
  let n := c.toNat
  (9 ≤ n && n ≤ 13) || n == 32

def dropEndWhile (p : Char → Bool) (cs : List Char) : List Char :=
  (cs.reverse.dropWhile p).reverse

def trimStart (s : String) : String :=
  ofList (s.toList.dropWhile isBlank)

def trimEnd (s : String) : String :=
  ofList (dropEndWhile isBlank s.toList)

def trim (s : String) : String :=
  ofList (dropEndWhile isBlank (s.toList.dropWhile isBlank))

def trimWhere (p : Char → Bool) (s : String) : String :=
  ofList (dropEndWhile p (s.toList.dropWhile p))

def isAllBlank (s : String) : Bool :=
  !s.toList.isEmpty && s.toList.all isBlank

/-- Collects the maximal runs of characters outside `sep`; `word` is the run read so far, reversed. -/
def runsOutside (sep : Char → Bool) : List Char → List Char → List (List Char)
  | word, [] => if word.isEmpty then [] else [word.reverse]
  | word, c :: cs =>
    if sep c then
      if word.isEmpty then runsOutside sep [] cs else word.reverse :: runsOutside sep [] cs
    else runsOutside sep (c :: word) cs

def words (s : String) : List String :=
  (runsOutside isBlank [] s.toList).map ofList

/-! ## Decimal digits -/

def decimalZeros : List Nat :=
  [0x30, 0x660, 0x6f0, 0x7c0, 0x966, 0x9e6, 0xa66, 0xae6, 0xb66, 0xbe6, 0xc66, 0xce6, 0xd66,
   0xde6, 0xe50, 0xed0, 0xf20, 0x1040, 0x1090, 0x17e0, 0x1810, 0x1946, 0x19d0, 0x1a80, 0x1a90,
   0x1b50, 0x1bb0, 0x1c40, 0x1c50, 0xa620, 0xa8d0, 0xa900, 0xa9d0, 0xa9f0, 0xaa50, 0xabf0,
   0xff10, 0x104a0, 0x10d30, 0x11066, 0x110f0, 0x11136, 0x111d0, 0x112f0, 0x11450, 0x114d0,
   0x11650, 0x116c0, 0x11730, 0x118e0, 0x11950, 0x11c50, 0x11d50, 0x11da0, 0x16a60, 0x16ac0,
   0x16b50, 0x1d7ce, 0x1d7d8, 0x1d7e2, 0x1d7ec, 0x1d7f6, 0x1e140, 0x1e2f0, 0x1e950, 0x1fbf0]

def decimalValue? (c : Char) : Option Nat :=
  (decimalZeros.find? fun z => z ≤ c.toNat && c.toNat < z + 10).map (c.toNat - ·)

def digitValue? (c : Char) : Option Nat :=
  match decimalValue? c with
  | some d => some d
  | none =>
    if 'a' ≤ c && c ≤ 'z' then some (c.toNat - 'a'.toNat + 10)
    else if 'A' ≤ c && c ≤ 'Z' then some (c.toNat - 'A'.toNat + 10)
    else none

/-!
## Lines

A *physical line* of a file ends at a line feed, which it keeps, once carriage returns have been
unified.  The *display lines* of a text end at any Unicode line boundary and do not keep it.
-/

def unifyNewlines : List Char → List Char
  | [] => []
  | '\r' :: '\n' :: cs => '\n' :: unifyNewlines cs
  | '\r' :: cs => '\n' :: unifyNewlines cs
  | c :: cs => c :: unifyNewlines cs

def physicalLinesFrom : List Char → List Char → List String
  | line, [] => if line.isEmpty then [] else [ofList line.reverse]
  | line, c :: cs =>
    if c = '\n' then ofList (('\n' :: line).reverse) :: physicalLinesFrom [] cs
    else physicalLinesFrom (c :: line) cs

def physicalLines (s : String) : List String :=
  physicalLinesFrom [] s.toList

def isLineBreak (c : Char) : Bool :=
  let n := c.toNat
  (10 ≤ n && n ≤ 13) || (28 ≤ n && n ≤ 30) || n == 0x85 || n == 0x2028 || n == 0x2029

def displayLinesFrom : List Char → List Char → List String
  | line, [] => if line.isEmpty then [] else [ofList line.reverse]
  | line, '\r' :: '\n' :: cs => ofList line.reverse :: displayLinesFrom [] cs
  | line, c :: cs =>
    if isLineBreak c then ofList line.reverse :: displayLinesFrom [] cs
    else displayLinesFrom (c :: line) cs

def displayLines (s : String) : List String :=
  displayLinesFrom [] s.toList

def expandTabsFrom (width : Nat) : Nat → List Char → List Char
  | _, [] => []
  | col, c :: cs =>
    if c = '\t' then
      let gap := width - col % width
      List.replicate gap ' ' ++ expandTabsFrom width (col + gap) cs
    else if c = '\n' || c = '\r' then c :: expandTabsFrom width 0 cs
    else c :: expandTabsFrom width (col + 1) cs

def expandTabs (s : String) : String :=
  ofList (expandTabsFrom 8 0 s.toList)

/-! ## Finding and replacing -/

def startsWith (s lead : String) : Bool :=
  lead.toList.isPrefixOf s.toList

def endsWith (s tail : String) : Bool :=
  tail.toList.isSuffixOf s.toList

def splitFirst (needle : List Char) : List Char → Option (List Char × List Char)
  | [] => if needle.isEmpty then some ([], []) else none
  | c :: cs =>
    if needle.isPrefixOf (c :: cs) then some ([], (c :: cs).drop needle.length)
    else (splitFirst needle cs).map fun (before, after) => (c :: before, after)

def contains (s needle : String) : Bool :=
  (splitFirst needle.toList s.toList).isSome

def find? (s needle : String) : Option Nat :=
  (splitFirst needle.toList s.toList).map fun (before, _) => before.length

/-- Replaces occurrences of `old`; the counter is the number of characters still to be skipped. -/
def replaceFrom (old new : List Char) : Nat → List Char → List Char
  | _, [] => []
  | k + 1, _ :: cs => replaceFrom old new k cs
  | 0, c :: cs =>
    if old.isPrefixOf (c :: cs) then new ++ replaceFrom old new (old.length - 1) cs
    else c :: replaceFrom old new 0 cs

def replace (s old new : String) : String :=
  if old.isEmpty then s else ofList (replaceFrom old.toList new.toList 0 s.toList)

/-- Splits at occurrences of `sep`; `piece` is the piece read so far, reversed. -/
def piecesFrom (sep : List Char) : Nat → List Char → List Char → List (List Char)
  | _, piece, [] => [piece.reverse]
  | k + 1, piece, _ :: cs => piecesFrom sep k piece cs
  | 0, piece, c :: cs =>
    if sep.isPrefixOf (c :: cs) then piece.reverse :: piecesFrom sep (sep.length - 1) [] cs
    else piecesFrom sep 0 (c :: piece) cs

def splitOn (s sep : String) : List String :=
  if sep.isEmpty then [s] else (piecesFrom sep.toList 0 [] s.toList).map ofList

def splitLast (needle cs : List Char) : Option (List Char × List Char) :=
  (splitFirst needle.reverse cs.reverse).map fun (after, before) =>
    (before.reverse, after.reverse)

def findLast? (s needle : String) : Option Nat :=
  (splitLast needle.toList s.toList).map fun (before, _) => before.length

def cut? (s sep : String) : Option (String × String) :=
  (splitFirst sep.toList s.toList).map fun (a, b) => (ofList a, ofList b)

def cutLast? (s sep : String) : Option (String × String) :=
  (splitLast sep.toList s.toList).map fun (a, b) => (ofList a, ofList b)

def dropFirst (i : Nat) (s : String) : String :=
  ofList (s.toList.drop i)

def takeFirst (n : Nat) (s : String) : String :=
  ofList (s.toList.take n)

/-- A position counted from the start or, if it is negative, from the end; at most `n`. -/
def placeIn (n : Nat) (i : Int) : Nat :=
  if i < 0 then (i + n).toNat else min i.toNat n

def slice (s : String) (start stop : Int) : String :=
  let cs := s.toList
  let i := placeIn cs.length start
  ofList ((cs.take (placeIn cs.length stop)).drop i)

def repeated (n : Nat) (s : String) : String :=
  join (List.replicate n s)

/-!
## Variables

A reference to an unset variable stays as it is, and replaced text is not looked at again.
-/

def isAsciiWord (c : Char) : Bool :=
  c.isAlphanum || c = '_'

/-- The name that a reference behind a dollar sign gives, and the number of its characters. -/
def referenceName? (cs : List Char) : Option (String × Nat) :=
  match cs with
  | '\x7b' :: rest =>
    let name := rest.takeWhile (· ≠ '\x7d')
    if name.length < rest.length then some (ofList name, name.length + 2) else none
  | rest =>
    let name := rest.takeWhile isAsciiWord
    if name.isEmpty then none else some (ofList name, name.length)

/-- Replaces references; the counter is the number of characters still to be skipped. -/
def expandVariablesFrom (value : String → Option String) : Nat → List Char → List Char
  | _, [] => []
  | k + 1, _ :: cs => expandVariablesFrom value k cs
  | 0, c :: cs =>
    if c = '$' then
      match referenceName? cs with
      | some (name, n) =>
        match value name with
        | some v => v.toList ++ expandVariablesFrom value n cs
        | none => '$' :: cs.take n ++ expandVariablesFrom value n cs
      | none => '$' :: expandVariablesFrom value 0 cs
    else c :: expandVariablesFrom value 0 cs

def expandVariables (value : String → Option String) (s : String) : String :=
  ofList (expandVariablesFrom value 0 s.toList)

end Buildsmith.Text

/-!
## Integers as text

An integer literal may be surrounded by blanks, carries at most one sign and may have single
underscores between its digits.  In base sixteen a leading `0x` is optional.  Base zero means that
the literal itself announces its base; a nonzero decimal literal then has no leading zero.

Decimal text is limited to `maxDecimalDigits` digits in both directions.
-/

namespace Buildsmith.Text.Integer

def maxDecimalDigits : Nat := 4300

/-- Blanks that may surround a literal: the ASCII ones and those outside ASCII. -/
def isMargin (c : Char) : Bool :=
  isAsciiBlank c || (c.toNat > 127 && isBlank c)

/-- Reads digits of `base` separated by single underscores, with the value and the count so far. -/
def readDigits (base : Nat) : Nat → Nat → List Char → Option (Nat × Nat)
  | value, n, [] => some (value, n)
  | value, n, c :: cs =>
    if c = '_' then
      match cs with
      | [] => none
      | d :: ds =>
        match digitValue? d with
        | some v => if v < base then readDigits base (value * base + v) (n + 1) ds else none
        | none => none
    else
      match digitValue? c with
      | some v => if v < base then readDigits base (value * base + v) (n + 1) cs else none
      | none => none

/-- Reads a nonempty run of digits; decimal runs beyond the limit are refused. -/
def readMagnitude (base : Nat) (cs : List Char) : Option Nat :=
  match cs with
  | [] => none
  | c :: _ =>
    if c = '_' then none
    else
      match readDigits base 0 0 cs with
      | some (value, n) => if base = 10 && n > maxDecimalDigits then none else some value
      | none => none

def dropMarkUnderscore : List Char → List Char
  | '_' :: cs => cs
  | cs => cs

/-- The base announced by the literal's mark, and the digits after the mark. -/
def splitMark : List Char → Option (Nat × List Char)
  | '0' :: 'x' :: cs => some (16, cs)
  | '0' :: 'X' :: cs => some (16, cs)
  | '0' :: 'o' :: cs => some (8, cs)
  | '0' :: 'O' :: cs => some (8, cs)
  | '0' :: 'b' :: cs => some (2, cs)
  | '0' :: 'B' :: cs => some (2, cs)
  | _ => none

def readUnsigned (base : Nat) (cs : List Char) : Option Nat :=
  if base = 0 then
    match splitMark cs with
    | some (b, ds) => readMagnitude b (dropMarkUnderscore ds)
    | none =>
      match readMagnitude 10 cs with
      | some v => if cs.head? == some '0' && v ≠ 0 then none else some v
      | none => none
  else
    match splitMark cs with
    | some (b, ds) =>
      if b = base then readMagnitude base (dropMarkUnderscore ds) else readMagnitude base cs
    | none => readMagnitude base cs

def asciiDigit (c : Char) : Char :=
  match decimalValue? c with
  | some d => Char.ofNat (48 + d)
  | none => c

def readSigned (base : Nat) : List Char → Option Int
  | '-' :: cs => (readUnsigned base cs).map fun n => -(n : Int)
  | '+' :: cs => (readUnsigned base cs).map Int.ofNat
  | cs => (readUnsigned base cs).map Int.ofNat

/-- The integer written by `s` in `base`; base zero takes the base from the literal. -/
def parse? (base : Nat) (s : String) : Option Int :=
  readSigned base ((dropEndWhile isMargin (s.toList.dropWhile isMargin)).map asciiDigit)

def isLiteral (base : Nat) (s : String) : Bool :=
  (parse? base s).isSome

def natText (n : Nat) : String :=
  String.ofList (Nat.toDigits 10 n)

def text (n : Int) : String :=
  if n < 0 then "-" ++ natText n.natAbs else natText n.natAbs

def hexText (n : Int) : String :=
  let digits := "0x" ++ String.ofList (Nat.toDigits 16 n.natAbs)
  if n < 0 then "-" ++ digits else digits

def text? (n : Int) : Option String :=
  let t := text n
  if (Nat.toDigits 10 n.natAbs).length > maxDecimalDigits then none else some t

end Buildsmith.Text.Integer
