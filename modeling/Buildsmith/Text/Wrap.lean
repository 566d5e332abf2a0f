import Buildsmith.Text.Basic
import Buildsmith.Text.Printable

/-!
# Wrapping text

Text is cut into pieces at blanks, behind the hyphens of compound words and around dashes; the
pieces are then put on lines as long as they fit.  A piece that is longer than a line is broken.

Blanks at the end of a line, and at the start of all lines but the first, are dropped.
-/

namespace Buildsmith.Text.Wrap

def isGap (c : Char) : Bool :=
  c = ' ' || (9 ≤ c.toNat && c.toNat ≤ 13)

def isLetter (c : Char) : Bool :=
  isWordChar c && (decimalValue? c).isNone

def precedesDash (c : Char) : Bool :=
  isWordChar c || "!\"'&.,?".toList.contains c

/-- The length of a dash of two hyphens or more that a word follows; zero if there is none. -/
def dashLength (s : List Char) : Nat :=
  let n := (s.takeWhile (· = '-')).length
  if n ≥ 2 && ((s.drop n).head?.any isWordChar) then n else 0

/-- Whether a compound word can be cut behind a hyphen, given the characters before the hyphen,
nearest first, and those behind it. -/
def isCompound (before behind : List Char) : Bool :=
  (match before with
    | a :: b :: rest => isLetter a && (isLetter b || (b = '-' && rest.head?.any isLetter))
    | _ => false) &&
  (match behind with
    | a :: b :: rest => isLetter a && (isLetter b || (b = '-' && rest.head?.any isLetter))
    | _ => false)

/-- Takes a word: its characters, last first, and the rest.  The characters of the text before the
rest are given, nearest first. -/
def takeWord (before : List Char) : List Char → List Char → List Char × List Char
  | word, [] => (word, [])
  | word, c :: cs =>
    if word.isEmpty then takeWord (c :: before) [c] cs
    else if c = '-' && isCompound before cs then (c :: word, cs)
    else if isGap c then (word, c :: cs)
    else if before.head?.any precedesDash && dashLength (c :: cs) > 0 then (word, c :: cs)
    else takeWord (c :: before) (c :: word) cs

/-- Cuts a text into pieces, given the characters before it, nearest first; `fuel` bounds their
number. -/
def pieces : Nat → List Char → List Char → List String
  | 0, _, _ => []
  | _ + 1, _, [] => []
  | fuel + 1, before, c :: cs =>
    let s := c :: cs
    let (piece, rest) :=
      if isGap c then (s.takeWhile isGap, s.dropWhile isGap)
      else
        let n := if before.head?.any precedesDash then dashLength s else 0
        if n > 0 then (s.take n, s.drop n)
        else
          let (word, rest) := takeWord before [] s
          (word.reverse, rest)
    String.ofList piece :: pieces fuel (piece.reverse ++ before) rest

def split (s : String) : List String :=
  let cs := (expandTabs s).toList.map fun c => if isGap c then ' ' else c
  pieces (cs.length + 1) [] cs

def takeFitting (width : Nat) : List String → Nat → List String → List String × Nat × List String
  | line, used, [] => (line, used, [])
  | line, used, p :: ps =>
    if used + p.length ≤ width then takeFitting width (p :: line) (used + p.length) ps
    else (line, used, p :: ps)

/-- Where a piece that is too long is broken: behind the last hyphen that fits, else at the end. -/
def breakAt (room : Nat) (piece : String) : Nat :=
  let fitting := piece.toList.take room
  match findLast? (String.ofList fitting) "-" with
  | some i => if i > 0 && (fitting.take i).any (· ≠ '-') then i + 1 else room
  | none => room

def fill (width : Nat) : Nat → Bool → List String → List String
  | 0, _, _ => []
  | _ + 1, _, [] => []
  | fuel + 1, isFirst, p :: ps =>
    let ps := if !isFirst && isAllBlankOrEmpty p then ps else p :: ps
    let (line, used, rest) := takeFitting width [] 0 ps
    let (line, rest) := match rest with
      | q :: qs =>
        if q.length > width then
          let n := breakAt (width - used) q
          (takeFirst n q :: line, dropFirst n q :: qs)
        else (line, q :: qs)
      | [] => (line, [])
    let line := match line with
      | q :: qs => if isAllBlankOrEmpty q then qs else q :: qs
      | [] => []
    if line.isEmpty then fill width fuel isFirst rest
    else String.join line.reverse :: fill width fuel false rest
where
  /-- Whether nothing but blanks is in a piece. -/
  isAllBlankOrEmpty (s : String) : Bool := s.all isBlank

def lines (width : Nat) (s : String) : List String :=
  fill width (2 * s.length * 8 + 2) true (split s)

end Buildsmith.Text.Wrap
