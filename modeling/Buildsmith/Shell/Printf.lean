import Buildsmith.Text.Basic

/-!
# Formatted output of the shell

`printf` and `echo` understand backslash escapes.  Output is a list of bytes, since an octal
escape may write any byte.

A format is written again and again until the arguments are used up; arguments that are missing
count as empty.
-/

namespace Buildsmith.Shell

open String

def bytesOf (s : String) : List UInt8 :=
  s.toUTF8.toList

def octal? (c : Char) : Option Nat :=
  if '0' ≤ c && c ≤ '7' then some (c.toNat - 48) else none

def readOctal : Nat → Nat → List Char → Nat × List Char
  | 0, acc, cs => (acc, cs)
  | _ + 1, acc, [] => (acc, [])
  | n + 1, acc, c :: cs =>
    match octal? c with
    | some d => readOctal n (acc * 8 + d) cs
    | none => (acc, c :: cs)

def escapeLetters : List (Char × UInt8) :=
  [('a', 7), ('b', 8), ('e', 27), ('f', 12), ('n', 10), ('r', 13), ('t', 9), ('v', 11), ('\\', 92)]

/-- The byte that is written for a backslash and what stands behind it; a backslash that escapes
nothing stands for itself. -/
def readEscape (cs : List Char) : UInt8 × List Char :=
  match cs with
  | [] => (92, [])
  | c :: rest =>
    match escapeLetters.lookup c with
    | some b => (b, rest)
    | none =>
      if (octal? c).isSome then
        let (v, rest) := readOctal 3 0 cs
        (UInt8.ofNat v, rest)
      else (92, cs)

/-- Expands escapes in an argument, where octal numbers may begin with a zero; the flag is false
when `\c` ends all output. -/
def expandEcho : Nat → List UInt8 → List Char → List UInt8 × Bool
  | 0, acc, _ => (acc, true)
  | _ + 1, acc, [] => (acc, true)
  | _ + 1, acc, '\\' :: 'c' :: _ => (acc, false)
  | n + 1, acc, '\\' :: '0' :: cs =>
    let (v, rest) := readOctal 3 0 cs
    expandEcho n (acc ++ [UInt8.ofNat v]) rest
  | n + 1, acc, '\\' :: cs =>
    let (b, rest) := readEscape cs
    expandEcho n (acc ++ [b]) rest
  | n + 1, acc, c :: cs => expandEcho n (acc ++ bytesOf (ofList [c])) cs

def echo (args : List String) : List UInt8 :=
  let (newline, args) :=
    match args with
    | "-n" :: rest => (false, rest)
    | rest => (true, rest)
  let joined := (intercalate " " args).toList
  let (out, goesOn) := expandEcho (joined.length + 1) [] joined
  if newline && goesOn then out ++ [10] else out

/-- The digits at the front of a text in some base, as a number; the flag says whether there are
any. -/
def readDigitsIn (base : Nat) : Nat → Bool → List Char → Nat × Bool × List Char
  | acc, any, [] => (acc, any, [])
  | acc, any, c :: cs =>
    let d :=
      if '0' ≤ c && c ≤ '9' then c.toNat - 48
      else if 'a' ≤ c && c ≤ 'f' then c.toNat - 87
      else if 'A' ≤ c && c ≤ 'F' then c.toNat - 55
      else base
    if d < base then readDigitsIn base (acc * base + d) true cs else (acc, any, c :: cs)

/-- The number at the front of a text: a sign, a mark for the base, and digits.  Without digits the
whole text is left. -/
def readNumber (cs : List Char) : Int × List Char :=
  let body := cs.dropWhile fun c => c = ' ' || ('\t' ≤ c && c ≤ '\r')
  let (negative, body) := match body with
    | '-' :: r => (true, r)
    | '+' :: r => (false, r)
    | r => (false, r)
  let decimal := readDigitsIn (if body.head? = some '0' then 8 else 10) 0 false body
  let (n, any, rest) := match body with
    | '0' :: x :: r =>
      if x = 'x' || x = 'X' then
        match readDigitsIn 16 0 false r with
        | (n, true, rest) => (n, true, rest)
        | _ => decimal
      else decimal
    | _ => decimal
  if any then (if negative then -n else n, rest) else (0, cs)

/-- A directive of a format. -/
structure Directive where
  flags : List Char
  width : Nat
  precision : Option Nat
  letter : Char

/-- The state of writing a format. -/
structure Printing where
  out : List UInt8 := []
  arguments : List String
  /-- What is reported on the way. -/
  reports : List String := []
  /-- Whether an argument was asked for. -/
  used : Bool := false
  /-- Whether all output has ended. -/
  ended : Bool := false
  /-- Whether the format is wrong. -/
  failed : Bool := false

namespace Printing

def write (p : Printing) (bytes : List UInt8) : Printing :=
  { p with out := p.out ++ bytes }

def next (p : Printing) : Option String × Printing :=
  (p.arguments.head?, { p with arguments := p.arguments.drop 1, used := true })

def status (p : Printing) : Nat :=
  if p.failed then 2 else if p.reports.isEmpty then 0 else 1

def report (p : Printing) (text : String) : Printing :=
  { p with reports := p.reports ++ [text] }

def stop (p : Printing) (text : String) : Printing :=
  { p.report text with ended := true, failed := true }

end Printing

def Directive.pad (d : Directive) (bytes : List UInt8) : List UInt8 :=
  let fill := List.replicate (d.width - bytes.length) (32 : UInt8)
  if d.flags.contains '-' then bytes ++ fill else fill ++ bytes

def Directive.cut (d : Directive) (bytes : List UInt8) : List UInt8 :=
  d.pad (bytes.take (d.precision.getD bytes.length))

def Directive.number (d : Directive) (n : Int) : List UInt8 :=
  let isSigned := d.letter = 'd' || d.letter = 'i'
  let base := if d.letter = 'o' then 8 else if d.letter = 'x' || d.letter = 'X' then 16 else 10
  let digits := ofList (Nat.toDigits base n.natAbs)
  let digits := if d.precision = some 0 && n = 0 then "" else digits
  let digits := if d.letter = 'X' then digits.map Char.toUpper else digits
  let lead :=
    if n < 0 then "-"
    else if isSigned && d.flags.contains '+' then "+"
    else if isSigned && d.flags.contains ' ' then " "
    else if base = 16 && d.flags.contains '#' && n ≠ 0 then ofList ['0', d.letter]
    else if base = 8 && d.flags.contains '#' && n ≠ 0 then "0"
    else ""
  let zeros := match d.precision with
    | some p => p - digits.length
    | none =>
      if d.flags.contains '0' && !d.flags.contains '-' then d.width - (lead.length + digits.length)
      else 0
  d.pad (bytesOf (lead ++ ofList (List.replicate zeros '0') ++ digits))

def wordLimit (isSigned : Bool) : Int :=
  if isSigned then 0x7FFFFFFFFFFFFFFF else 0xFFFFFFFFFFFFFFFF

def numericArgument (isSigned : Bool) (arg : String) : Int × Option String :=
  match arg.toList with
  | '"' :: c :: _ | '\'' :: c :: _ => (c.toNat, none)
  | cs =>
    let (n, rest) := readNumber cs
    let limit := wordLimit isSigned
    let tooLarge := some (arg ++ ": Numerical result out of range")
    if !rest.isEmpty then
      (n, some (arg ++ (if rest.length = cs.length then ": expected numeric value"
        else ": not completely converted")))
    else if n > limit then (limit, tooLarge)
    else if isSigned && n < -limit - 1 then (-limit - 1, tooLarge)
    else (if isSigned then n else n % 0x10000000000000000, none)

def Printing.nextNumber (isSigned : Bool) (p : Printing) : Int × Printing :=
  match p.next with
  | (none, p) => (0, p)
  | (some arg, p) =>
    match numericArgument isSigned arg with
    | (n, some text) => (n, p.report text)
    | (n, none) => (n, p)

def Printing.direct (p : Printing) (d : Directive) (written : String) : Printing :=
  let (arg, after) := p.next
  let text := arg.getD ""
  match d.letter with
  | 's' => after.write (d.cut (bytesOf text))
  | 'b' =>
    let (out, goesOn) := expandEcho (text.length + 1) [] text.toList
    { after.write (d.cut out) with ended := !goesOn }
  | 'c' => after.write (d.pad [(bytesOf text).head?.getD 0])
  | c =>
    let isSigned := c = 'd' || c = 'i'
    if isSigned || "ouxX".toList.contains c then
      let (n, p) := p.nextNumber isSigned
      p.write (d.number n)
    else p.stop (written ++ ": invalid directive")

def Printing.readCount (p : Printing) (cs : List Char) : Option Int × Printing × List Char :=
  match cs with
  | '*' :: rest =>
    let (n, p) := p.nextNumber true
    (some n, p, rest)
  | cs =>
    let (digits, rest) := cs.span Char.isDigit
    (if digits.isEmpty then none else some (Nat.ofDigitChars 10 digits 0 : Int), p, rest)

def Printing.readDirective (p : Printing) (cs : List Char) : Printing × List Char :=
  let (flags, rest) := cs.span "#-+ 0".toList.contains
  let (width, p, rest) := p.readCount rest
  let (precision, p, rest) := match rest with
    | '.' :: r =>
      let (n, p, r) := p.readCount r
      (some (n.getD 0), p, r)
    | r => (none, p, r)
  match rest with
  | [] => (p.stop "missing format character", [])
  | letter :: after =>
    let width := width.getD 0
    let d : Directive :=
      { flags := if width < 0 then '-' :: flags else flags
        width := width.natAbs
        precision := (precision.filter (0 ≤ ·)).map Int.toNat
        letter }
    let written := ofList ('%' :: cs.take (cs.length - after.length))
    (p.direct d written, after)

def Printing.pass (p : Printing) : Nat → List Char → Printing
  | 0, _ => p
  | _ + 1, [] => p
  | n + 1, '\\' :: cs =>
    let (b, rest) := readEscape cs
    (p.write [b]).pass n rest
  | n + 1, '%' :: '%' :: cs => (p.write [37]).pass n cs
  | n + 1, '%' :: cs =>
    let (p, rest) := p.readDirective cs
    if p.ended then p else p.pass n rest
  | n + 1, c :: cs => (p.write (bytesOf (ofList [c]))).pass n cs

def Printing.passes (format : List Char) : Nat → Printing → Printing
  | 0, p => p
  | n + 1, p =>
    let p := ({ p with used := false } : Printing).pass (format.length + 1) format
    if p.ended || p.arguments.isEmpty || !p.used then p else Printing.passes format n p

def printf (format : String) (args : List String) : Printing :=
  Printing.passes format.toList (args.length + 1) { arguments := args }

end Buildsmith.Shell
