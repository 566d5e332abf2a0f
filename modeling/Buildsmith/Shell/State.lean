import Buildsmith.FileTree.Walk
import Buildsmith.Shell.Printf
import Buildsmith.Shell.Word

/-!
# The shell while it runs

The shell works on a file tree and keeps its variables and the status of the last command.  What
commands write is kept in order, each piece with the stream it went to.
-/

namespace Buildsmith.Shell

open String

/-- The shell while it runs. -/
structure State where
  files : FileTree
  cwd : List String
  bindings : List (String × String)
  status : Nat := 0
  /-- What can be read from the standard input. -/
  input : List UInt8 := []
  /-- What was written, with the streams. -/
  written : List (Nat × List UInt8) := []
  /-- The streams that can be written to. -/
  streams : List Nat := [1, 2]
  exited : Bool := false

namespace State

def value? (st : State) (name : String) : Option String :=
  match name with
  | "?" => some (Text.Integer.natText st.status)
  | "#" => some "0"
  | "0" => some "/bin/sh"
  | "-" | "@" | "*" => some ""
  | name => (st.bindings.find? fun v => v.1 == name).map Prod.snd

def assign (st : State) (name value : String) : State :=
  if st.bindings.any fun v => v.1 == name then
    { st with bindings := st.bindings.map fun v => if v.1 == name then (name, value) else v }
  else { st with bindings := st.bindings ++ [(name, value)] }

def write (st : State) (stream : Nat) (bytes : List UInt8) : State :=
  if bytes.isEmpty then st else { st with written := st.written ++ [(stream, bytes)] }

def writtenTo (st : State) (stream : Nat) : List UInt8 :=
  (st.written.filter fun w => w.1 == stream).flatMap Prod.snd

def writtenElsewhere (st : State) (stream : Nat) : List (Nat × List UInt8) :=
  st.written.filter fun w => w.1 != stream

end State

abbrev RunM := StateM State

def say (s : String) : RunM Unit :=
  modify (·.write 1 (bytesOf s))

def leave (status : Nat) : RunM Unit :=
  modify fun st => { st with status }

def complain (text : String) (status : Nat) : RunM Unit := do
  modify (·.write 2 (bytesOf ("/bin/sh: 1: " ++ text ++ "\n")))
  leave status

/-- Reports a failure that ends the shell. -/
def giveUp (text : String) : RunM Unit := do
  complain text 2
  modify fun st => { st with exited := true }

def grumble (text : String) (status : Nat) : RunM Unit := do
  modify (·.write 2 (bytesOf (text ++ "\n")))
  leave status

/-- Runs something on its own: what it does to the variables and the directory is undone. -/
def isolated (act : RunM Unit) : RunM Unit := do
  let before ← get
  act
  modify fun st =>
    { st with bindings := before.bindings, cwd := before.cwd, exited := before.exited }

/-- Runs something and takes what it writes to the standard output. -/
def taking (act : RunM Unit) : RunM (List UInt8) := do
  let before ← get
  set { before with written := [] }
  act
  let st ← get
  set { st with written := before.written ++ st.writtenElsewhere 1 }
  return st.writtenTo 1

def startBindings (cwd : List String) (env : List (String × String)) : List (String × String) :=
  let own := [("IFS", " \t\n"), ("OPTIND", "1"),
    ("PATH", "/usr/local/sbin:/usr/local/bin:/usr/sbin:/usr/bin:/sbin:/bin"), ("PS1", "# "),
    ("PS2", "> "), ("PS4", "+ ")]
  let given := env.filter fun v => isName v.1.toList && v.1 != "PWD" && v.1 != "IFS"
  [("PWD", Path.render cwd)] ++ given ++ own.filter fun v => !given.any fun g => g.1 == v.1

/-! ## Conditions -/

namespace Condition

/-- Outcomes of a condition at the front of some words, with the last word of it and the rest; a
condition that makes no sense has a message. -/
abbrev Verdict := Except String (Bool × String × List String)

def unaryOperators : List String :=
  ["-b", "-c", "-d", "-e", "-f", "-g", "-h", "-k", "-n", "-p", "-r", "-s", "-t", "-u", "-w", "-x",
    "-z", "-G", "-L", "-O", "-S"]

def binaryOperators : List String :=
  ["=", "!=", "<", ">", "-eq", "-ne", "-lt", "-le", "-gt", "-ge", "-nt", "-ot", "-ef"]

def unary (st : State) (operator operand : String) : Bool :=
  let isThere := st.files.pathExists st.cwd operand
  match operator with
  | "-n" => !operand.isEmpty
  | "-z" => operand.isEmpty
  | "-f" => st.files.isFile st.cwd operand
  | "-d" | "-x" => st.files.isDir st.cwd operand
  | "-s" =>
    match st.files.read st.cwd operand with
    | .ok content => !content.isEmpty
    | .error _ => isThere
  | "-e" | "-r" | "-w" | "-O" | "-G" => isThere
  | _ => false

def number (s : String) : Except String Int :=
  let cs := s.toList.dropWhile (· = ' ')
  let body := match cs with
    | '-' :: cs | '+' :: cs => cs
    | cs => cs
  let (digits, rest) := body.span Char.isDigit
  let size : Int := Nat.ofDigitChars 10 digits 0
  if digits.isEmpty || rest.any (· ≠ ' ') then .error ("Illegal number: " ++ s)
  else .ok (if cs.head? = some '-' then -size else size)

def binary (a operator b : String) : Except String Bool :=
  match operator with
  | "=" => .ok (a = b)
  | "!=" => .ok (a ≠ b)
  | "<" => .ok (a < b)
  | ">" => .ok (b < a)
  | "-nt" | "-ot" | "-ef" => .ok false
  | _ => do
    let x ← number a
    let y ← number b
    return match operator with
      | "-eq" => x = y
      | "-ne" => x ≠ y
      | "-lt" => x < y
      | "-le" => x ≤ y
      | "-gt" => y < x
      | _ => y ≤ x

def primary (st : State) : List String → Verdict
  | [] => .error "argument expected"
  | a :: rest =>
    match rest with
    | operator :: after =>
      if binaryOperators.contains operator then
        match after with
        | b :: rest => do return (← binary a operator b, b, rest)
        | [] => .error (operator ++ ": argument expected")
      else if unaryOperators.contains a then .ok (unary st a operator, operator, after)
      else .ok (!a.isEmpty, a, rest)
    | [] => .ok (!a.isEmpty, a, [])

mutual

/-- Conditions joined by `-a` or, with `isOr`, such chains joined by `-o`. -/
def chain (st : State) (isOr : Bool) : Nat → List String → Verdict
  | 0, _ => .error "argument expected"
  | n + 1, words => do
    let (x, last, rest) ← if isOr then chain st false n words else negation st n words
    if rest.head? ≠ some (if isOr then "-o" else "-a") then return (x, last, rest)
    let (y, last, rest) ← chain st isOr n (rest.drop 1)
    return (if isOr then x || y else x && y, last, rest)

def negation (st : State) : Nat → List String → Verdict
  | 0, _ => .error "argument expected"
  | n + 1, words =>
    match words with
    | "!" :: w :: rest =>
      if binaryOperators.contains w && rest.length = 1 then primary st words
      else do
        let (x, last, rest) ← negation st n (w :: rest)
        return (!x, last, rest)
    | "(" :: w :: rest =>
      if binaryOperators.contains w then primary st words
      else do
        let (x, _, rest) ← chain st true n (w :: rest)
        match rest with
        | ")" :: rest => return (x, ")", rest)
        | _ => .error "closing paren expected"
    | words => primary st words

end

def holds (st : State) (words : List String) : Except String Bool := do
  if words.isEmpty then return false
  let (x, last, rest) ← chain st true (4 * words.length + 4) words
  if rest.isEmpty then return x else .error (last ++ ": unexpected operator")

end Condition

/-!
## Expansion of words

Variables and commands in a word are replaced by their values and outputs.  Unquoted values are
split at blanks, so one word can give any number of fields.  A field with unquoted wildcards gives
the paths that match, if there are any.
-/

/-- Computations that expand words; a wrong use of a variable ends them with a message. -/
abbrev ExpandM := ExceptT String RunM

abbrev FieldChar := Char × Bool

/-- Fields: the finished ones, and the one that is open, if any; both are reversed. -/
structure Fields where
  done : List (List FieldChar) := []
  cur : Option (List FieldChar) := none

namespace Fields

def add (f : Fields) (s : String) (quoted : Bool) : Fields :=
  { f with cur := some ((s.toList.map (·, quoted)).reverse ++ f.cur.getD []) }

def close (f : Fields) : Fields :=
  match f.cur with
  | some cs => ⟨cs.reverse :: f.done, none⟩
  | none => f

def addValue (f : Fields) (s : String) (quoted : Bool) : Fields :=
  if quoted then f.add s true
  else
    s.toList.foldl
      (fun f c =>
        if c = ' ' || c = '\t' || c = '\n' then f.close else f.add (ofList [c]) false) f

def all (f : Fields) : List (List FieldChar) :=
  f.close.done.reverse

end Fields

def fieldText (cs : List FieldChar) : String :=
  ofList (cs.map Prod.fst)

def fieldPattern (cs : List FieldChar) : String :=
  ofList (cs.flatMap fun (c, quoted) =>
    if quoted && (c = '*' || c = '?' || c = '[') then ['[', c, ']'] else [c])

def fieldTexts (st : State) (cs : List FieldChar) : List String :=
  if cs.any fun (c, quoted) => !quoted && (c = '*' || c = '?' || c = '[') then
    match (st.files.glob st.cwd (fieldPattern cs)).mergeSort (· ≤ ·) with
    | [] => [fieldText cs]
    | paths => paths
  else [fieldText cs]

def cutMatch (atEnd longest : Bool) (pattern value : String) : String :=
  let (cut, kept) := if atEnd then (Text.dropFirst, Text.takeFirst)
    else (Text.takeFirst, Text.dropFirst)
  let places := (List.range (value.length + 1)).filter fun n =>
    Wildcard.isMatch pattern (cut n value)
  match if longest = atEnd then places.head? else places.getLast? with
  | some n => kept n value
  | none => value

def takesWord (value : Option String) : Form → Bool
  | .otherwise orEmpty | .assigned orEmpty | .required orEmpty =>
    value.isNone || (orEmpty && value = some "")
  | .instead orEmpty => !(value.isNone || (orEmpty && value = some ""))
  | _ => false

def outputText (bytes : List UInt8) : String :=
  let text := (fromUTF8? (ByteArray.mk bytes.toArray)).getD ""
  ofList (Text.dropEndWhile (· = '\n') text.toList)

-- runs a command line on its own and gives its output
variable (sub : String → RunM (List UInt8))

mutual

/-- Adds the fields of a part. -/
def Part.expand (f : Fields) : Part → ExpandM Fields
  | .text s quoted => return if s.isEmpty && !quoted then f else f.add s quoted
  | .home => do
    match (← get).value? "HOME" with
    | some path => return f.add path true
    | none => return f.add "~" true
  | .output line quoted => do return f.addValue (outputText (← sub line)) quoted
  | .value name form word quoted => do
    let value := (← get).value? name
    if takesWord value form then
      let text : ExpandM String := return join ((← expandParts {} word).all.map fieldText)
      match form with
      | .assigned _ =>
        let text ← text
        modify (·.assign name text)
        return f.addValue text quoted
      | .required orEmpty =>
        let text ← text
        let usual := "parameter not set" ++ (if orEmpty then " or null" else "")
        throw (name ++ ": " ++ (if word.isEmpty then usual else text))
      | _ => expandParts f word
    else
      match form with
      | .unknown => throw "Bad substitution"
      | .instead _ => return if quoted then f.add "" true else f
      | .length =>
        return f.addValue (Text.Integer.natText (bytesOf (value.getD "")).length) quoted
      | .cut isEnd longest =>
        let pattern := join ((← expandParts {} word).all.map fieldPattern)
        return f.addValue (cutMatch isEnd longest pattern (value.getD "")) quoted
      | _ => return f.addValue (value.getD "") quoted

def expandParts (f : Fields) : List Part → ExpandM Fields
  | [] => return f
  | p :: ps => do expandParts (← Part.expand f p) ps

end

def expandWords (ws : List Word) : ExpandM (List String) := do
  let fields ← ws.mapM fun w => do return (← expandParts sub {} w).all
  let st ← get
  return fields.flatten.flatMap (fieldTexts st)

def expandText (w : Word) : ExpandM String := do
  let quoted := w.map fun p => match p with
    | .value name form word _ => Part.value name form word true
    | .output line _ => .output line true
    | p => p
  return join ((← expandParts sub {} quoted).all.map fieldText)

end Buildsmith.Shell
