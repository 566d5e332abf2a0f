import Buildsmith.Text.Wrap

/-!
# Command line arguments

Words that start with a dash are options, the others are operands.  A long option may be cut short
as long as it stays unambiguous, and a lone double dash makes operands of all words that follow.
-/

namespace Buildsmith.Tool

open String

/-- How many words an option takes. -/
inductive Arity where
  | exactly (n : Nat)
  | optional
  deriving DecidableEq, Repr

/-- An option. -/
structure OptionSpec where
  key : String
  names : List String := ["--" ++ key]
  arity : Arity := .exactly 1
  /-- Whether its word has to be an integer. -/
  isInteger : Bool := false
  /-- The words that are allowed; none at all if every word is. -/
  choices : List String := []
  /-- What stands for its words in help texts. -/
  placeholders : List String := []
  /-- What it means. -/
  about : String := ""
  deriving DecidableEq, Repr

/-- The operands that a program takes. -/
inductive Operands where
  | none
  | one
  | oneOf (choices : List String)
  | optional
  | many
  deriving DecidableEq, Repr

/-- What a program takes. -/
structure ArgumentSpec where
  options : List OptionSpec := []
  operands : Operands := .none
  /-- Whether help may be asked for. -/
  hasHelp : Bool := true
  /-- What the program is for. -/
  purpose : String := ""
  /-- Whether the lines of the purpose stay as they are. -/
  isVerbatim : Bool := false
  /-- What stands for the operands in help texts. -/
  operandName : String := ""
  /-- What the operands mean. -/
  operandAbout : String := ""

def helpOption : OptionSpec :=
  { key := "help", names := ["-h", "--help"], arity := .exactly 0
    about := "show this help message and exit" }

def ArgumentSpec.allOptions (spec : ArgumentSpec) : List OptionSpec :=
  if spec.hasHelp then helpOption :: spec.options else spec.options

/-- The arguments that were given. -/
structure Arguments where
  /-- Each use of an option with its words. -/
  options : List (String × List String) := []
  operands : List String := []
  deriving Repr

namespace Arguments

def uses (a : Arguments) (key : String) : Bool :=
  a.options.any fun o => o.1 == key

def all (a : Arguments) (key : String) : List (List String) :=
  (a.options.filter fun o => o.1 == key).map Prod.snd

def value? (a : Arguments) (key : String) : Option String :=
  (a.all key).getLast?.bind List.head?

def value (a : Arguments) (key default : String) : String :=
  (a.value? key).getD default

def operand (a : Arguments) (default : String) : String :=
  a.operands.head?.getD default

end Arguments

/-- Why arguments are not accepted. -/
inductive ArgumentProblem where
  /-- The words do not fit. -/
  | usage
  /-- Help is asked for. -/
  | help
  deriving DecidableEq, Repr

/-- A word of the command line. -/
inductive ArgumentWord where
  | operand (word : String)
  | separator
  /-- An option, if it is known, with its name and the word that is joined to it. -/
  | option (spec : Option OptionSpec) (name : String) (joined : Option String)
  deriving Repr

namespace ArgumentWord

def isOption : ArgumentWord → Bool
  | option .. => true
  | _ => false

def word? : ArgumentWord → Option String
  | operand w => some w
  | _ => none

end ArgumentWord

def isNegativeNumber (s : String) : Bool :=
  let isDigit (c : Char) : Bool := (Text.decimalValue? c).isSome
  match s.toList with
  | '-' :: cs =>
    let fraction := (cs.dropWhile isDigit).drop 1
    match cs.dropWhile isDigit with
    | [] => !cs.isEmpty
    | '.' :: _ => !fraction.isEmpty && fraction.all isDigit
    | _ => false
  | _ => false

def splitJoined (s : String) : String × Option String :=
  match Text.cut? s "=" with
  | some (name, joined) => (name, some joined)
  | none => (s, none)

def candidates (options : List OptionSpec) (s : String) :
    List (OptionSpec × String × Option String) :=
  let names := options.flatMap fun o => o.names.map (o, ·)
  if Text.startsWith s "--" then
    let (lead, joined) := splitJoined s
    (names.filter fun n => Text.startsWith n.2 lead).map fun n => (n.1, n.2, joined)
  else
    names.filterMap fun (o, name) =>
      if name = Text.takeFirst 2 s then some (o, name, some (Text.dropFirst 2 s))
      else if Text.startsWith name s then some (o, name, none)
      else none

def classify (options : List OptionSpec) (s : String) : Except ArgumentProblem ArgumentWord :=
  let named? (name : String) : Option OptionSpec := options.find? (·.names.contains name)
  if !Text.startsWith s "-" then .ok (.operand s)
  else if let some o := named? s then .ok (.option (some o) s none)
  else if s.length = 1 then .ok (.operand s)
  else
    let (name, joined) := splitJoined s
    match if joined.isSome then named? name else none with
    | some o => .ok (.option (some o) name joined)
    | none =>
      match candidates options s with
      | [(o, name, joined)] => .ok (.option (some o) name joined)
      | [] =>
        if isNegativeNumber s || Text.contains s " " then .ok (.operand s)
        else .ok (.option none s none)
      | _ => .error .usage

def classifyAll (options : List OptionSpec) : List String → Except ArgumentProblem (List ArgumentWord)
  | [] => .ok []
  | s :: rest =>
    if s = "--" then .ok (.separator :: rest.map .operand)
    else do
      let item ← classify options s
      return item :: (← classifyAll options rest)

def takeWords (arity : Arity) (rest : List ArgumentWord) : Except ArgumentProblem (List String) :=
  match arity with
  | .optional =>
    match rest.head?.bind ArgumentWord.word? with
    | some w => .ok [w]
    | none => .ok []
  | .exactly n =>
    let words := (rest.take n).filterMap ArgumentWord.word?
    if words.length = n then .ok words else .error .usage

def useOption (o : OptionSpec) (words : List String) :
    Except ArgumentProblem (String × List String) :=
  if o.key = helpOption.key then .error .help
  else if o.isInteger && words.any (fun w => (Text.Integer.parse? 10 w).isNone) then .error .usage
  else if !o.choices.isEmpty && words.any (fun w => !o.choices.contains w) then .error .usage
  else .ok (o.key, words)

/-- The uses that an option brings about, and the number of further words it takes; a short option
without words may be joined to others. -/
def consumeOption (options : List OptionSpec) (rest : List ArgumentWord) (o : OptionSpec) (name : String) :
    Option (List Char) → Except ArgumentProblem (List (String × List String) × Nat)
  | none => do
    let words ← takeWords o.arity rest
    return ([← useOption o words], words.length)
  | some [] =>
    match o.arity with
    | .exactly 1 | .optional => return ([← useOption o [""]], 0)
    | .exactly _ => .error .usage
  | some (c :: cs) =>
    match o.arity with
    | .exactly 1 | .optional => return ([← useOption o [ofList (c :: cs)]], 0)
    | .exactly 0 =>
      if Text.startsWith name "--" then .error .usage
      else
        let next := ofList ['-', c]
        match options.find? (·.names.contains next) with
        | none => .error .usage
        | some o' => do
          let use ← useOption o []
          match cs with
          | [] =>
            let words ← takeWords o'.arity rest
            return ([use, ← useOption o' words], words.length)
          | d :: ds =>
            let (uses, n) ← consumeOption options rest o' next (some (d :: ds))
            return (use :: uses, n)
    | .exactly _ => .error .usage

def takeOperands (operands : Operands) (items : List ArgumentWord) : Option (List String × Nat) :=
  let run := items.takeWhile fun i => !i.isOption
  let trailing (n : Nat) : Nat :=
    match run.drop n with
    | .separator :: _ => n + 1
    | _ => n
  let single : Option (List String × Nat) :=
    match run with
    | .operand w :: _ => some ([w], trailing 1)
    | .separator :: .operand w :: _ => some ([w], 2)
    | _ => none
  match operands with
  | .none => none
  | .one | .oneOf _ => single
  | .optional => some (single.getD ([], trailing 0))
  | .many => some (run.filterMap ArgumentWord.word?, run.length)

/-- The state of reading arguments. -/
structure ArgumentReading where
  uses : List (String × List String) := []
  operands : Option (List String) := none
  hasExtras : Bool := false

def Operands.accepts (o : Operands) (words : List String) : Bool :=
  match o with
  | .oneOf choices => words.all choices.contains
  | _ => true

def readItems (spec : ArgumentSpec) (items : List ArgumentWord) (st : ArgumentReading) :
    Except ArgumentProblem ArgumentReading :=
  match items with
  | [] => .ok st
  | .option none _ _ :: rest => readItems spec rest { st with hasExtras := true }
  | .option (some o) name joined :: rest => do
    let (uses, n) ← consumeOption spec.allOptions rest o name (joined.map toList)
    readItems spec (rest.drop n) { st with uses := st.uses ++ uses }
  | item :: rest =>
    match if st.operands.isSome then none else takeOperands spec.operands (item :: rest) with
    | some (words, n + 1) =>
      if spec.operands.accepts words then
        readItems spec (rest.drop n) { st with operands := some words }
      else .error .usage
    | _ => readItems spec rest { st with hasExtras := true }
termination_by items.length

def readArguments (spec : ArgumentSpec) (words : List String) :
    Except ArgumentProblem Arguments := do
  let st ← readItems spec (← classifyAll spec.allOptions words) {}
  let isMissing := match spec.operands with
    | .one | .oneOf _ => st.operands.isNone
    | _ => false
  if isMissing || st.hasExtras then throw .usage
  return { options := st.uses, operands := st.operands.getD [] }

/-!
## Help

Lines are broken at the width of the terminal.  Words that are too long for the left column stand on
a line of their own.
-/

open Text

def helpWidth (columns : Option String) : Int :=
  match columns.bind (Integer.parse? 10 ·) with
  | some n => (if n ≤ 0 then 80 else n) - 2
  | none => 78

def OptionSpec.shownWords (o : OptionSpec) : String :=
  let word := if !o.choices.isEmpty then "\x7b" ++ intercalate "," o.choices ++ "\x7d"
    else o.key.toUpper
  match o.arity with
  | .optional => " [" ++ o.placeholders.headD word ++ "]"
  | .exactly 1 => " " ++ o.placeholders.headD word
  | .exactly _ => join (o.placeholders.map (" " ++ ·))

def ArgumentSpec.shownOperands (spec : ArgumentSpec) : List String :=
  match spec.operands with
  | .none => []
  | .one => [spec.operandName]
  | .oneOf choices => ["\x7b" ++ intercalate "," choices ++ "\x7d"]
  | .optional => ["[" ++ spec.operandName ++ "]"]
  | .many => ["[" ++ spec.operandName ++ " ...]"]

def fillParts (width : Int) (indent : Nat) : List String → Int → List String → List String
  | line, _, [] => if line.isEmpty then [] else [intercalate " " line.reverse]
  | line, used, p :: ps =>
    if used + 1 + p.length > width && !line.isEmpty then
      intercalate " " line.reverse :: fillParts width indent [p] (indent + p.length) ps
    else fillParts width indent (p :: line) (used + p.length + 1) ps

def indentedParts (width : Int) (indent : Nat) (parts : List String) : List String :=
  (fillParts width indent [] ((indent : Int) - 1) parts).map (repeated indent " " ++ ·)

def usageText (width : Int) (name : String) (spec : ArgumentSpec) : String :=
  let lead := "usage: "
  let options := spec.allOptions.map fun o => "[" ++ o.names.headD "" ++ o.shownWords ++ "]"
  let operands := spec.shownOperands
  let whole := intercalate " " (name :: options ++ operands)
  let lines :=
    if ((lead.length + whole.length : Nat) : Int) ≤ width then [whole]
    else if 4 * ((lead.length + name.length : Nat) : Int) ≤ 3 * width then
      let indent := lead.length + name.length + 1
      let first := fillParts width indent [] ((lead.length : Int) - 1) (name :: options)
      first.take 1 ++ (first.drop 1).map (repeated indent " " ++ ·) ++
        indentedParts width indent operands
    else
      let joint := indentedParts width lead.length (options ++ operands)
      name :: (if joint.length > 1 then
          indentedParts width lead.length options ++ indentedParts width lead.length operands
        else joint)
  lead ++ intercalate "\n" lines ++ "\n\n"

def explained (width : Int) (column : Nat) (entry : String × String) : String :=
  let (head, about) := entry
  let lines := Wrap.lines (max (width - column) 11).toNat (intercalate " " (words about))
  let margin := repeated column " "
  match lines with
  | [] => "  " ++ head ++ "\n"
  | first :: rest =>
    (if head.length + 4 ≤ column then
      "  " ++ head ++ repeated (column - head.length - 2) " " ++ first ++ "\n"
    else "  " ++ head ++ "\n" ++ margin ++ first ++ "\n") ++
      join (rest.map (margin ++ · ++ "\n"))

def explainedGroup (width : Int) (column : Nat) (title : String) (entries : List (String × String)) :
    String :=
  if entries.isEmpty then ""
  else "\n" ++ title ++ ":\n" ++ join (entries.map (explained width column)) ++ "\n"

def ArgumentSpec.purposeText (width : Int) (spec : ArgumentSpec) : String :=
  if spec.isVerbatim then spec.purpose
  else intercalate "\n"
    (Wrap.lines (max width 11).toNat (intercalate " " (words spec.purpose)))

def shortenBreaks : Nat → List Char → List Char
  | _, [] => []
  | n, c :: cs =>
    if c = '\n' then if n ≥ 2 then shortenBreaks n cs else c :: shortenBreaks (n + 1) cs
    else c :: shortenBreaks 0 cs

def helpText (width : Int) (name : String) (spec : ArgumentSpec) : String :=
  let operands := match spec.operands with
    | .none => []
    | .oneOf _ => spec.shownOperands.map (·, spec.operandAbout)
    | _ => [(spec.operandName, spec.operandAbout)]
  let options := spec.allOptions.map fun o =>
    (intercalate ", " (o.names.map (· ++ o.shownWords)), o.about)
  let longest := (operands ++ options).foldl (fun n e => max n (e.1.length + 2)) 0
  let column := min (longest + 2) (min 24 (max (width - 20) 4).toNat)
  let text := usageText width name spec ++ spec.purposeText width ++ "\n\n" ++
    explainedGroup width column "positional arguments" operands ++
    explainedGroup width column "options" options
  trimWhere (· = '\n') (ofList (shortenBreaks 0 text.toList)) ++ "\n"

end Buildsmith.Tool
