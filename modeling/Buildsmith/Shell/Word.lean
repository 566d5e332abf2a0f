import Buildsmith.Text.Basic

/-!
# Words of the shell

A word is made of plain text, values of variables and outputs of commands.  It keeps track of which
parts were quoted, because only unquoted values are split into fields, and only unquoted wildcards
match names of files.
-/

namespace Buildsmith.Shell

open String

/-- How the value of a variable is used. -/
inductive Form where
  | plain
  | length
  /-- Another word stands in for a value that is missing or, with `orEmpty`, empty. -/
  | otherwise (orEmpty : Bool)
  /-- The same, and the word becomes the value. -/
  | assigned (orEmpty : Bool)
  /-- Another word stands in for a value that is there. -/
  | instead (orEmpty : Bool)
  /-- A value that is missing is an error. -/
  | required (orEmpty : Bool)
  /-- A pattern is cut off at the start or end of the value. -/
  | cut (atEnd longest : Bool)
  /-- No use that the shell knows. -/
  | unknown
  deriving DecidableEq, Repr

/-- A part of a word. -/
inductive Part where
  | text (s : String) (quoted : Bool)
  | value (name : String) (form : Form) (word : List Part) (quoted : Bool)
  | output (line : String) (quoted : Bool)
  /-- The home directory, which a tilde in front of a word stands for. -/
  | home

abbrev Word := List Part

/-- Why a line cannot be read. -/
inductive Problem where
  | openQuote
  | openBrace
  | openBackquote
  | loopVariable
  /-- A piece of the line stands where it must not, and perhaps another one is expected. -/
  | unexpected (piece : String) (expected : Option String)
  deriving DecidableEq, Repr

def Problem.message : Problem → String
  | openQuote => "Unterminated quoted string"
  | openBrace => "Missing '\x7d'"
  | openBackquote => "EOF in backquote substitution"
  | loopVariable => "Bad for loop variable"
  | unexpected piece none => piece ++ " unexpected"
  | unexpected piece (some e) => piece ++ " unexpected (expecting " ++ e ++ ")"

def isNameChar (c : Char) : Bool :=
  c.isAlphanum || c = '_'

def isName (cs : List Char) : Bool :=
  match cs with
  | [] => false
  | c :: _ => !c.isDigit && cs.all isNameChar

def isSpecial (c : Char) : Bool :=
  "?#@*$!-".toList.contains c

def readName : List Char → Option (String × List Char)
  | [] => none
  | c :: cs =>
    if isSpecial c || c.isDigit then some (ofList [c], cs)
    else
      match (c :: cs).takeWhile isNameChar with
      | [] => none
      | name => some (ofList name, (c :: cs).drop name.length)

/-- What the first text of a table that some characters begin with stands for, and the rest. -/
def front? {α : Type} (table : List (String × α)) (cs : List Char) : Option (α × List Char) :=
  (table.find? fun p => p.1.toList.isPrefixOf cs).map fun p => (p.2, cs.drop p.1.length)

def forms : List (String × Form) :=
  [(":-", .otherwise true), (":=", .assigned true), (":+", .instead true), (":?", .required true),
    ("-", .otherwise false), ("=", .assigned false), ("+", .instead false), ("?", .required false),
    ("##", .cut false true), ("#", .cut false false), ("%%", .cut true true), ("%", .cut true false)]

def readForm (cs : List Char) : Form × List Char :=
  (front? forms cs).getD (if cs.head? = some '\x7d' then .plain else .unknown, cs)

def readBraced (cs : List Char) : String × Form × List Char :=
  let named (cs : List Char) : String × List Char :=
    let digits := cs.takeWhile Char.isDigit
    if digits.isEmpty then (readName cs).getD ("", cs) else (ofList digits, cs.drop digits.length)
  match cs with
  | '#' :: '\x7d' :: _ => ("#", .plain, cs.drop 1)
  | '#' :: rest =>
    let (name, rest) := named rest
    if name.isEmpty then ("", .unknown, rest) else (name, .length, rest)
  | cs =>
    let (name, rest) := named cs
    if name.isEmpty then ("", .unknown, rest) else (name, readForm rest)

def readBackquoted (quoted : Bool) : List Char → List Char → Option (List Char × List Char)
  | _, [] => none
  | acc, '\x60' :: cs => some (acc.reverse, cs)
  | acc, '\\' :: c :: cs =>
    let isEscape := c = '\x60' || c = '\\' || c = '$' || (quoted && c = '"')
    readBackquoted quoted (c :: if isEscape then acc else '\\' :: acc) cs
  | acc, c :: cs => readBackquoted quoted (c :: acc) cs

/-- Reads a command up to the parenthesis that closes it; `acc` is reversed, and `quote` is the
quote that is open. -/
def readParenthesized : Nat → Option Char → List Char → List Char →
    Option (List Char × List Char)
  | _, _, _, [] => none
  | depth, quote, acc, '\\' :: c :: cs =>
    if quote = some '\'' then readParenthesized depth quote ('\\' :: acc) (c :: cs)
    else readParenthesized depth quote (c :: '\\' :: acc) cs
  | depth, quote, acc, c :: cs =>
    if c = '"' || c = '\'' then
      let quote := if quote = some c then none else quote.or (some c)
      readParenthesized depth quote (c :: acc) cs
    else if quote.isSome then readParenthesized depth quote (c :: acc) cs
    else if c = ')' && depth = 0 then some (acc.reverse, cs)
    else
      let depth := if c = '(' then depth + 1 else if c = ')' then depth - 1 else depth
      readParenthesized depth quote (c :: acc) cs
termination_by _ _ _ cs => cs.length

def endsWord (c : Char) : Bool :=
  " \t\n;&|<>()".toList.contains c

/-- What the parts that are being read end at. -/
inductive Ending where
  | word
  | quote
  | brace
  deriving DecidableEq, Repr

def literal (c : Char) (quoted : Bool) : Part :=
  .text (ofList [c]) quoted

def readParts (quoted : Bool) (ending : Ending) :
    Nat → List Part → List Char → Except Problem (List Part × List Char)
  | 0, _, _ => .error .openQuote
  | _ + 1, acc, [] =>
    match ending with
    | .word => .ok (acc.reverse, [])
    | .quote => .error .openQuote
    | .brace => .error .openBrace
  | n + 1, acc, c :: cs =>
    let goOn (p : Part) := readParts quoted ending n (p :: acc)
    if c = '"' then
      if ending = .quote then .ok (acc.reverse, cs)
      else do
        let (inside, rest) ← readParts true .quote n [.text "" true] cs
        readParts quoted ending n (inside.reverse ++ acc) rest
    else if c = '\'' && !quoted then
      let body := cs.takeWhile (· ≠ '\'')
      match cs.drop body.length with
      | _ :: rest => goOn (.text (ofList body) true) rest
      | [] => .error .openQuote
    else if c = '\\' then
      match cs with
      | [] => goOn (literal '\\' quoted) []
      | d :: rest =>
        if d = '\n' then readParts quoted ending n acc rest
        else if !quoted || d = '$' || d = '"' || d = '\\' || d = '\x60' ||
            (d = '\x7d' && ending = .brace) then
          goOn (literal d true) rest
        else goOn (.text (ofList ['\\', d]) true) rest
    else if c = '$' then
      match cs with
      | '\x7b' :: rest =>
        let (name, form, rest) := readBraced rest
        do
          let (word, rest) ← readParts quoted .brace n [] rest
          goOn (.value name form word quoted) rest
      | '(' :: rest =>
        match readParenthesized 0 none [] rest with
        | some (line, rest) => goOn (.output (ofList line) quoted) rest
        | none => .error (.unexpected "end of file" (some "\")\""))
      | _ =>
        match readName cs with
        | some (name, rest) => goOn (.value name .plain [] quoted) rest
        | none => goOn (literal '$' quoted) cs
    else if c = '\x60' then
      match readBackquoted quoted [] cs with
      | some (line, rest) => goOn (.output (ofList line) quoted) rest
      | none => .error .openBackquote
    else if c = '\x7d' && ending = .brace then .ok (acc.reverse, cs)
    else if endsWord c && ending = .word then .ok (acc.reverse, c :: cs)
    else goOn (literal c quoted) cs

def readWord (cs : List Char) : Except Problem (Word × List Char) :=
  match cs with
  | '~' :: rest =>
    if (rest.head?.map fun c => c = '/' || endsWord c).getD true then
      readParts false .word (cs.length + 1) [.home] rest
    else readParts false .word (cs.length + 1) [] cs
  | cs => readParts false .word (cs.length + 1) [] cs

def plainText? : Word → Option String
  | [] => some ""
  | .text s false :: rest => (plainText? rest).map (s ++ ·)
  | _ :: _ => none

/-! ## Pieces of a command line -/

/-- The kinds of arrows. -/
inductive Arrow where
  | from_
  | to
  | append
  /-- The stream becomes a copy of another. -/
  | copy
  deriving DecidableEq, Repr

/-- A piece of a command line. -/
inductive Token where
  | word (w : Word)
  /-- What joins or groups commands. -/
  | operator (text : String)
  | arrow (stream : Nat) (kind : Arrow)

/-- The arrows, each with the stream that it is for if none is written in front of it. -/
def arrows : List (String × Nat × Arrow) :=
  [(">>", 1, .append), (">&", 1, .copy), (">|", 1, .to), (">", 1, .to), ("<&", 0, .copy),
    ("<", 0, .from_)]

def operators : List String := ["\n", ";;", ";", "&&", "&", "||", "|", "(", ")"]

def readOperator? (cs : List Char) : Option (Token × List Char) :=
  front? (operators.map fun o => (o, .operator o)) cs

def readRedirect? : List Char → Option (Token × List Char)
  | [] => none
  | c :: cs =>
    if c.isDigit then (front? arrows cs).map fun (a, rest) => (.arrow (c.toNat - 48) a.2, rest)
    else (front? arrows (c :: cs)).map fun (a, rest) => (.arrow a.1 a.2, rest)

def tokensFrom : Nat → List Char → Except Problem (List Token)
  | 0, _ => .ok []
  | _ + 1, [] => .ok []
  | n + 1, c :: cs =>
    if c = ' ' || c = '\t' then tokensFrom n cs
    else if c = '#' then tokensFrom n (cs.dropWhile (· ≠ '\n'))
    else
      match (readOperator? (c :: cs)).or (readRedirect? (c :: cs)) with
      | some (t, rest) => do return t :: (← tokensFrom n rest)
      | none => do
        let (w, rest) ← readWord (c :: cs)
        return .word w :: (← tokensFrom n rest)

def tokens (line : String) : Except Problem (List Token) :=
  tokensFrom (line.length + 1) line.toList

def reservedWords : List String :=
  ["!", "case", "do", "done", "elif", "else", "esac", "fi", "for", "if", "in", "then", "until",
    "while", "\x7b", "\x7d"]

def Token.reserved? : Token → Option String
  | .word w => (plainText? w).filter reservedWords.contains
  | _ => none

def nameFront : List Token → String
  | [] => "end of file"
  | .operator o :: _ => if o = "\n" then "newline" else "\"" ++ o ++ "\""
  | .arrow _ _ :: _ => "redirection"
  | t :: _ =>
    match t.reserved? with
    | some w => "\"" ++ w ++ "\""
    | none => "word"

/-!
## Commands of the shell

A line is a list of steps.  A step is a pipeline of commands, and says how it is joined to the step
before.  A command is a simple one, or groups steps: in braces or parentheses, behind a condition,
or in a loop.
-/

/-- A redirection of a stream. -/
structure Redirection where
  stream : Nat
  kind : Arrow
  target : Word

/-- How a step is joined to the one before it. -/
inductive Joiner where
  | always
  | onSuccess
  | onFailure
  deriving DecidableEq, Repr

mutual

/-- A command. -/
inductive Command where
  | simple (words : List Word)
  | group (isolated : Bool) (body : List Step)
  | branch (condition body otherwise : List Step)
  /-- A loop that goes on while its condition holds or, with `negated`, while it does not. -/
  | loop (negated : Bool) (condition body : List Step)
  | each (name : String) (words : List Word) (body : List Step)
  /-- A command with the redirections that are written with it. -/
  | redirected (redirections : List Redirection) (c : Command)

/-- A pipeline, and how it is joined to the one before it. -/
inductive Step where
  | step (joiner : Joiner) (negated : Bool) (commands : List Command)

end

/-- Computations that read a part of a line; the state is what is left of it. -/
abbrev LineM := StateT (List Token) (Except Problem)

def refuse {α : Type} (expected : Option String) : LineM α := do
  throw (.unexpected (nameFront (← get)) (expected.map fun e => "\"" ++ e ++ "\""))

def skip : LineM Unit :=
  modify (·.drop 1)

def dropNewlines : List Token → List Token
  | .operator "\n" :: ts => dropNewlines ts
  | ts => ts

def skipNewlines : LineM Unit :=
  modify dropNewlines

def reservedFront : LineM (Option String) := do
  return (← get).head?.bind Token.reserved?

def operatorFront : LineM (Option String) := do
  match ← get with
  | .operator o :: _ => return some o
  | _ => return none

def expectWord (word : String) : LineM Unit := do
  skipNewlines
  if (← reservedFront) = some word then skip else refuse (some word)

def endsSteps : LineM Bool := do
  match ← get with
  | [] | .operator ")" :: _ | .operator ";;" :: _ => return true
  | _ =>
    match ← reservedFront with
    | some w => return ["do", "done", "elif", "else", "esac", "fi", "then", "\x7d"].contains w
    | none => return false

/-- Splits off the words and redirections at the front of a line; `none` if an arrow lacks its
target, with what stands in its place. -/
def splitSimple : List Token → Except (List Token) (List Word × List Redirection × List Token)
  | .arrow s k :: .word w :: ts => do
    let (ws, rs, rest) ← splitSimple ts
    return (ws, ⟨s, k, w⟩ :: rs, rest)
  | .arrow _ _ :: ts => .error ts
  | .word w :: ts => do
    let (ws, rs, rest) ← splitSimple ts
    return (w :: ws, rs, rest)
  | ts => .ok ([], [], ts)

def readSimple : LineM (List Word × List Redirection) := do
  match splitSimple (← get) with
  | .ok (ws, rs, rest) =>
    set rest
    return (ws, rs)
  | .error rest =>
    set rest
    refuse none

def Command.redirect (c : Command) (rs : List Redirection) : Command :=
  if rs.isEmpty then c else .redirected rs c

def readRedirections (c : Command) : LineM Command := do
  match ← get with
  | .arrow _ _ :: _ =>
    let (words, rs) ← readSimple
    match words with
    | [] => return c.redirect rs
    | w :: _ =>
      modify (.word w :: ·)
      refuse none
  | _ => return c

def readLoopWords : LineM (List Word) := do
  let words := (← get).takeWhile fun t => match t with | .word _ => true | _ => false
  modify (·.drop words.length)
  match ← operatorFront with
  | some ";" | some "\n" =>
    skip
    return words.filterMap fun t => match t with | .word w => some w | _ => none
  | _ => refuse none

def readLoopHead : LineM (String × List Word) := do
  match ← get with
  | .word w :: rest =>
    match (plainText? w).filter (isName ·.toList) with
    | none => throw .loopVariable
    | some name =>
      set (dropNewlines rest)
      if (← reservedFront) = some "in" then
        skip
        return (name, ← readLoopWords)
      if (← operatorFront) = some ";" then skip
      return (name, [])
  | _ => throw .loopVariable

mutual

/-- Reads steps; `isTop` says that they have to go on to the end of the line. -/
def readSteps (isTop : Bool) : Nat → Joiner → LineM (List Step)
  | 0, _ => refuse none
  | n + 1, joiner => do
    skipNewlines
    let step ← readPipeline n joiner
    match ← operatorFront with
    | some "&&" =>
      skip
      return step :: (← readSteps isTop n .onSuccess)
    | some "||" =>
      skip
      return step :: (← readSteps isTop n .onFailure)
    | some ";" | some "&" | some "\n" =>
      skip
      skipNewlines
      if (← get).isEmpty then return [step]
      if !isTop then
        if ← endsSteps then return [step]
      return step :: (← readSteps isTop n .always)
    | _ => if isTop && !(← get).isEmpty then refuse none else return [step]

def readPipeline : Nat → Joiner → LineM Step
  | 0, _ => refuse none
  | n + 1, joiner => do
    let negated := (← reservedFront) = some "!"
    if negated then skip
    return .step joiner negated (← readCommands n)

def readCommands : Nat → LineM (List Command)
  | 0 => refuse none
  | n + 1 => do
    let c ← readCommand n
    if (← operatorFront) = some "|" then
      skip
      skipNewlines
      return c :: (← readCommands n)
    else return [c]

def readCommand : Nat → LineM Command
  | 0 => refuse none
  | n + 1 => do
    match ← get, ← reservedFront with
    | [], _ => refuse none
    | .operator "(" :: rest, _ =>
      set rest
      let body ← readSteps false n .always
      skipNewlines
      if (← operatorFront) = some ")" then skip else refuse (some ")")
      readRedirections (.group true body)
    | .operator _ :: _, _ => refuse none
    | _, none =>
      let (words, rs) ← readSimple
      return (Command.simple words).redirect rs
    | _, some "\x7b" =>
      skip
      let body ← readSteps false n .always
      expectWord "\x7d"
      readRedirections (.group false body)
    | _, some "if" =>
      skip
      let c ← readBranch n
      expectWord "fi"
      readRedirections c
    | _, some "for" =>
      skip
      let (name, words) ← readLoopHead
      expectWord "do"
      let body ← readSteps false n .always
      expectWord "done"
      readRedirections (.each name words body)
    | _, some w =>
      if w ≠ "while" && w ≠ "until" then refuse none
      skip
      let condition ← readSteps false n .always
      expectWord "do"
      let body ← readSteps false n .always
      expectWord "done"
      readRedirections (.loop (w = "until") condition body)

def readBranch : Nat → LineM Command
  | 0 => refuse none
  | n + 1 => do
    let condition ← readSteps false n .always
    expectWord "then"
    let body ← readSteps false n .always
    skipNewlines
    match ← reservedFront with
    | some "elif" =>
      skip
      return .branch condition body [.step .always false [← readBranch n]]
    | some "else" =>
      skip
      return .branch condition body (← readSteps false n .always)
    | _ => return .branch condition body []

end

def stepsOf (line : String) : Except Problem (List Step) := do
  let ts := dropNewlines (← tokens line)
  if ts.isEmpty then return []
  (readSteps true (6 * ts.length + 6) .always).run' ts

end Buildsmith.Shell
