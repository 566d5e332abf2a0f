import Buildsmith.Data.Value

/-!
# Definitions in C++ headers

A documented definition is a class, an enumeration, a namespace, a function or a variable.  What it
is shows in its first words; where it ends depends on what it is.
-/

namespace Buildsmith.Header

open Text

abbrev Result := Except Data.Fault

def specifiers : List String :=
  ["static", "extern", "inline", "const", "volatile", "mutable", "__attribute__", "__restrict",
    "virtual", "override", "final"]

def isSpecifier (word : String) : Bool :=
  (startsWith word "__" && endsWith word "__") || specifiers.contains word

def closing : Char → Char
  | '(' => ')'
  | '<' => '>'
  | '\x7b' => '\x7d'
  | c => c

def positionOf (whole part : List Char) : Nat :=
  ((splitFirst part whole).map fun (before, _) => before.length).getD 0

/-- Walks behind the type of a declaration, that is, to the first space outside brackets. -/
def nameStartFrom (whole line : List Char) (base : Nat) :
    List Char → Option Char → List Char → Result Nat
  | _, _, [] => .ok base
  | brackets, last, c :: cs =>
    if c = ' ' && brackets.isEmpty then
      let start := if last = some ')' || last = some '\x7b' then base else positionOf whole cs
      match whole[start]? with
      | none => .error .textRange
      | some d => .ok (if d = '*' || d = '&' then start + 1 else start)
    else if c = '(' || c = '<' then nameStartFrom whole line base (c :: brackets) (some c) cs
    else if c = ')' || c = '>' then
      match brackets with
      | [] => .error .listRange
      | b :: bs =>
        if closing b = c then nameStartFrom whole line base bs (some c) cs
        else
          .error (.rejected ("find_func_name_start error: " ++ String.ofList line ++
            " not a valid supported function"))
    else nameStartFrom whole line base brackets (some c) cs

def nameStart (first : String) : Result Nat :=
  let line := match (splitOn first " ").dropWhile isSpecifier with
    | [] => first.toList
    | words => (String.intercalate " " words).toList
  nameStartFrom first.toList line (positionOf first.toList line) [] none line

/-- The kinds of definitions. -/
inductive DefinitionKind where
  | classLike
  | enumeration
  | space
  | function
  | value
  deriving DecidableEq, Repr

def DefinitionKind.name : DefinitionKind → String
  | classLike => "class"
  | enumeration => "enum"
  | space => "module"
  | function => "func"
  | value => "var"

/-- A definition: its kind, its text, and where it was found if that is kept. -/
structure Definition where
  kind : DefinitionKind
  text : String
  start : Int
  stop : Int
  deriving Repr

def offset (s part : String) : Int :=
  match find? s part with
  | some n => n
  | none => -1

def firstLine (s : String) : String :=
  String.ofList (s.toList.takeWhile (· ≠ '\n'))

/-- The position behind the bracket that closes an enumeration: it stands first in its line, and not
in a comment. -/
def enumerationEnd : Bool → List String → Nat
  | _, [] => 0
  | false, line :: rest =>
    if startsWith (trim line) "\x7d" then (find? line "\x7d").getD 0 + 1
    else
      let opens := contains line "/*" && !contains line "*/"
      line.length + 1 + enumerationEnd opens rest
  | true, line :: rest =>
    line.length + 1 + enumerationEnd (!contains line "*/") rest

/-- The position of the first closing parenthesis that is followed, behind blanks, by a mark. -/
def closeBefore? (mark : Char) : List Char → Option Nat
  | [] => none
  | c :: cs =>
    if c = ')' && (cs.dropWhile isBlank).head? = some mark then some 0
    else (closeBefore? mark cs).map (· + 1)

def notADeclaration (code : String) : Data.Fault :=
  .rejected ("get_func_def error: " ++ code ++ " not a function or var")

/-- Where a function declaration ends: at a semicolon, or behind the parenthesis in front of its
body or its initialisers. -/
def functionEnd (code : String) : Result Int :=
  let semicolon := offset code ";"
  let behind (mark : Char) : Option Int := (closeBefore? mark code.toList).map (· + 1)
  let body : Int := match behind '\x7b', behind ':' with
    | some a, some b => min a b
    | some a, none => a
    | none, some b => b
    | none, none => -1
  if semicolon > 0 && body > 0 then .ok (min semicolon body)
  else if semicolon < 0 && body < 0 then .error (notADeclaration code)
  else .ok (max semicolon body)

/-- A function declaration without its end and, if it is virtual, without what is assigned to it. -/
def functionText (code : String) : Result String := do
  let text := trim (slice code 0 (← functionEnd code))
  if !contains text "virtual" then return text
  match cutLast? text "=" with
  | some (before, _) => return if before.isEmpty then text else trim before
  | none => return text

def declarationOf (code : String) : Result Definition := do
  let first := firstLine code
  let i ← nameStart first
  let word := ((splitOn (trim (dropFirst i first)) " ").head?).getD ""
  if contains first "operator" || contains word "(" then
    let text ← functionText code
    return { kind := .function, text := trim text, start := 0, stop := 0 }
  else
    match cut? code ";" with
    | none => throw (notADeclaration code)
    | some (text, _) => return { kind := .value, text := trim text, start := 0, stop := 0 }

def definitionOf (code : String) : Result Definition := do
  let cs := code.toList
  let lead := (cs.takeWhile fun c => c = ' ' || c = '\t' || c = '\n').length
  if lead = cs.length then throw .textRange
  let slashes := if ['/', '/'].isPrefixOf (cs.drop lead) then 2 else 0
  let behind := cs.drop (lead + slashes)
  let gap := (behind.takeWhile fun c => c = ' ' || c = '\t').length
  if gap = behind.length then throw .textRange
  let start : Int := lead + slashes + gap
  let code := String.ofList (behind.drop gap)
  let brace := offset code "\x7b"
  if startsWith code "class" || startsWith code "struct" then
    return { kind := .classLike, text := trim (slice code 0 brace), start
             stop := brace + start }
  else if startsWith code "enum" then
    let stop := enumerationEnd false (splitOn code "\n")
    return { kind := .enumeration, text := trim (takeFirst stop code), start
             stop := stop + start }
  else if startsWith code "namespace" then
    return { kind := .space, text := trim (slice code 0 (brace + start)), start
             stop := brace + start }
  else declarationOf code

def kindColor (kind : String) : String :=
  let number := match kind with
    | "class" => "32"
    | "enum" => "33"
    | "func" => "34"
    | "var" => "35"
    | "module" => "36"
    | _ => "37"
  "\x1b[1;" ++ number ++ "m"

def definitionLine (kind text : String) : String :=
  kindColor kind ++ kind ++ "\x1b[0m: " ++ text

/-! ## Enumerators -/

/-- An enumerator with its value and the comment on it. -/
structure Enumerator where
  name : String
  value : String
  comment : String
  deriving DecidableEq, Repr

def dropStars (s : String) : String :=
  String.ofList (s.toList.dropWhile (· = '*'))

def dropEndStars (s : String) : String :=
  String.ofList (dropEndWhile (· = '*') s.toList)

/-- An enumerator before its value is split off, with the comment on it. -/
inductive EnumeratorLine where
  | finished (declared comment : String)
  /-- The comment goes on in the next line. -/
  | open_ (declared comment : String)

def readRemark (declared remark : String) : EnumeratorLine :=
  let remark := trim remark
  if startsWith remark "/*" then
    match cut? remark "*/" with
    | none => .open_ declared (trim (dropStars (dropFirst 2 remark)))
    | some (body, _) =>
      .finished declared (trim (dropEndStars (dropStars (dropFirst 2 body))))
  else if startsWith remark "//" then
    .finished declared (trim (String.ofList (remark.toList.dropWhile (· = '/'))))
  else .finished declared remark

def cutBefore? (s mark : String) : Option (String × String) :=
  match find? s mark with
  | some (n + 1) => some (takeFirst (n + 1) s, dropFirst (n + 1) s)
  | _ => none

def readEnumeratorLine (line : String) : EnumeratorLine :=
  let (declared, remark) := (cut? line ",").getD (line, "")
  if !remark.isEmpty then readRemark declared remark
  else
    match cutBefore? declared "/*" with
    | some (a, b) => readRemark (trim a) b
    | none =>
      match cutBefore? declared "//" with
      | some (a, b) => readRemark a b
      | none => .finished declared ""

def enumeratorOf (declared comment : String) : Enumerator :=
  match cut? declared "=" with
  | some (name, value) => { name := trim name, value := trim value, comment }
  | none => { name := trim declared, value := "", comment }

def readEnumerators : Option (String × String) → List String → List Enumerator
  | _, [] => []
  | pending, line :: rest =>
    let line := trim line
    if line.isEmpty || startsWith line "//" then readEnumerators pending rest
    else
      match pending with
      | none =>
        match readEnumeratorLine line with
        | .finished declared comment => enumeratorOf declared comment :: readEnumerators none rest
        | .open_ declared comment => readEnumerators (some (declared, comment)) rest
      | some (declared, comment) =>
        if contains line "*/" then
          enumeratorOf declared (comment ++ dropEndStars (slice line 0 (-2))) ::
            readEnumerators none rest
        else readEnumerators (some (declared, comment ++ "\n" ++ dropEndStars line)) rest

def enumeratorsOf (definition : String) : List Enumerator :=
  let behind := ((cutLast? definition "\x7b").map Prod.snd).getD definition
  let inside := ((cutLast? behind "\x7d").map Prod.fst).getD behind
  readEnumerators none (splitOn inside "\n")

/-! ## Functions and variables -/

/-- A parameter of a function. -/
structure Parameter where
  type : String
  name : String
  value : Option String
  deriving DecidableEq, Repr

def moveMark (mark : String) (type name : String) : Option (String × String) :=
  (cutLast? name mark).map fun (before, after) =>
    (type ++ " " ++ before ++ mark, trim after)

def Parameter.parse (s : String) : Result Parameter := do
  let s := trim s
  let (declared, value) := match cut? s "=" with
    | some (a, b) => (trim a, some (trim b))
    | none => (s, none)
  if trim declared = "..." then return { type := "...", name := "...", value }
  match cutLast? declared " " with
  | none => throw (.tooFew 2 1)
  | some (type, name) =>
    let (type, name) := ((moveMark "*" type name).or (moveMark "&" type name)).getD (type, name)
    return { type, name, value }

/-- Parts the parameters of a function: `brackets` are open, and `word` is the parameter read so
far, reversed. -/
def splitParameters : List Char → List Char → List Char → List String
  | _, word, [] => if word.isEmpty then [] else [String.ofList word.reverse]
  | [], word, c :: cs =>
    if c = '<' || c = '\x7b' then splitParameters [c] (c :: word) cs
    else if c = ',' then String.ofList word.reverse :: splitParameters [] [] cs
    else splitParameters [] (c :: word) cs
  | b :: bs, word, c :: cs =>
    if c = '<' || c = '\x7b' then splitParameters (c :: b :: bs) (c :: word) cs
    else if c = closing b then splitParameters bs (c :: word) cs
    else splitParameters (b :: bs) (c :: word) cs

/-- The signature of a function. -/
structure Signature where
  name : String
  parameters : List Parameter
  returns : String
  deriving DecidableEq, Repr

def dropLinkage (type : String) : Result String :=
  if ["static", "extern", "inline"].any (startsWith type ·) then
    match cut? type " " with
    | some (_, rest) => .ok (trim rest)
    | none => .error .listRange
  else .ok type

def nameAndType (name type : String) : Result (String × String) :=
  match name.toList with
  | [] => .error .textRange
  | c :: cs =>
    if c = '*' || c = '&' then
      match cs with
      | [] => .error .textRange
      | d :: _ => .ok (String.ofList cs, type ++ " " ++ String.ofList [d])
    else .ok (name, type)

def Signature.parse (code : String) : Result Signature := do
  let i ← nameStart (firstLine code)
  let paren := offset (dropFirst i code) "(" + i
  let (name, type) ← nameAndType (trim (slice code i paren))
    (trim (takeFirst i code))
  let returns ← dropLinkage type
  let inside := trim (slice code (paren + 1) (-1))
  let parameters ← (splitParameters [] [] (replace inside "\n" " ").toList).mapM
    Parameter.parse
  return { name, parameters, returns }

def isQualifier (word : String) : Bool :=
  ["const", "static", "volatile", "mutable", "__attribute__", "__restrict", "extern"].any
    (startsWith word ·)

def variableParts (definition : String) : Result (String × Option String) := do
  let (declared, value) := match cutLast? definition "=" with
    | some (a, b) => (a, some (trim b))
    | none =>
      match cutLast? definition "\x7b" with
      | some (a, b) => (a, some ("\x7b" ++ trim b))
      | none =>
        match cutLast? definition ";" with
        | some (a, _) => (a, none)
        | none => (trim definition, none)
  match ((words declared).filter (!isQualifier ·)).getLast? with
  | none => throw .listRange
  | some name =>
    let mark := if startsWith name "&" then "&" else "*"
    let bare :=
      if startsWith name "&" || startsWith name "*" then
        ((cutLast? name mark).map Prod.snd).getD name
      else name
    return (bare, value)

end Buildsmith.Header
