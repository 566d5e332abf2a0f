import Buildsmith.Kconfig.Expansion

/-!
# From lines to tokens

The first word of a line is a keyword, or else the line assigns a preprocessor variable.  Behind a
keyword come names, texts in quotes and operators.

A bare word is a symbol, except behind keywords that take a text.  A text in quotes is a constant
symbol, except behind those keywords and on option lines.  Text without dollar signs and
backslashes is read by `readPlainText`; otherwise `readQuotedText` expands calls and escapes.
-/

namespace Buildsmith.Kconfig

open Text

def isCommandChar (c : Char) : Bool :=
  c.isAlphanum || c = '_' || c = '$' || c = '-'

def isNameChar (c : Char) : Bool :=
  isCommandChar c || c = '/' || c = '.'

def isVariableChar (c : Char) : Bool :=
  c.isAlphanum || c = '_' || c = '-'

/-- Reads a name with calls in it, up to a character that is no part of it; `acc` holds the name so
far, reversed. -/
def readExpandedName (isPart : Char → Bool) :
    Nat → List Char → List Char → ReadM (List Char × List Char)
  | 0, acc, cs => return (acc.reverse, cs)
  | _ + 1, acc, [] => return (acc.reverse, [])
  | fuel + 1, acc, '$' :: '(' :: cs => do
    let (value, rest) ← expandOne cs
    readExpandedName isPart fuel (value.toList.reverse ++ acc) rest
  | fuel + 1, acc, c :: cs =>
    if isPart c then readExpandedName isPart fuel (c :: acc) cs else return (acc.reverse, c :: cs)

/-- How a variable is assigned. -/
inductive Assignment where
  | recursive
  | immediate
  | append
  deriving DecidableEq, Repr

def readAssignment? (cs : List Char) : Option (Assignment × String) :=
  let value (rest : List Char) : String :=
    String.ofList ((rest.dropWhile isAsciiBlank).takeWhile (· ≠ '\n'))
  match cs.dropWhile isAsciiBlank with
  | '=' :: rest => some (.recursive, value rest)
  | ':' :: '=' :: rest => some (.immediate, value rest)
  | '+' :: '=' :: rest => some (.append, value rest)
  | _ => none

def assign (s : String) : ReadM Unit := do
  let cs := s.toList.dropWhile isBlank
  let (lhs, rest) ← readExpandedName isVariableChar (cs.length + 1) [] cs
  if isAllBlank (String.ofList (lhs ++ rest)) then return ()
  let name := String.ofList lhs
  match readAssignment? rest with
  | none => fail .badAssignment
  | some (op, value) =>
    let known := ((← get).findVariable? name).isSome
    unless known do modify fun r => { r with definitions := r.definitions ++ [{ name }] }
    match if known then op else (if op = .append then .recursive else op) with
    | .recursive =>
      modify (·.modifyVariable name fun v => { v with isRecursive := true, value := some value })
    | .immediate =>
      modify (·.modifyVariable name fun v => { v with isRecursive := false })
      let expanded ← expandWhole value
      modify (·.modifyVariable name fun v => { v with value := some expanded })
    | .append =>
      let isRecursive := (((← get).findVariable? name).map Variable.isRecursive).getD true
      let more ← if isRecursive then pure value else expandWhole value
      modify (·.modifyVariable name fun v => { v with value := some (v.value.getD "" ++ " " ++ more) })

def readPlainText (quote : Char) (cs : List Char) : Option (List Char × List Char) :=
  splitFirst [quote] cs

/-- Reads a text with calls and escapes up to its closing quote; `acc` is reversed. -/
def readQuotedText (quote : Char) : Nat → List Char → List Char → ReadM (List Char × List Char)
  | 0, _, _ => fail .unterminatedString
  | _ + 1, _, [] => fail .unterminatedString
  | fuel + 1, acc, '\\' :: cs =>
    match cs with
    | [] => fail .unterminatedString
    | c :: rest => readQuotedText quote fuel (c :: acc) rest
  | fuel + 1, acc, '$' :: '(' :: cs => do
    let (value, rest) ← expandOne cs
    readQuotedText quote fuel (value.toList.reverse ++ acc) rest
  | fuel + 1, acc, c :: cs =>
    if c = quote then return (acc.reverse, cs) else readQuotedText quote fuel (c :: acc) cs

/-- Replaces the release of the kernel and environment variables in a text. -/
def expandEnvironment (w : Workspace) (s : String) : String :=
  expandVariables w.getEnv? (replace s "$UNAME_RELEASE" w.kernelRelease)

def readText (quote : Char) (cs : List Char) : ReadM (String × List Char) := do
  if cs.contains '$' || cs.contains '\\' then
    let (body, rest) ← readQuotedText quote (cs.length + 1) [] cs
    return (expandEnvironment (← get).workspace (String.ofList body), rest)
  else
    match readPlainText quote cs with
    | some (body, rest) => return (String.ofList body, rest)
    | none => fail .unterminatedString

def readOperator? : List Char → Option (Token × List Char)
  | '&' :: '&' :: cs => some (.and, cs)
  | '|' :: '|' :: cs => some (.or, cs)
  | '=' :: cs => some (.relation .equal, cs)
  | '!' :: '=' :: cs => some (.relation .unequal, cs)
  | '!' :: cs => some (.not, cs)
  | '(' :: cs => some (.open, cs)
  | ')' :: cs => some (.close, cs)
  | '<' :: '=' :: cs => some (.relation .lessEqual, cs)
  | '<' :: cs => some (.relation .less, cs)
  | '>' :: '=' :: cs => some (.relation .greaterEqual, cs)
  | '>' :: cs => some (.relation .greater, cs)
  | _ => none

def namedSymbol (name : String) : ReadM SymbolId :=
  match Tristate.ofLetter? name with
  | some .no => return SymbolId.no
  | some .mod => return SymbolId.mod
  | some .yes => return SymbolId.yes
  | none => lookup false name

def readBareWord (previous : Token) (cs : List Char) : ReadM (Token × List Char) := do
  let word := cs.takeWhile isNameChar
  let after := (cs.drop word.length).dropWhile isAsciiBlank
  let name := String.ofList word
  match Keyword.ofWord? name with
  | some k => return (.keyword k, after)
  | none =>
    if !previous.takesText then
      if word.contains '$' then
        let (chars, rest) ← readExpandedName isNameChar (cs.length + 1) [] cs
        let expanded := String.ofList chars
        if (trim expanded).isEmpty then fail .blankName
        return (.symbol (← namedSymbol expanded), rest.dropWhile isBlank)
      else return (.symbol (← namedSymbol name), after)
    else
      if previous ≠ .keyword .choice then
        warnHere ("style: quotes recommended around '" ++ name ++ "' in '" ++
          trim (← get).text ++ "'")
      return (.text name, after)

/-- Reads the tokens behind the first one, given that one and the one before the text. -/
def readTokens (first : Token) : Nat → Token → List Char → ReadM (List Token)
  | 0, _, _ => return []
  | _ + 1, _, [] => return []
  | fuel + 1, previous, c :: cs => do
    if isNameChar c then
      let (token, rest) ← readBareWord previous (c :: cs)
      return token :: (← readTokens first fuel token rest)
    else if c = '"' || c = '\'' then
      let (value, rest) ← readText c cs
      let token ←
        if previous.takesText || first = .keyword .option then pure (Token.text value)
        else pure (Token.symbol (← lookup true value))
      return token :: (← readTokens first fuel token (rest.dropWhile isBlank))
    else if c = '#' then return []
    else
      match readOperator? (c :: cs) with
      | some (token, rest) =>
        return token :: (← readTokens first fuel token (rest.dropWhile isBlank))
      | none => fail .unknownTokens

def tokenize (s : String) : ReadM (List Token) := do
  modify fun r => { r with text := s }
  let cs := s.toList.dropWhile isAsciiBlank
  let word := cs.takeWhile isCommandChar
  if word.isEmpty then
    if isAllBlank s || startsWith (trimStart s) "#" then return []
    else fail .unknownStart
  else
    match Keyword.ofWord? (String.ofList word) with
    | some k =>
      let first := Token.keyword k
      let rest := (cs.drop word.length).dropWhile isAsciiBlank
      return first :: (← readTokens first (rest.length + 1) first rest)
    | none =>
      let bare := trimWhere (fun c => c = ' ' || c = '\t' || c = '\n' || c = '-') s
      if bare = "help" then return [.keyword .help]
      else
        assign s
        return []

end Buildsmith.Kconfig
