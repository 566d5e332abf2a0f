import Buildsmith.Text.Literal
import Buildsmith.Text.Pattern.Match

/-!
# Reading patterns

Patterns are read from left to right with one token of foresight; a backslash and the character
behind it are one token.  A fault is found as soon as the token that shows it comes into sight.
-/

namespace Buildsmith.Text.Pattern

open String Char

/-- What can be wrong with a pattern. -/
inductive PatternFault where
  | malformed (message : String)
  | repeatTooLarge
  /-- The whole pattern is to have two alphabets. -/
  | alphabetConflict
  deriving DecidableEq, Repr

def PatternFault.message : PatternFault → String
  | malformed message => message
  | repeatTooLarge => "the repetition number is too large"
  | alphabetConflict => "ASCII and UNICODE flags are incompatible"

/-- The state of reading. -/
structure Cursor where
  rest : List Char
  /-- The number that the next group gets. -/
  nextGroup : Nat := 1
  /-- The lengths that finished groups can have. -/
  widths : List (Nat × Nat × Option Nat) := []
  names : List (String × Nat) := []
  /-- Inside a look behind a position, the number of the first group in it. -/
  behind : Option Nat := none
  /-- Groups that conditions refer to. -/
  conditions : List Nat := []
  flags : Flags := {}
  /-- The letters of the flags that were turned on for the whole pattern. -/
  turnedOn : List Char := []

abbrev PatternM := StateT Cursor (Except PatternFault)

def refuse {α : Type} (message : String) : PatternM α :=
  throw (.malformed message)

def unterminated {α : Type} (what : String) : PatternM α :=
  refuse ("unterminated " ++ what)

def missing {α : Type} (what : String) : PatternM α :=
  refuse ("missing " ++ what)

def badFlags {α : Type} (what : String) : PatternM α :=
  refuse ("bad inline flags: " ++ what)

def endsTooSoon {α : Type} : PatternM α :=
  refuse "unexpected end of pattern"

def peek : PatternM (Option String) := do
  match (← get).rest with
  | [] => return none
  | ['\\'] => refuse "bad escape (end of pattern)"
  | '\\' :: c :: _ => return some (ofList ['\\', c])
  | c :: _ => return some (ofList [c])

def take : PatternM (Option String) := do
  let t ← peek
  match t with
  | none => return none
  | some s =>
    modify fun st => { st with rest := st.rest.drop s.length }
    discard peek
    return some s

def takeIf (s : String) : PatternM Bool := do
  if (← peek) = some s then
    discard take
    return true
  else return false

def takeWhileClass (p : Char → Bool) : Nat → PatternM String
  | 0 => return ""
  | n + 1 => do
    match (← get).rest with
    | c :: _ =>
      if p c then
        discard take
        return ofList [c] ++ (← takeWhileClass p n)
      else return ""
    | [] => return ""

def isHexDigit (c : Char) : Bool :=
  c.isDigit || ('a' ≤ c && c ≤ 'f') || ('A' ≤ c && c ≤ 'F')

def isOctalDigit (c : Char) : Bool :=
  '0' ≤ c && c ≤ '7'

def numberIn (base : Nat) (s : String) : Nat :=
  s.toList.foldl (fun v c => v * base + (digitValue? c).getD 0) 0

def category? (c : Char) : Option Member :=
  let category : Option Category := match c.toLower with
    | 'd' => some .digit
    | 's' => some .blank
    | 'w' => some .word
    | _ => none
  category.map (.category · c.isUpper)

def control? (c : Char) : Option Char :=
  match c with
  | 'a' => some (ofNat 7)
  | 'b' => some (ofNat 8)
  | 'f' => some (ofNat 12)
  | 'n' => some '\n'
  | 'r' => some '\r'
  | 't' => some '\t'
  | 'v' => some (ofNat 11)
  | '\\' => some '\\'
  | _ => none

def anchor? (c : Char) : Option Anchor :=
  match c with
  | 'A' => some .textStart
  | 'Z' => some .textEnd
  | 'b' => some .boundary
  | 'B' => some .noBoundary
  | _ => none

def readHex (written : String) (digits : Nat) : PatternM Nat := do
  let more ← takeWhileClass isHexDigit digits
  if more.length ≠ digits then refuse ("incomplete escape " ++ written ++ more)
  let code := numberIn 16 more
  if code > 0x10FFFF then refuse ("bad escape " ++ written ++ more)
  return code

def octalCode (digits : String) : PatternM Nat := do
  let n := numberIn 8 digits
  if n > 0xFF then refuse ("octal escape value \\" ++ digits ++ " outside of range 0-0o377")
  return n

def readSetEscape (c : Char) : PatternM Member := do
  let written := ofList ['\\', c]
  if let some x := control? c then return .char x.toNat
  if let some m := category? c then return m
  if c = 'x' then return .char (← readHex written 2)
  if c = 'u' then return .char (← readHex written 4)
  if c = 'U' then return .char (← readHex written 8)
  if isOctalDigit c then
    return .char (← octalCode (ofList [c] ++ (← takeWhileClass isOctalDigit 2)))
  if c = 'N' then missing "\x7b"
  if c.isAlphanum then refuse ("bad escape " ++ written)
  return .char c.toNat

def referTo (index : Nat) : PatternM Node := do
  let st ← get
  match st.widths.lookup index with
  | none => refuse "cannot refer to an open group"
  | some (least, most) =>
    if st.behind.any (· ≤ index) then
      refuse "cannot refer to group defined in the same lookbehind subpattern"
    return .backReference index least most

def invalidReference {α : Type} (index : Nat) : PatternM α :=
  refuse ("invalid group reference " ++ Integer.natText index)

/-- The pattern for the character with a code; no text holds a code that stands for none. -/
def Node.ofCode (code : Nat) : Node :=
  if code.isValidChar then .char (ofNat code) else .oneOf false [.char code]

def readEscape (c : Char) : PatternM Node := do
  let written := ofList ['\\', c]
  if let some a := anchor? c then return .anchor a
  if let some m := category? c then return .oneOf false [m]
  if let some x := control? c then return .char x
  if c = 'x' then return .ofCode (← readHex written 2)
  if c = 'u' then return .ofCode (← readHex written 4)
  if c = 'U' then return .ofCode (← readHex written 8)
  if c = '0' then
    return .char (ofNat (numberIn 8 (← takeWhileClass isOctalDigit 2)))
  if c.isDigit then
    let second ← takeWhileClass isDigit 1
    let octal ←
      if isOctalDigit c && second.toList.all isOctalDigit && !second.isEmpty then
        takeWhileClass isOctalDigit 1
      else pure ""
    if !octal.isEmpty then
      return .char (ofNat (← octalCode (ofList [c] ++ second ++ octal)))
    let index := numberIn 10 (ofList [c] ++ second)
    if index < (← get).nextGroup then return ← referTo index
    invalidReference index
  if c = 'N' then missing "\x7b"
  if c.isAlpha then refuse ("bad escape " ++ written)
  return .char c

def readMember (token : String) : PatternM Member := do
  match token.toList with
  | '\\' :: c :: _ => readSetEscape c
  | c :: _ => return .char c.toNat
  | [] => unterminated "character set"

def badRange {α : Type} (low high : String) : PatternM α :=
  refuse ("bad character range " ++ low ++ "-" ++ high)

/-- Reads a set behind its bracket; `acc` holds the members so far, reversed. -/
def readSet : Nat → List Member → PatternM (List Member)
  | 0, _ => unterminated "character set"
  | fuel + 1, acc => do
    match ← take with
    | none => unterminated "character set"
    | some this =>
      if this = "]" && !acc.isEmpty then return acc.reverse
      let first ← readMember this
      if ← takeIf "-" then
        match ← take with
        | none => unterminated "character set"
        | some "]" => return (.char '-'.toNat :: first :: acc).reverse
        | some that =>
          match first, ← readMember that with
          | .char low, .char high =>
            if high < low then badRange this that
            readSet fuel (.range low high :: acc)
          | _, _ => badRange this that
      else readSet fuel (first :: acc)

/-- The bounds of a repetition in braces; `none` if the brace stands for itself. -/
def readBraces : PatternM (Option (Nat × Option Nat)) := do
  let before ← get
  if (← peek) = some "\x7d" then return none
  let bound := before.rest.length
  let low ← takeWhileClass isDigit bound
  let hasComma ← takeIf ","
  let high ← if hasComma then takeWhileClass isDigit bound else pure low
  if !(← takeIf "\x7d") then
    set before
    return none
  let least := numberIn 10 low
  let most := if high.isEmpty then none else some (numberIn 10 high)
  if least ≥ 4294967295 || most.any (· ≥ 4294967295) then throw .repeatTooLarge
  if most.any (· < least) then refuse "min repeat greater than max repeat"
  return some (least, most)

def checkRepeatable (n : Option Node) : PatternM Node := do
  match n with
  | none | some (.anchor _) => refuse "nothing to repeat"
  | some (.rep ..) => refuse "multiple repeat"
  | some n => return n

def readGreed : PatternM Greed := do
  if ← takeIf "?" then return .lazy
  if ← takeIf "+" then return .possessive
  return .greedy

def readUntil (terminator : String) : Nat → String → PatternM String
  | 0, _ => missing "group name"
  | fuel + 1, acc => do
    let t ← take
    if t ≠ none && t ≠ some terminator then readUntil terminator fuel (acc ++ t.getD "")
    else if acc.isEmpty then missing "group name"
    else if t.isNone then missing (terminator ++ ", unterminated name")
    else return acc

def flag? (token : String) : Option Char :=
  match token.toList with
  | [c] => if "imsxautL".toList.contains c then some c else none
  | _ => none

def isWhole (letter : Char) : Bool :=
  letter = 't'

def isLasting (letter : Char) : Bool :=
  letter = 'a' || letter = 'u' || letter = 'L'

def isLetter (c : Char) : Bool :=
  isLetterOrNumeral c && (decimalValue? c).isNone

def noFlag {α : Type} (token wanted : String) : PatternM α :=
  if token.toList.all isLetter then refuse "unknown flag" else missing wanted

def readFlagsOff : Nat → Char → PatternM (List Char)
  | 0, _ => missing ":"
  | fuel + 1, letter => do
    if isLasting letter then badFlags "cannot turn off flags 'a', 'u' and 'L'"
    match ← take with
    | none => missing ":"
    | some ":" => return [letter]
    | some t =>
      match flag? t with
      | some c => return letter :: (← readFlagsOff fuel c)
      | none => noFlag t ":"

def readFlagsOn : Nat → List Char → Char → PatternM (List Char × String)
  | 0, _, _ => missing "-, : or )"
  | fuel + 1, on, letter => do
    if letter = 'L' then badFlags "cannot use 'L' flag with a str pattern"
    let on := letter :: on
    if on.contains 'a' && on.contains 'u' then
      badFlags "flags 'a', 'u' and 'L' are incompatible"
    match ← take with
    | none => missing "-, : or )"
    | some t =>
      if t = ")" || t = ":" || t = "-" then return (on, t)
      match flag? t with
      | some c => readFlagsOn fuel on c
      | none => noFlag t "-, : or )"

/-- Reads flags: those that are turned on, and those that are turned off unless the flags hold for
the whole pattern. -/
def readFlags (fuel : Nat) (first : Option Char) : PatternM (List Char × Option (List Char)) := do
  let (on, ending) ← match first with
    | some c => readFlagsOn fuel [] c
    | none => pure ([], "-")
  if ending = ")" then return (on, none)
  if on.any isWhole then badFlags "cannot turn on global flag"
  if ending = ":" then return (on, some [])
  match ← take with
  | none => missing "flag"
  | some t =>
    match flag? t with
    | none => noFlag t "flag"
    | some c =>
      let off ← readFlagsOff fuel c
      if off.any isWhole then badFlags "cannot turn off global flag"
      if off.any on.contains then badFlags "flag turned on and off"
      return (on, some off)

/-- What stands behind an opening parenthesis. -/
inductive Opening where
  | capture (name : Option String)
  | bare
  | scoped (on off : List Char)
  | atomic
  | look (ahead negated : Bool)
  | branch (index : Nat)
  | reference (n : Node)
  | comment
  | globalFlags (on : List Char)

def skipComment : Nat → PatternM Unit
  | 0 => missing "), unterminated comment"
  | fuel + 1 => do
    match ← take with
    | none => missing "), unterminated comment"
    | some ")" => return ()
    | some _ => skipComment fuel

def isGroupName (s : String) : Bool :=
  match s.toList with
  | [] => false
  | c :: cs => (c = '_' || isLetter c) && cs.all isWordChar

def badName {α : Type} (name : String) : PatternM α :=
  refuse ("bad character in group name " ++ Literal.render name)

def readGroupName (terminator : String) (fuel : Nat) : PatternM String := do
  let name ← readUntil terminator fuel ""
  if isGroupName name then return name else badName name

def namedGroup (name : String) : PatternM Nat := do
  match (← get).names.lookup name with
  | some i => return i
  | none => refuse ("unknown group name " ++ Literal.render name)

def readCondition (fuel : Nat) : PatternM Nat := do
  let name ← readUntil ")" fuel ""
  let index ←
    if isGroupName name then namedGroup name
    else
      match Integer.parse? 10 name with
      | none => badName name
      | some n =>
        if n < 0 then badName name
        if n = 0 then refuse "bad group number"
        modify fun st => { st with conditions := st.conditions ++ [n.toNat] }
        pure n.toNat
  if (← get).behind.isSome then discard (referTo index)
  return index

def unknownExtension {α : Type} (text : String) : PatternM α :=
  refuse ("unknown extension ?" ++ text)

def readOpening : PatternM Opening := do
  let fuel := (← get).rest.length + 1
  if !(← takeIf "?") then return .capture none
  match ← take with
  | none => endsTooSoon
  | some "P" =>
    if ← takeIf "<" then return .capture (some (← readGroupName ">" fuel))
    else if ← takeIf "=" then
      let name ← readGroupName ")" fuel
      return .reference (← referTo (← namedGroup name))
    else
      match ← take with
      | none => endsTooSoon
      | some c => unknownExtension ("P" ++ c)
  | some ":" => return .bare
  | some "#" =>
    skipComment fuel
    return .comment
  | some "=" => return .look true false
  | some "!" => return .look true true
  | some "<" =>
    match ← take with
    | none => endsTooSoon
    | some "=" => return .look false false
    | some "!" => return .look false true
    | some c => unknownExtension ("<" ++ c)
  | some "(" => return .branch (← readCondition fuel)
  | some ">" => return .atomic
  | some c =>
    if c = "-" || (flag? c).isSome then
      match ← readFlags fuel (flag? c) with
      | (on, none) => return .globalFlags on
      | (on, some off) => return .scoped on off
    else unknownExtension c

def joinParts (parts : List Node) : Node :=
  match parts with
  | [] => .empty
  | p :: ps => ps.foldl (fun acc n => .seq n acc) p

def skipLine : Nat → PatternM Unit
  | 0 => return ()
  | fuel + 1 => do
    match ← take with
    | none | some "\n" => return ()
    | some _ => skipLine fuel

def openGroup (name : Option String) : PatternM Nat := do
  let st ← get
  let index := st.nextGroup
  match name with
  | none => set { st with nextGroup := index + 1 }
  | some n =>
    match st.names.lookup n with
    | some before => refuse ("redefinition of group name " ++ Literal.render n ++
      " as group " ++ Integer.natText index ++ "; was group " ++ Integer.natText before)
    | none => set { st with nextGroup := index + 1, names := (n, index) :: st.names }
  return index

def closeGroup : PatternM Unit := do
  if !(← takeIf ")") then missing "), unterminated subpattern"

/-- Where a sequence stands: how it is nested, and whether blanks in it are left out. -/
structure Scope where
  nested : Bool
  /-- Whether it is the first alternative of the whole pattern. -/
  isFirst : Bool
  verbose : Bool

def Scope.inner (s : Scope) : Scope :=
  { s with nested := true, isFirst := false }

mutual

def readAlternatives : Nat → Scope → PatternM Node
  | 0, _ => endsTooSoon
  | fuel + 1, scope => do
    let a ← readSequence fuel scope []
    if ← takeIf "|" then
      let st ← get
      let verbose := if scope.nested then scope.verbose else st.flags.verbose
      return .alt a (← readAlternatives fuel { scope with isFirst := false, verbose })
    else return a

def readSequence : Nat → Scope → List Node → PatternM Node
  | 0, _, _ => endsTooSoon
  | fuel + 1, scope, acc => do
    match ← peek with
    | none | some "|" | some ")" => return joinParts acc
    | some token =>
      discard take
      let more (n : Node) : PatternM Node := readSequence fuel scope (n :: acc)
      let inner : PatternM Node := do
        let body ← readAlternatives fuel scope.inner
        closeGroup
        return body
      let repeated (least : Nat) (most : Option Nat) : PatternM Node := do
        let item ← checkRepeatable acc.head?
        readSequence fuel scope (.rep least most (← readGreed) item :: acc.tail)
      if scope.verbose && token.toList.all isAsciiBlank then readSequence fuel scope acc
      else if scope.verbose && token = "#" then
        skipLine ((← get).rest.length + 1)
        readSequence fuel scope acc
      else
        match token with
        | "*" => repeated 0 none
        | "+" => repeated 1 none
        | "?" => repeated 0 (some 1)
        | "\x7b" =>
          match ← readBraces with
          | some (least, most) => repeated least most
          | none => more (.char '\x7b')
        | "." => more .any
        | "^" => more (.anchor .lineStart)
        | "$" => more (.anchor .lineEnd)
        | "[" =>
          let negated ← takeIf "^"
          let members ← readSet ((← get).rest.length + 1) []
          more (.oneOf negated members.eraseDups)
        | "(" =>
          match ← readOpening with
          | .comment => readSequence fuel scope acc
          | .globalFlags on =>
            if !scope.isFirst || !acc.isEmpty then
              refuse "global flags not at the start of the expression"
            modify fun st => { st with flags := st.flags.change on [], turnedOn := on ++ st.turnedOn }
            let verbose := (← get).flags.verbose
            readSequence fuel { scope with verbose } acc
          | .reference n => more n
          | .capture name =>
            let index ← openGroup name
            let body ← inner
            modify fun st => { st with widths := (index, body.width) :: st.widths }
            more (.group index body)
          | .branch index =>
            let yes ← readSequence fuel scope.inner []
            let hasNo ← takeIf "|"
            let no ← if hasNo then readSequence fuel scope.inner [] else pure .empty
            if hasNo && (← peek) = some "|" then
              refuse "conditional backref with more than two branches"
            closeGroup
            more (.branch index yes no hasNo)
          | .bare => more (.bare (← inner))
          | .atomic => more (.atomic (← inner))
          | .scoped on off =>
            let verbose := (scope.verbose || on.contains 'x') && !off.contains 'x'
            let body ← readAlternatives fuel { scope.inner with verbose }
            closeGroup
            more (.scoped on off body)
          | .look ahead negated =>
            let before := (← get).behind
            if !ahead then
              modify fun st => { st with behind := st.behind.or (some st.nextGroup) }
            let body ← readAlternatives fuel scope.inner
            if !ahead then modify fun st => { st with behind := before }
            closeGroup
            more (.look ahead negated body)
        | _ =>
          match token.toList with
          | '\\' :: c :: _ => more (← readEscape c)
          | c :: _ => more (.char c)
          | [] => return joinParts acc

end

def Node.looksBehindEvenly : Node → Bool
  | .look ahead _ body =>
    (ahead || body.width.2 == some body.width.1) && body.looksBehindEvenly
  | .group _ body | .bare body | .scoped _ _ body | .atomic body | .rep _ _ _ body =>
    body.looksBehindEvenly
  | .branch _ a b _ | .seq a b | .alt a b => a.looksBehindEvenly && b.looksBehindEvenly
  | _ => true

/-- A pattern that is ready for use. -/
structure Compiled where
  node : Node
  flags : Flags
  /-- The number of groups. -/
  groupCount : Nat

def compile (flags : Flags) (s : String) : Except PatternFault Compiled := do
  let start : Cursor := { rest := s.toList, flags := flags }
  let reading : PatternM Node := do
    discard peek
    let n ← readAlternatives (3 * s.length + 4)
      { nested := false, isFirst := true, verbose := flags.verbose }
    let st ← get
    if (flags.ascii || st.turnedOn.contains 'a') && st.turnedOn.contains 'u' then
      throw .alphabetConflict
    if (← peek).isSome then refuse "unbalanced parenthesis"
    match st.conditions.find? (st.nextGroup ≤ ·) with
    | some i => invalidReference i
    | none => return n
  let (node, st) ← reading.run start
  if !node.looksBehindEvenly then throw (.malformed "look-behind requires fixed-width pattern")
  return { node, flags := st.flags, groupCount := st.nextGroup - 1 }

def Compiled.search? (p : Compiled) (s : String) : Option Found :=
  Pattern.search? p.flags p.node s 0

def Compiled.match? (p : Compiled) (s : String) : Option Found :=
  Pattern.matchAt? p.flags p.node s 0

end Buildsmith.Text.Pattern
