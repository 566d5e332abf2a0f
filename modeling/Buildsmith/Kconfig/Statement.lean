import Buildsmith.FileTree.Walk
import Buildsmith.Kconfig.Describe
import Buildsmith.Kconfig.Lexer

/-!
# Reading statements

Description files are read line by line.  A statement that defines a menu entry is followed by its
properties; the first line that is no property is kept for the block around it.

Reading gives an outline: entries in the order of their definition, nested as they are written, and
blocks of entries that share a condition.
-/

namespace Buildsmith.Kconfig

open Text

def parsed {α : Type} (p : Except Problem α) : ReadM α :=
  match p with
  | .ok a => return a
  | .error e => fail e

def readPhysical : ReadM (Option String) := do
  let r ← get
  match r.lines with
  | l :: ls =>
    set { r with lines := ls }
    return some l
  | [] =>
    match r.lineFault with
    | some f => throw (.malformedText f (.file (r.file.getD "")))
    | none => return none

def joinLines : Nat → String → ReadM String
  | 0, line => return line
  | fuel + 1, line => do
    if endsWith line "\\\n" then
      let more := (← readPhysical).getD ""
      modify fun r => { r with line := r.line + 1 }
      joinLines fuel (takeFirst (line.length - 2) line ++ more)
    else return line

def tokenizeJoined (line : String) : ReadM (List Token) := do
  tokenize (← joinLines ((← get).lines.length + 1) line)

def nextLine : ReadM (Option (List Token)) := do
  let r ← get
  match r.pending with
  | some ts =>
    set { r with pending := none }
    return some ts
  | none =>
    match ← readPhysical with
    | none => return none
    | some line =>
      modify fun r => { r with line := r.line + 1 }
      return some (← tokenizeJoined line)

def pushBack (ts : List Token) : ReadM Unit :=
  modify fun r => { r with pending := some ts }

def modifyEntry (i : EntryId) (f : Entry → Entry) : ReadM Unit :=
  modify fun r => { r with model := r.model.modifyEntry i f }

def getEntry (i : EntryId) : ReadM Entry := do
  return (← get).model.entry i

def entryItem (i : EntryId) : ReadM Item := do
  match (← getEntry i).subject.item? with
  | some item => return item
  | none => throw .inapplicable

def warnOfItem (i : EntryId) (text : String) : ReadM Unit := do
  let item ← entryItem i
  warn ((← get).model.nameAndPlaces item ++ text)

def Model.withKind (m : Model) (kind : Kind) : Item → Model
  | .symbol s => m.modifySymbol s fun x => { x with kind := kind }
  | .choice c => m.modifyChoice c fun x => { x with kind := kind }

def setKind (i : EntryId) (kind : Kind) : ReadM Unit := do
  let item ← entryItem i
  let old := (← get).model.kindOf item
  if old ≠ .unknown && old ≠ kind then
    warnOfItem i (" defined with multiple types, " ++ kind.name ++ " will be used")
  modify fun r => { r with model := r.model.withKind kind item }

def readPrompt (i : EntryId) (ts : List Token) : ReadM Unit := do
  if ((← getEntry i).prompt).isSome then
    warnOfItem i " defined with multiple prompts in single location"
  match ts with
  | .text prompt :: rest =>
    if prompt ≠ trim prompt then
      warnOfItem i " has leading or trailing whitespace in its prompt"
    let cond ← parsed (readIfClause rest)
    modifyEntry i fun e => { e with prompt := some (trim prompt, cond) }
  | _ => fail .expectedPrompt

def indentation (expanded : String) : Nat :=
  (expanded.toList.takeWhile isBlank).length

def firstHelpLine : Nat → ReadM (Option String)
  | 0 => return none
  | fuel + 1 => do
    let line ← readPhysical
    modify fun r => { r with line := r.line + 1 }
    match line with
    | none => return none
    | some l => if isAllBlank l then firstHelpLine fuel else return some l

/-- Reads the lines of a help text behind the first; gives also the line that ends it. -/
def moreHelpLines (indent : Nat) : Nat → List String → ReadM (List String × Option String)
  | 0, acc => return (acc.reverse, none)
  | fuel + 1, acc => do
    match ← readPhysical with
    | none => return (acc.reverse, none)
    | some l =>
      if isAllBlank l then moreHelpLines indent fuel ("\n" :: acc)
      else
        let expanded := expandTabs l
        if indentation expanded < indent then return (acc.reverse, some l)
        else moreHelpLines indent fuel (dropFirst indent expanded :: acc)

def keepLine (line : Option String) : ReadM Unit := do
  match line with
  | none => return ()
  | some l => pushBack (← tokenizeJoined l)

def readHelp (i : EntryId) : ReadM Unit := do
  discard (entryItem i)
  if ((← getEntry i).help).isSome then
    warnOfItem i " defined with more than one help text -- only the last one will be used"
  let bound := (← get).lines.length + 2
  let first ← firstHelpLine bound
  let expanded := expandTabs (first.getD "")
  let indent := indentation expanded
  if first.isNone || indent = 0 then
    warnOfItem i " has 'help' but empty help text"
    modifyEntry i fun e => { e with help := some "" }
    keepLine first
  else
    let (more, after) ← moreHelpLines indent bound []
    let lines := dropFirst indent expanded :: more
    modify fun r => { r with line := r.line + lines.length }
    modifyEntry i fun e => { e with help := some (trimEnd (String.join lines)) }
    keepLine after

def readTarget (ts : List Token) : ReadM (SymbolId × Expr) := do
  match ts with
  | .symbol s :: rest =>
    if ((← get).model.symbol s).isConstant then fail .expectedNonconstant
    return (s, ← parsed (readIfClause rest))
  | _ => fail .expectedNonconstant

def readDefault (i : EntryId) (ts : List Token) : ReadM Unit := do
  let (value, rest) ← parsed (readExpr false ts)
  let cond ← parsed (readIfClause rest)
  modifyEntry i fun e => { e with defaults := e.defaults ++ [(value, cond)] }

def subjectName (s : Subject) : ReadM String := do
  let m := (← get).model
  match s with
  | .symbol i => return (m.symbol i).name
  | .choice i => return (m.choice i).name.getD "None"
  | _ => throw .inapplicable

def readEnvOption (i : EntryId) (ts : List Token) : ReadM Unit := do
  let envVar ← parsed (readWholeText ts)
  match (← getEntry i).subject with
  | .symbol s =>
    modify fun r => { r with model := r.model.modifySymbol s fun x => { x with envVar := some envVar } }
    let name := ((← get).model.symbol s).name
    match (← get).workspace.getEnv? envVar with
    | some value =>
      let c ← lookup true value
      modifyEntry i fun e => { e with defaults := e.defaults ++ [(.symbol c, .yes)] }
    | none =>
      warnHere (envVar ++ " has 'option env=\"" ++ name ++ "\"', but the environment variable " ++
        name ++ " is not set")
    if envVar ≠ name then
      warnHere ("Kconfiglib expands environment variables in strings directly, meaning you do not " ++
        "need 'option env=...' \"bounce\" symbols. For compatibility with the C tools, rename " ++
        name ++ " to " ++ envVar ++
        " (so that the symbol name matches the environment variable name).")
  | _ => throw .inapplicable

def readOption (i : EntryId) (ts : List Token) : ReadM Unit := do
  let subject := (← getEntry i).subject
  match ts with
  | .keyword .env :: rest =>
    match rest with
    | .relation .equal :: rest => readEnvOption i rest
    | _ => fail .expectedEquals
  | .keyword .defconfigList :: _ =>
    match (← get).model.defconfigList with
    | none => modify fun r => { r with model := { r.model with defconfigList := some subject } }
    | some used =>
      let usedName ← subjectName used
      let name ← subjectName subject
      warnHere ("'option defconfig_list' set on multiple symbols (" ++ usedName ++ " and " ++
        name ++ "). Only " ++ usedName ++ " will be used.")
  | .keyword .modules :: _ =>
    if subject ≠ .symbol SymbolId.modules then
      warnHere ("the 'modules' option is not supported. Let me know if this is a problem for you, " ++
        "as it wouldn't be that hard to implement. Note that modules are supported -- Kconfiglib " ++
        "just assumes the symbol name MODULES, like older versions of the C implementation did " ++
        "when 'option modules' wasn't used.")
  | .keyword .allnoconfigY :: _ =>
    match subject with
    | .symbol s =>
      modify fun r =>
        { r with model := r.model.modifySymbol s fun x => { x with isAllnoconfigY := true } }
    | _ => fail .allnoconfigOutsideSymbol
  | _ => fail .unrecognizedOption

def readProperty (i : EntryId) (k : Keyword) (ts : List Token) : ReadM Bool := do
  let subject := (← getEntry i).subject
  let ofSymbol := match subject with | .symbol _ => true | _ => false
  if let some kind := k.kind? then
    setKind i kind
    unless ts.isEmpty do readPrompt i ts
    return true
  if let some kind := k.defaultKind? then
    setKind i kind
    readDefault i ts
    return true
  match k with
  | .depends =>
    match ts with
    | .keyword .on :: rest =>
      let cond ← parsed (readWholeExpr rest)
      modifyEntry i fun e => { e with dep := e.dep.both cond }
      return true
    | _ => fail .expectedOn
  | .help =>
    readHelp i
    return true
  | .select =>
    unless ofSymbol do fail .selectOutsideSymbol
    let target ← readTarget ts
    modifyEntry i fun e => { e with selects := e.selects ++ [target] }
    return true
  | .default =>
    readDefault i ts
    return true
  | .prompt =>
    readPrompt i ts
    return true
  | .range =>
    let (low, rest) ← parsed (readSymbol ts)
    let (high, rest) ← parsed (readSymbol rest)
    let cond ← parsed (readIfClause rest)
    modifyEntry i fun e => { e with ranges := e.ranges ++ [(low, high, cond)] }
    return true
  | .imply =>
    unless ofSymbol do fail .implyOutsideSymbol
    let target ← readTarget ts
    modifyEntry i fun e => { e with implies := e.implies ++ [target] }
    return true
  | .visible =>
    match ts with
    | .keyword .ifWord :: rest =>
      unless subject = .menu do throw .inapplicable
      let cond ← parsed (readWholeExpr rest)
      modifyEntry i fun e => { e with visibility := e.visibility.both cond }
      return true
    | _ => fail .expectedIf
  | .option =>
    readOption i ts
    return true
  | .optional =>
    match subject with
    | .choice c =>
      modify fun r =>
        { r with model := r.model.modifyChoice c fun x => { x with isOptional := true } }
      return true
    | _ => fail .optionalOutsideChoice
  | _ => return false

def readProperties (i : EntryId) : Nat → ReadM Unit
  | 0 => return ()
  | fuel + 1 => do
    match ← nextLine with
    | none => return ()
    | some [] => readProperties i fuel
    | some (.keyword k :: ts) =>
      if ← readProperty i k ts then readProperties i fuel else pushBack (.keyword k :: ts)
    | some ts => pushBack ts

/-- A bound on the number of lines and kept lines that are left in the file. -/
def lineBound : ReadM Nat := do
  return 2 * (← get).lines.length + 3

def newEntry (subject : Subject) (isMenuconfig : Bool) (prompt : Option (String × Expr)) :
    ReadM EntryId := do
  let r ← get
  let e : Entry :=
    { subject, isMenuconfig, prompt, file := r.file.getD "", line := r.line
      includePath := r.includePath }
  set { r with model := { r.model with entries := r.model.entries.push e } }
  return r.model.entries.size

def newSymbolEntry (s : SymbolId) (isMenuconfig : Bool) : ReadM EntryId := do
  modify fun r => { r with model := { r.model with defined := r.model.defined ++ [s] } }
  let i ← newEntry (.symbol s) isMenuconfig none
  modify fun r =>
    { r with model := r.model.modifySymbol s fun x => { x with entries := x.entries ++ [i] } }
  return i

def newChoiceEntry (c : ChoiceId) : ReadM EntryId := do
  modify fun r => { r with model := { r.model with choiceUses := r.model.choiceUses ++ [c] } }
  let i ← newEntry (.choice c) true none
  modify fun r =>
    { r with model := r.model.modifyChoice c fun x => { x with entries := x.entries ++ [i] } }
  return i

def readConfig (isMenuconfig : Bool) (ts : List Token) : ReadM Outline := do
  match ts with
  | .symbol s :: rest =>
    if ((← get).model.symbol s).isConstant then fail .badSymbolName
    unless rest.isEmpty do fail .extraTokens
    let i ← newSymbolEntry s isMenuconfig
    readProperties i (← lineBound)
    if isMenuconfig && ((← getEntry i).prompt).isNone then
      warn ("the menuconfig symbol " ++ (← get).model.nameAndPlaces (.symbol s) ++ " has no prompt")
    return .entry i []
  | _ => fail .badSymbolName

def choiceOf (ts : List Token) : ReadM ChoiceId := do
  let add (name : Option String) : ReadM ChoiceId := do
    let r ← get
    set { r with model := { r.model with choices := r.model.choices.push { name } } }
    return r.model.choices.size
  if ts.isEmpty then add none
  else
    let name ← parsed (readWholeText ts)
    match (← get).model.findChoice? name with
    | some c => return c
    | none => add (some name)

def enterFile (path : String) : ReadM Unit := do
  let r ← get
  let root := Path.render (Path.absolute r.workspace.cwd r.srctree) ++ "/"
  let name := if startsWith path root then dropFirst root.length path else path
  let here := (r.file.getD "", r.line)
  let trail := r.includePath ++ [here]
  set { r with filenames := r.filenames ++ [name], includePath := trail }
  if trail.any fun p => p.1 = name then
    throw (.recursiveSource here.1 here.2 name trail)
  match r.workspace.read path with
  | .error (.failed cause _) =>
    throw (.cannotOpenSource here.1 here.2 path (trim r.text) cause)
  | .error .nulInPath => throw (.file .nulInPath)
  | .ok bytes =>
    let decoded := decodeFile r.encoding bytes
    modify fun r =>
      { r with file := some name, line := 0, lines := decoded.lines, lineFault := decoded.fault }

def sourcedFiles (k : Keyword) (ts : List Token) : ReadM (List String) := do
  let written ← parsed (readWholeText ts)
  let r ← get
  let pattern :=
    if k.isRelativeSource then Path.join (Path.dirName (r.file.getD "")) written else written
  let root := Path.render (Path.absolute r.workspace.cwd r.srctree) ++ "/"
  let paths := (r.workspace.files.glob r.workspace.cwd (Path.join root pattern)).mergeSort (· ≤ ·)
  if paths.isEmpty && k.isObligatorySource then
    throw (.sourceNotFound (r.file.getD "") r.line pattern (trim r.text) r.srctree)
  return paths

def endOf? : Keyword → Option Block
  | .endchoice => some .choice
  | .endif => some .cond
  | .endmenu => some .menu
  | _ => none

def readSourced (readFile : ReadM (List Outline)) (path : String) : ReadM (List Outline) := do
  let before ← get
  enterFile path
  let outline ← readFile
  modify fun r =>
    { r with
      file := before.file, line := before.line, includePath := before.includePath
      lines := before.lines, lineFault := before.lineFault }
  return outline

/-- Reads the statements of a file or block up to its end; `readFile` reads another file, if the
depth allows that. -/
def readStatements (readFile : Option (ReadM (List Outline))) (within : Option Block) :
    Nat → ReadM (List Outline)
  | 0 => throw .unbounded
  | fuel + 1 => do
    match ← nextLine with
    | none =>
      match within with
      | some b => throw (.unclosedBlock b ((← get).file.getD ""))
      | none => return []
    | some [] => readStatements readFile within fuel
    | some (.keyword k :: ts) =>
      if k = .config || k = .menuconfig then
        let entry ← readConfig (k = .menuconfig) ts
        return entry :: (← readStatements readFile within fuel)
      else if k.isSource then
        let paths ← sourcedFiles k ts
        match readFile with
        | none => throw .unbounded
        | some read =>
          let parts ← paths.mapM (readSourced read)
          return parts.flatten ++ (← readStatements readFile within fuel)
      else if within.isSome && endOf? k = within then
        unless ts.isEmpty do fail .extraTokens
        return []
      else
        match k with
        | .ifWord =>
          let cond ← parsed (readWholeExpr ts)
          let children ← readStatements readFile (some .cond) fuel
          return .block cond children :: (← readStatements readFile within fuel)
        | .menu =>
          let title ← parsed (readWholeText ts)
          let i ← newEntry .menu true (some (title, .yes))
          modify fun r => { r with menus := r.menus ++ [i] }
          readProperties i (← lineBound)
          let children ← readStatements readFile (some .menu) fuel
          return .entry i children :: (← readStatements readFile within fuel)
        | .comment =>
          let title ← parsed (readWholeText ts)
          let i ← newEntry .comment false (some (title, .yes))
          modify fun r => { r with comments := r.comments ++ [i] }
          readProperties i (← lineBound)
          return .entry i [] :: (← readStatements readFile within fuel)
        | .choice =>
          let c ← choiceOf ts
          let i ← newChoiceEntry c
          readProperties i (← lineBound)
          let children ← readStatements readFile (some .choice) fuel
          return .entry i children :: (← readStatements readFile within fuel)
        | .mainmenu =>
          let title ← parsed (readWholeText ts)
          modifyEntry Model.top fun e => { e with prompt := some (title, .yes) }
          readStatements readFile within fuel
        | _ =>
          match endOf? k with
          | some b => fail (.unmatchedEnd b)
          | none => fail .unrecognizedConstruct
    | some _ => fail .unrecognizedConstruct

/-- Reads the statements of a file; `depth` bounds how deeply files read other files. -/
def readBlock : Nat → ReadM (List Outline)
  | 0 => do readStatements none none (← lineBound)
  | depth + 1 => do readStatements (some (readBlock depth)) none (← lineBound)

def maxSourceDepth : Nat := 1000

def readRoot (root : String) : ReadM (List Outline) := do
  let r ← get
  let path := Path.join r.srctree root
  match r.workspace.read path with
  | .error f => throw (.file f)
  | .ok bytes =>
    let decoded := decodeFile r.encoding bytes
    let top : Entry :=
      { subject := .menu, isMenuconfig := true, prompt := some ("Main menu", .yes), file := root
        line := 1 }
    set { r with
      model := { r.model with entries := #[top] }
      file := some root, filenames := [root], lines := decoded.lines, lineFault := decoded.fault }
    readBlock maxSourceDepth

end Buildsmith.Kconfig
