import Buildsmith.Tool.Show

/-!
# Asking for new symbols

A configuration file that lacks symbols is brought up to date by asking for them one by one.  The
rounds go on until no answer changes anything.
-/

namespace Buildsmith.Tool

open Kconfig

def questionName (m : Model) (i : Item) : String :=
  let name := match i with
    | .symbol s => (m.symbol s).name
    | .choice c => (m.choice c).name.getD ""
  (if name.isEmpty then "choice" else name) ++ ", defined at " ++
    String.intercalate ", " ((m.entriesOf i).map m.placeOf)

def showHelp (e : Entry) : ToolM Unit :=
  let help := e.help.getD ""
  say ("\n" ++ if help.isEmpty then "No help text\n" else help)

def defaultAnswer (i : SymbolId) : EvalM String := do
  if (← symbolKind i).isLogical then
    let letters ← (← symbolAssignable i).mapM fun t => do
      return if (← symbolTristate i) = t then t.letter.toUpper else t.letter
    return String.intercalate "/" letters
  symbolText i

def withHexMark (i : SymbolId) (s : String) : EvalM String := do
  if (← symbolKind i) = .hex && !(Text.startsWith s "0x" || Text.startsWith s "0X") then
    return "0x" ++ s
  return s

def askSymbol (e : Entry) (title : String) (i : SymbolId) : Nat → ToolM Bool
  | 0 => throw .endOfInput
  | fuel + 1 => do
    let m ← theModel
    let value ← ask (title ++ " (" ++ questionName m (.symbol i) ++ ") [" ++
      (← defaultAnswer i) ++ "] ")
    if value = "?" then
      showHelp e
      askSymbol e title i fuel
    else
      let value ← if value.isEmpty then symbolText i else pure value
      let value ← withHexMark i value
      let old ← symbolText i
      if ← setSymbol true i (.text value) then
        return (← symbolText i) ≠ old
      else askSymbol e title i fuel

def hasUnanswered (selected : SymbolId) : List SymbolId → EvalM Bool
  | [] => return false
  | i :: is => do
    if i ≠ selected then
      if (← symbolVisibility i) ≠ .no then
        if (← symbolState i).user.isNone then return true
    hasUnanswered selected is

def isSettled (c : ChoiceId) : EvalM Bool := do
  match (← choiceState c).userSelection with
  | none => return false
  | some i =>
    if (← symbolVisibility i) ≠ .yes then return false
    return !(← hasUnanswered i ((← read).choice c).symbols)

def sayOptions (c : ChoiceId) : Nat → List SymbolId → ToolM Unit
  | _, [] => return ()
  | n, i :: is => do
    let m ← theModel
    let isSelected := (← choiceSelection c) = some i
    let first := (m.symbol i).entries.head?.bind fun e => (m.entry e).prompt
    match first with
    | none => throw (.fault .noPrompt)
    | some (title, _) =>
      say ((if isSelected then ">" else " ") ++ " " ++ Text.Integer.natText n ++ ". " ++ title ++
        " (" ++ (m.symbol i).name ++ ")")
    sayOptions c (n + 1) is

def askChoice (e : Entry) (title : String) (c : ChoiceId) (options : List SymbolId) :
    Nat → ToolM Bool
  | 0 => throw .endOfInput
  | fuel + 1 => do
    let m ← theModel
    say (title ++ " (" ++ questionName m (.choice c) ++ ")")
    sayOptions c 1 options
    let answer ← ask ("choice[1-" ++ Text.Integer.natText options.length ++ "]: ")
    if answer = "?" then
      showHelp e
      askChoice e title c options fuel
    else if answer.isEmpty then
      match ← choiceSelection c with
      | none => throw (.fault .inapplicable)
      | some i =>
        discard (setSymbol true i (.number 2))
        return false
    else
      let picked : Option SymbolId := do
        let n ← Text.Integer.parse? 10 answer
        if n < 1 then none else options[(n - 1).toNat]?
      match picked with
      | none =>
        complain "Bad index"
        askChoice e title c options fuel
      | some i =>
        let changed := (← symbolTristate i) ≠ .yes
        discard (setSymbol true i (.number 2))
        return changed

def settle (c : ChoiceId) : EvalM Unit := do
  ((← read).choice c).symbols.forM fun i => do
    if (← choiceState c).userSelection ≠ some i then
      if (← symbolVisibility i) ≠ .no then discard (setSymbol true i (.number 0))

def askForSymbol (e : Entry) (title : String) (i : SymbolId) : ToolM Bool := do
  let isKnown : EvalM Bool := do
    if (← symbolState i).user.isSome then return true
    if (← symbolAssignable i).length = 1 then return true
    match ((← read).symbol i).choice with
    | none => return false
    | some c => return (← choiceMode c) = .yes
  if ← isKnown then return false
  askSymbol e title i (← linesLeft)

def askForChoice (e : Entry) (title : String) (c : ChoiceId) : ToolM Bool := do
  if ← isSettled c then return false
  let options ← ((← theModel).choice c).symbols.filterM fun i => do
    return (← symbolVisibility i) = .yes
  if options.isEmpty then return false
  let changed ← askChoice e title c options (← linesLeft)
  settle c
  return changed

def itemVisibility : Item → EvalM Tristate
  | .symbol i => symbolVisibility i
  | .choice i => choiceVisibility i

def askEntry (i : EntryId) : ToolM Bool := do
  let e := (← theModel).entry i
  match e.subject.item? with
  | none => return false
  | some x =>
    if (← itemVisibility x) = .no then return false
    match x, e.prompt with
    | _, none => return false
    | .symbol s, some (title, _) => askForSymbol e title s
    | .choice c, some (title, _) => askForChoice e title c

def askEntries : List EntryId → ToolM Bool
  | [] => return false
  | i :: is => do
    let changed ← askEntry i
    let later ← askEntries is
    return changed || later

def askRounds : Nat → ToolM Unit
  | 0 => throw .endOfInput
  | fuel + 1 => do
    if ← askEntries (← theModel).allEntries then askRounds fuel

def oldconfig (call : Invocation) : Outcome :=
  runStandard call do
    say (← loadFile none)
    askRounds (← linesLeft)
    saveAndSay

/-! ## A menu on the command line -/

def askValue (i : Item) (name : String) : ToolM Bool := do
  if (← itemVisibility i) = .no then
    say (name ++ " is not currently visible")
    return false
  let kind ← itemKind i
  let values ← if kind.isLogical then itemAssignable i else pure []
  let choices :=
    if kind.isLogical then
      " (available: " ++ String.intercalate ", " (values.map Tristate.letter) ++ ")"
    else ""
  let value ← ask ("Value for " ++ name ++ choices ++ ": ")
  match i with
  | .symbol s =>
    let value ← withHexMark s value
    setSymbol true s (.text value)
  | .choice c =>
    discard (choiceKindNow c)
    setChoice c (.text value)

def tryFile (x : SessionM String) : ToolM Unit := do
  let outcome : SessionM (Except String String) := do
    try
      return .ok (← x)
    catch f =>
      match f with
      | .file (.failed ..) | .cannotOpenConfig .. | .cannotOpenSource .. =>
        return .error (faultLine f)
      | _ => throw f
  match ← outcome with
  | .ok text => say text
  | .error text => complain text

def lineCommand (command : String) : ToolM Unit := do
  let m ← theModel
  if command = "load_config" then
    let path ← ask ".config file to load: "
    tryFile (loadConfig (some path) true)
    sayMenuTree
  else if command = "write_config" then
    let path ← ask "To this file: "
    tryFile (saveConfig (some path) generatedBy true)
  else if let some s := m.findSymbol? false command then
    if ← askValue (.symbol s) command then sayMenuTree
  else if let some c := m.findChoice? command then
    if ← askValue (.choice c) command then sayMenuTree
  else
    complain ("No symbol/choice named '" ++ command ++ "' in the configuration")

def lineCommands : Nat → ToolM Unit
  | 0 => return ()
  | fuel + 1 => do
    let prompt := "Enter a symbol/choice name, \"load_config\", or " ++
      "\"write_config\" (or press CTRL+D to exit): "
    if (← get).input.isEmpty then
      put prompt
      say ""
    else
      lineCommand (Text.trim (← ask prompt))
      lineCommands fuel

def menuconfigExample (call : Invocation) : Outcome :=
  match call.arguments with
  | [root] =>
    runOn call root do
      sayMenuTree
      lineCommands (← linesLeft)
  | _ => stopAt call (.message "usage: menuconfig.py <Kconfig file>")

end Buildsmith.Tool
