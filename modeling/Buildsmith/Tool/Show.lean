import Buildsmith.Kconfig.Report
import Buildsmith.Tool.Configure

/-!
# Tools that show a description

These tools print what a description holds: its variables, single symbols, the places that refer to
them, or the whole menu with values.
-/

namespace Buildsmith.Tool

open Kconfig Text.Integer

def variableText (w : Workspace) (name open_ close : String) : String :=
  name ++ "=" ++ open_ ++ (w.getEnv? name).getD "" ++ close

def dumpvars (call : Invocation) : Outcome :=
  runOnFirst call fun _ => do
    let s := (← get).session
    say (String.intercalate " " (s.reading.envUsed.map fun v => variableText s.workspace v "'" "'"))

def runOnSecond (call : Invocation) (missing : String) (body : String → ToolM Unit) : Outcome :=
  match call.arguments with
  | root :: word :: _ => runOn call root (body word)
  | _ => stopAt call (.message missing)

def missingName : String :=
  "Pass symbol name (without \"CONFIG_\" prefix) with SCRIPT_ARG=<name>"

def evalExpr (call : Invocation) : Outcome :=
  runOnSecond call "Pass the expression to evaluate with SCRIPT_ARG=<expression>" fun e => do
    discard (setSymbol true SymbolId.modules (.number 2))
    let value ← evalCondition e
    say ("the expression '" ++ e ++ "' evaluates to " ++ natText value.toNat)

def ancestors (m : Model) : Nat → EntryId → List EntryId
  | 0, _ => []
  | fuel + 1, i =>
    match m.parentOf i with
    | none => []
    | some p => if p = Model.top then [] else p :: ancestors m fuel p

def numbered {α : Type} (xs : List α) : List (Nat × α) :=
  ((List.range xs.length).map (· + 1)).zip xs

def sayReferences (name : String) : ToolM Unit := do
  let m ← theModel
  match m.findSymbol? false name with
  | none => say ("No symbol " ++ name ++ " exists in the configuration")
  | some i =>
    let found := m.allEntries.filter fun e => ((m.entry e).referenced).contains (.symbol i)
    if found.isEmpty then say ("No references to " ++ name ++ " found")
    else
      say ("Found " ++ natText found.length ++ " locations that reference " ++ name ++
        ":\n")
      (numbered found).forM fun (n, e) => do
        say ("========== Location " ++ natText n ++ " (" ++ m.placeOf e ++
          ") ==========\n\n" ++ m.entryText e)
        (numbered (ancestors m m.entries.size e)).forM fun (k, p) =>
          say ("---------- Parent " ++ natText k ++ " (" ++ m.placeOf p ++
            ")  ----------\n\n" ++ m.entryText p)

def findSymbolTool (call : Invocation) : Outcome :=
  runOnSecond call missingName sayReferences

def matchText? (m : Model) (p : Text.Pattern.Compiled) (i : EntryId) : Option String :=
  let e := m.entry i
  let title := (e.prompt.map Prod.fst).getD ""
  let found (s : String) : Bool := (p.search? s).isSome
  match e.subject with
  | .symbol _ | .choice _ =>
    match e.help, e.subject.item? with
    | some help, some item => if found help then some (m.itemText item) else none
    | _, _ => none
  | .menu => if found title then some ("menu \"" ++ title ++ "\"") else none
  | .comment => if found title then some ("comment \"" ++ title ++ "\"") else none

def helpGrep (call : Invocation) : Outcome :=
  match call.arguments with
  | root :: pattern :: _ =>
    match Text.Pattern.compile { ignoreCase := true } pattern with
    | .error f => stopAt call (.fault (Kconfig.Fault.ofPattern f))
    | .ok p =>
      runOn call root do
        let m ← theModel
        m.allEntries.forM fun i => do
          if let some text := matchText? m p i then
            say text
            say ("location: " ++ m.placeOf i ++ "\n")
  | _ => stopAt call (.message "Pass the regex with SCRIPT_ARG=<regex>")

def printSymInfo (call : Invocation) : Outcome :=
  runOnSecond call missingName fun name => do
    let i ← findSymbol false name
    let m ← theModel
    say (m.itemText (.symbol i))
    say ("value = " ++ (← symbolText i))
    say ("visibility = " ++ (← symbolVisibility i).letter)
    let values ← symbolAssignable i
    say ("currently assignable values: " ++
      String.intercalate ", " (values.map Tristate.letter))
    (m.symbol i).entries.forM fun e => say ("defined at " ++ m.placeOf e)

mutual

def menuLines (m : Model) (indent : Nat) : Menu → List String
  | .entry i children =>
    let e := m.entry i
    let title := (e.prompt.map Prod.fst).getD ""
    let text := match e.subject with
      | .symbol s => "config " ++ (m.symbol s).name
      | .choice _ => "choice"
      | .menu => "menu \"" ++ title ++ "\""
      | .comment => "comment \"" ++ title ++ "\""
    (Text.repeated indent " " ++ text) :: menuLinesAll m (indent + 2) children

def menuLinesAll (m : Model) (indent : Nat) : List Menu → List String
  | [] => []
  | c :: cs => menuLines m indent c ++ menuLinesAll m indent cs

end

def printTree (call : Invocation) : Outcome :=
  runOnFirst call fun _ => do
    let m ← theModel
    (menuLines m 0 (.entry Model.top m.menu)).forM say

def valueMark (i : Item) : EvalM String := do
  let m ← read
  let kind ← itemKind i
  if kind.isNumeric || kind = .string then return "(" ++ (← itemValue i) ++ ")"
  if let .symbol s := i then
    if let some c := (m.symbol s).choice then
      if (← symbolVisibility s) = .yes then
        return if (← choiceSelection c) = some s then "-->" else "   "
  let mark := match ← itemTristate i with
    | .no => " "
    | .mod => "M"
    | .yes => "*"
  let values ← itemAssignable i
  if values.length = 1 then return "-" ++ mark ++ "-"
  if kind = .bool then return "[" ++ mark ++ "]"
  if values = [.mod, .yes] then return "\x7b" ++ mark ++ "\x7d"
  return "<" ++ mark ++ ">"

def valueLine (i : EntryId) : EvalM String := do
  let m ← read
  let e := m.entry i
  match e.prompt with
  | none => return ""
  | some (title, cond) =>
    if (← exprValue cond) = .no then return ""
    match e.subject with
    | .menu => return "    " ++ title
    | .comment => return "    *** " ++ title ++ " ***"
    | .symbol s => marked (.symbol s) title (" (" ++ (m.symbol s).name ++ ")")
    | .choice c =>
      marked (.choice c) title (((m.choice c).name.map fun n => " (" ++ n ++ ")").getD "")
where
  marked (i : Item) (title name : String) : EvalM String := do
    if (← itemKind i) = .unknown then return ""
    let mark ← valueMark i
    return mark ++ Text.repeated (3 - mark.length) " " ++ " " ++ title ++ name

mutual

def sayMenu (indent : Nat) : Menu → ToolM Unit
  | .entry i children => do
    let text ← valueLine i
    if !text.isEmpty then say (Text.repeated indent " " ++ text)
    sayMenus (indent + 8) children

def sayMenus (indent : Nat) : List Menu → ToolM Unit
  | [] => return ()
  | c :: cs => do
    sayMenu indent c
    sayMenus indent cs

end

def sayMenuTree : ToolM Unit := do
  let m ← theModel
  say ("\n======== " ++ m.title ++ " ========\n")
  sayMenus 0 m.menu
  say ""

def printConfigTree (call : Invocation) : Outcome :=
  runOnFirst call fun rest => do
    discard (loadFile (some (rest.head?.getD ".config")))
    sayMenuTree

end Buildsmith.Tool
