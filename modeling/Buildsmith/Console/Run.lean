import Buildsmith.Console.Dialog

/-!
# Running the console interface

The interface loads the usual configuration file, shows the menu and carries out keys until the
user quits.  The last message is printed.
-/

namespace Buildsmith.Console

open Kconfig Terminal

/-- The actions that keys of the main display stand for. -/
inductive Action where
  | resize
  | next
  | previous
  | pageDown
  | pageUp
  | last
  | first
  | toggle
  | enter
  | assign (t : Tristate)
  | leave
  | escape
  | load
  | save
  | saveMinimal
  | search
  | info
  | toggleHelp
  | toggleName
  | toggleAll
  | quit
  deriving DecidableEq, Repr

def letterAction? (c : Char) : Option Action :=
  match c.toLower with
  | 'j' => some .next
  | 'k' => some .previous
  | 'l' => some .enter
  | 'n' => some (.assign .no)
  | 'm' => some (.assign .mod)
  | 'y' => some (.assign .yes)
  | 'h' => some .leave
  | 'o' => some .load
  | 's' => some .save
  | 'd' => some .saveMinimal
  | 'f' => some .toggleHelp
  | 'c' => some .toggleName
  | 'a' => some .toggleAll
  | 'q' => some .quit
  | _ => none

def action? : Key → Option Action
  | .resize => some .resize
  | .down => some .next
  | .up => some .previous
  | .pageDown => some .pageDown
  | .pageUp => some .pageUp
  | .endKey => some .last
  | .home => some .first
  | .right => some .enter
  | .left => some .leave
  | .backspace => some .leave
  | .char c =>
    if c = control 'D' then some .pageDown
    else if c = control 'U' then some .pageUp
    else if c = 'G' then some .last
    else if c = 'g' then some .first
    else if c = ' ' then some .toggle
    else if c = '\n' then some .enter
    else if c = eraseChar then some .leave
    else if c = escapeChar then some .escape
    else if c = '/' then some .search
    else if c = '?' then some .info
    else letterAction? c
  | _ => none

def saveAction (kind : Saving) : UiM Unit := do
  let u ← get
  let path := match kind with
    | .full => u.configName
    | .minimal => u.minimalName
  match ← saveDialog kind (← keysLeft) path with
  | none => return ()
  | some path =>
    modify fun u =>
      match kind with
      | .full => { u with configName := path, isChanged := false }
      | .minimal => { u with minimalName := path }

def toggleHelp : UiM Unit := do
  modify fun u =>
    let showHelp := !u.showHelp
    let part := if showHelp then "show-help" else "help"
    { u with showHelp, helpWindow := u.helpWindow.setBackground (u.styles.attr part) }
  resizeMain

def perform : Action → UiM (Option String)
  | .resize => do resizeMain; return none
  | .next => do selectNext; return none
  | .previous => do selectPrevious; return none
  | .pageDown => do times pageLength selectNext; return none
  | .pageUp => do times pageLength selectPrevious; return none
  | .last => do
    modify fun u => { u with scroller := .last u.shown.length u.menuWindow.height }
    return none
  | .first => do
    modify fun u => { u with scroller := .first }
    return none
  | .toggle => do
    let i ← selectedEntry
    if !(← changeEntry i) then discard (enterMenu i)
    return none
  | .enter => do
    let i ← selectedEntry
    if !(← enterMenu i) then discard (changeEntry i)
    return none
  | .assign t => do assignSelected t; return none
  | .leave => do leaveMenu; return none
  | .escape => do
    if (← get).menu = Model.top then quitDialog
    else
      leaveMenu
      return none
  | .load => do loadDialog; return none
  | .save => do saveAction .full; return none
  | .saveMinimal => do saveAction .minimal; return none
  | .search => do
    discard searchDialog
    resizeMain
    return none
  | .info => do
    infoDialog (some searchDialog) (← selectedEntry)
    resizeMain
    return none
  | .toggleHelp => do toggleHelp; return none
  | .toggleName => do
    modify fun u => { u with showName := !u.showName }
    return none
  | .toggleAll => do toggleShowAll; return none
  | .quit => quitDialog

/-- One step of the main display: it is drawn, and a key is carried out.  Gives the last message if
the program ends. -/
def displayStep : UiM (Option String) := do
  drawMain
  match action? (← nextKey) with
  | none => return none
  | some a => perform a

def mainLoop : Nat → UiM String
  | 0 => throw .outOfKeys
  | fuel + 1 => do
    match ← displayStep with
    | some text => return text
    | none => mainLoop fuel

/-- The terminal on which the interface runs. -/
structure Setting where
  height : Nat := 24
  width : Nat := 80
  palette : Palette := {}
  inputs : List Input := []

def openDisplay : UiM Unit := do
  let u ← get
  let styles := Styles.make u.styles.palette (u.session.workspace.getEnv? "MENUCONFIG_STYLE")
  let warnings := String.join (styles.warnings.map fun w => "menuconfig warning: " ++ w ++ "\n")
  modify fun u =>
    { u with styles, session := u.session.mapWorkspace (·.printError warnings) }
  setCursor false
  let path ← styledWindow "path"
  let separator ← styledWindow "separator"
  let menu ← styledWindow "list"
  let help ← styledWindow "help"
  let shown ← shownNow Model.top
  modify fun u =>
    { u with
      pathWindow := path, topWindow := separator, menuWindow := menu
      bottomWindow := separator, helpWindow := help, shown }
  resizeMain

def openOn (shown : List EntryId) : UiM Bool := do
  if shown.isEmpty then
    onSession (sessionPrint ("Empty configuration -- nothing to configure.\n" ++
      "Check that environment variables are set properly."))
    return false
  else
    modify fun u =>
      let r := u.session.reading
      let flags := { r.flags with enabled := false }
      { u with session := { u.session with reading := { r with flags } } }
    openDisplay
    return true

/-- Loads the usual configuration file and opens the display; gives whether there is anything to be
shown.  Where no entry is visible all are shown. -/
def opening : UiM Bool := do
  let outdated ← onSession loadStandard
  modify fun u =>
    { u with
      configName := standardConfigName u.session.workspace
      isChanged := outdated }
  let visible ← shownNow Model.top
  if visible.isEmpty then
    modify fun u => { u with showAll := true }
    openOn (← shownNow Model.top)
  else openOn visible

def runUi : UiM Unit := do
  if ← opening then
    let text ← mainLoop (← keysLeft)
    onSession (sessionPrint text)

def Setting.begin (setting : Setting) (session : Session) : Ui :=
  { session
    screen := .ofSize setting.height setting.width
    styles := { palette := setting.palette }
    inputs := setting.inputs }

def run (session : Session) (setting : Setting) : Except Halt Unit × Ui :=
  runUi.run.run (setting.begin session)

end Buildsmith.Console
