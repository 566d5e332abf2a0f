import Buildsmith.Kconfig.ConfigFile
import Buildsmith.Kconfig.Info
import Buildsmith.Terminal.Style
import Buildsmith.Text.Wrap

/-!
# The main display

The interface shows one menu at a time.  From top to bottom the display has the path of the menu, the
title, the entries, a line that tells of special modes, and help.

Asking for a key records what a user sees at that time.  When no key is left the run is halted.
-/

namespace Buildsmith.Console

open Kconfig Terminal

/-! ## State -/

/-- The state of the interface. -/
structure Ui where
  session : Session
  screen : Screen
  styles : Styles
  inputs : List Input
  frames : Array Frame := #[]
  pathWindow : Window := {}
  topWindow : Window := {}
  menuWindow : Window := {}
  bottomWindow : Window := {}
  helpWindow : Window := {}
  /-- The entry whose menu is shown. -/
  menu : EntryId := Model.top
  shown : List EntryId := []
  scroller : Scroller := {}
  /-- The rows of the selected entries in the menus above, innermost first. -/
  rowsAbove : List Int := []
  showHelp : Bool := false
  showName : Bool := false
  showAll : Bool := false
  configName : String := ""
  minimalName : String := "defconfig"
  isChanged : Bool := false

/-- Why a run of the interface ends early. -/
inductive Halt where
  | fault (f : Fault)
  | outOfKeys
  /-- Something is looked up in a list that does not have it. -/
  | lost

abbrev UiM := ExceptT Halt (StateM Ui)

def onSession {α : Type} (x : SessionM α) : UiM α := do
  let u ← get
  let (result, session) := x.run.run u.session
  set { u with session }
  match result with
  | .ok a => return a
  | .error f => throw (.fault f)

def computing {α : Type} (x : EvalM α) : UiM α :=
  onSession (evaluating x)

def theModel : UiM Model := do
  return (← get).session.model

def nextKey : UiM Key := do
  modify fun u =>
    { u with
      frames := u.frames.push u.screen.frame
      screen := { u.screen with isFresh := false } }
  match (← get).inputs with
  | [] => throw .outOfKeys
  | .key k :: rest =>
    modify fun u => { u with inputs := rest }
    return k
  | .resized height width :: rest =>
    modify fun u => { u with inputs := rest, screen := u.screen.cleared height width }
    return .resize

def keysLeft : UiM Nat := do
  return (← get).inputs.length + 1

def styledWindow (part : String) : UiM Window := do
  return { background := (← get).styles.attr part }

def showWindow (w : Window) : UiM Unit :=
  modify fun u => { u with screen := u.screen.put w }

def setCursor (visible : Bool) : UiM Unit :=
  modify fun u => { u with screen := { u.screen with cursorVisible := visible } }

def screenSize : UiM (Nat × Nat) := do
  let s := (← get).screen
  return (s.height, s.width)

def selectedEntry : UiM EntryId := do
  let u ← get
  match u.shown[u.scroller.selected.toNat]? with
  | some i => return i
  | none => throw (.fault .outOfRange)

def positionIn (shown : List EntryId) (i : EntryId) : UiM Int :=
  match shown.findIdx? (· = i) with
  | some k => return (k : Int)
  | none => throw .lost

def shownNow (i : EntryId) : UiM (List EntryId) := do
  computing (shownIn (← get).showAll i)

def upArrow : Char := '↑'

def downArrow : Char := '↓'

def rightArrow : Char := '→'

def arrowCount : Nat := 14

def pageLength : Nat := 6

def withArrows (w : Window) (cond : Bool) (c : Char) : Window :=
  if cond then w.lineRight 0 4 c arrowCount else w

def withLines (w : Window) (lines : List String) : Window :=
  lines.zipIdx.foldl (fun w (line, k) => w.addText k 0 line) w

/-! ## Display -/

def mainHelp : List String :=
  ["[Space/Enter] Toggle/enter  [ESC] Leave menu           [S] Save",
    "[O] Load                    [?] Symbol info            [/] Jump to symbol",
    "[F] Toggle show-help mode   [C] Toggle show-name mode  [A] Toggle show-all mode",
    "[Q] Quit (prompts for save) [D] Save minimal config (advanced)"]

def helpHeight : Nat := 8

def indentStep : Nat := 4

def valueMark (i : EntryId) : EvalM String := do
  let m ← read
  match (m.entry i).subject.item? with
  | none => return ""
  | some x =>
    let kind := m.kindOf x
    if kind = .unknown then return ""
    if !kind.isLogical then return "(" ++ (← itemValue x) ++ ")"
    if ← isSelectable x then
      match x with
      | .symbol s =>
        match (m.symbol s).choice with
        | some c => return if (← choiceSelection c) = some s then "(X)" else "( )"
        | none => return "( )"
      | .choice _ => return "( )"
    let mark := match ← itemTristate x with
      | .no => " "
      | .mod => "M"
      | .yes => "*"
    let assignable ← itemAssignable x
    if assignable.length ≤ 1 then
      match x with
      | .choice _ => return ""
      | .symbol _ => return "-" ++ mark ++ "-"
    if (← itemKind x) = .bool then return "[" ++ mark ++ "]"
    if assignable = [.mod, .yes] then return "\x7b" ++ mark ++ "\x7d"
    return "<" ++ mark ++ ">"

def padded (width : Nat) (s : String) : String :=
  s ++ Text.repeated (width - s.length) " "

def entryLine (showName showAll : Bool) (i : EntryId) : EvalM String := do
  let m ← read
  let e := m.entry i
  let value := padded (3 + indentStep * m.level i) (← valueMark i)
  let name :=
    if e.prompt.isNone || (showName && e.subject.item?.isSome) then
      match e.subject with
      | .symbol s => " <" ++ (m.symbol s).name ++ ">"
      | .choice c => " " ++ (m.choice c).displayName
      | _ => ""
    else ""
  let title ← match e.prompt, e.subject with
    | none, _ => pure ""
    | some (text, _), .comment => pure (" *** " ++ text ++ " ***")
    | some (text, _), .symbol s =>
      pure (" " ++ text ++ (if ← isNew s (m.symbol s).kind then " (NEW)" else ""))
    | some (text, _), _ => pure (" " ++ text)
  let selected := match ← selectedPrompt? i with
    | some p => " (" ++ p ++ ")"
    | none => ""
  let below ←
    if e.isMenuconfig then
      pure (if (← shownIn showAll i).isEmpty then "  ----" else "  --->")
    else pure ""
  return value ++ name ++ title ++ selected ++ below

def middle (width : Nat) (s : String) : Nat :=
  (width - s.length) / 2

def drawTop : UiM Unit := do
  let u ← get
  let title := ((u.session.model.entry Model.top).prompt.map Prod.fst).getD ""
  let w := withArrows u.topWindow.erase (u.scroller.top > 0) upArrow
  let w := w.addText 0 (middle u.screen.width title) title
  modify fun u => { u with topWindow := w }
  showWindow w

def drawEntries : Int → List EntryId → Window → UiM Window
  | _, [], w => return w
  | k, i :: is, w => do
    let u ← get
    let visible ← computing (isVisible i)
    let isSelected := k = u.scroller.selected
    let part :=
      if visible || !u.showAll then if isSelected then "selection" else "list"
      else if isSelected then "inv-selection" else "inv-list"
    let line ← computing (entryLine u.showName u.showAll i)
    drawEntries (k + 1) is
      (w.addText (k - u.scroller.top).toNat 0 line (some (u.styles.attr part)))

def drawMenu : UiM Unit := do
  let u ← get
  let entries := (u.shown.drop u.scroller.top.toNat).take u.menuWindow.height
  let w ← drawEntries u.scroller.top entries u.menuWindow.erase
  modify fun u => { u with menuWindow := w }
  showWindow w

def drawBottom : UiM Unit := do
  let u ← get
  let isScrolled := u.scroller.top < Scroller.maxTop u.shown.length u.menuWindow.height
  let w := withArrows u.bottomWindow.erase isScrolled downArrow
  let modes :=
    (if u.showHelp then ["show-help (toggle with [F])"] else []) ++
      (if u.showName then ["show-name"] else []) ++ (if u.showAll then ["show-all"] else [])
  let text := String.intercalate " and " modes ++ " mode enabled"
  let w := if modes.isEmpty then w else w.addText 0 (u.screen.width - text.length - 2) text
  modify fun u => { u with bottomWindow := w }
  showWindow w

def helpLines : UiM (List String) := do
  let u ← get
  if u.showHelp then
    let e := u.session.model.entry (← selectedEntry)
    match e.subject.item?, e.help with
    | some _, some h =>
      if h.isEmpty then return ["(no help)"]
      else return (Text.Wrap.lines u.helpWindow.width h).take u.helpWindow.height
    | _, _ => return ["(no help)"]
  else return mainHelp

def drawHelp : UiM Unit := do
  let lines ← helpLines
  let w := withLines (← get).helpWindow.erase lines
  modify fun u => { u with helpWindow := w }
  showWindow w

def arrowMark : String := String.singleton (Char.ofNat 0)

def drawPath : UiM Unit := do
  let u ← get
  let m := u.session.model
  let titles := "(Top)" :: (m.path u.menu).map m.pathTitle
  let text := String.intercalate (" " ++ arrowMark ++ " ") titles
  let text := Text.dropFirst (text.length - u.screen.width) text
  let w := match Text.splitOn text arrowMark with
    | [] => u.pathWindow.erase
    | first :: rest =>
      rest.foldl (fun w s => (w.addChar rightArrow).addTextHere s)
        (u.pathWindow.erase.addTextHere first)
  modify fun u => { u with pathWindow := w }
  showWindow w

def drawMain : UiM Unit := do
  drawTop
  drawMenu
  drawBottom
  drawHelp
  drawPath

def resizeMain : UiM Unit :=
  modify fun u =>
    let (height, width) := (u.screen.height, u.screen.width)
    let help := if u.showHelp then helpHeight else mainHelp.length
    let line (w : Window) : Window := w.resize 1 width
    let u := { u with
      pathWindow := line u.pathWindow
      topWindow := line u.topWindow
      bottomWindow := line u.bottomWindow }
    if height ≥ help + 4 then
      let menu := height - help - 3
      { u with
        menuWindow := (u.menuWindow.resize menu width).moveTo 2 0
        helpWindow := (u.helpWindow.resize help width).moveTo (2 + menu + 1) 0
        topWindow := u.topWindow.moveTo 1 0
        bottomWindow := u.bottomWindow.moveTo (2 + menu) 0
        scroller := u.scroller.fitted menu }
    else
      { u with
        menuWindow := (u.menuWindow.resize 1 width).moveTo 0 0
        helpWindow := (u.helpWindow.resize 1 width).moveTo 0 0
        topWindow := u.topWindow.moveTo 0 0
        bottomWindow := u.bottomWindow.moveTo 0 0
        scroller := u.scroller.fitted 1 }

/-!
## Moving about in the menu

Entering a menu, leaving it, and jumping to an entry change which entries are shown.  The selected
entry keeps its row on the screen where that is possible.
-/

def centerSelected : UiM Unit :=
  modify fun u =>
    { u with scroller := u.scroller.centered u.shown.length u.menuWindow.height }

def selectChosen : UiM Unit := do
  let u ← get
  let m := u.session.model
  match (m.entry u.menu).subject with
  | .choice c =>
    match ← computing (choiceSelection c) with
    | none => return ()
    | some s =>
      match (m.symbol s).entries.find? u.shown.contains with
      | none => return ()
      | some k =>
        let position ← positionIn u.shown k
        modify fun u => { u with scroller := { u.scroller with selected := position } }
        centerSelected
  | _ => return ()

def enterMenu (i : EntryId) : UiM Bool := do
  let e := (← theModel).entry i
  if !e.isMenuconfig then return false
  let below ← shownNow i
  if below.isEmpty then return false
  modify fun u =>
    { u with
      rowsAbove := u.scroller.row :: u.rowsAbove
      menu := i
      shown := below
      scroller := .first }
  selectChosen
  return true

def leaveMenu : UiM Unit := do
  let u ← get
  if u.menu = Model.top then return ()
  let above := u.session.model.menuAbove u.menu
  let shown ← shownNow above
  modify fun u => { u with shown }
  let position ← positionIn shown u.menu
  modify fun u =>
    { u with menu := above, scroller := { u.scroller with selected := position } }
  match u.rowsAbove with
  | row :: rest =>
    modify fun u =>
      { u with
        rowsAbove := rest
        scroller := .inRow position (min row ((u.menuWindow.height : Int) - 1)) }
  | [] => centerSelected

/-- Shows all entries, or only the visible ones.  Where no entry is visible all stay shown. -/
def toggleShowAll : UiM Unit := do
  let row := (← get).scroller.row
  modify fun u => { u with showAll := !u.showAll }
  let u ← get
  let shown ← shownNow u.menu
  let position := u.scroller.selected.toNat
  let before := (u.shown.take (position + 1)).reverse
  let behind := u.shown.drop (position + 1)
  match (before ++ behind).find? shown.contains with
  | none => modify fun u => { u with showAll := true }
  | some k =>
    let position ← positionIn shown k
    modify fun u => { u with shown, scroller := .inRow position row }

def firstInside? (m : Model) (i : EntryId) : Option EntryId :=
  match (m.entry i).subject, m.childrenOf i with
  | .choice _, k :: _ => some k
  | .menu, k :: _ => some k
  | _, _ => none

/-- Selects an entry that is shown.  Inside a menu that was jumped to only what is visible is shown,
unless all was before. -/
def arriveAt (isInside wasAll : Bool) (entry : EntryId) : UiM Unit := do
  let position ← positionIn (← get).shown entry
  modify fun u => { u with scroller := { u.scroller with selected := position } }
  if isInside && !wasAll && (← get).showAll then toggleShowAll
  centerSelected
  if isInside then selectChosen

def jumpTo (i : EntryId) : UiM Unit := do
  modify fun u => { u with rowsAbove := [] }
  let u ← get
  let m := u.session.model
  let wasAll := u.showAll
  let target := firstInside? m i
  let menu := if target.isSome then i else m.menuAbove i
  let entry := target.getD i
  modify fun u => { u with menu }
  let shown ← shownNow menu
  modify fun u => { u with shown }
  if !shown.contains entry then
    modify fun u => { u with showAll := true }
    let shown ← shownNow menu
    modify fun u => { u with shown }
  arriveAt target.isSome wasAll entry

/-- Shows what is to be shown after a change of values; the selected entry stays selected. -/
def updateMenu : UiM Unit := do
  let row := (← get).scroller.row
  let selected ← selectedEntry
  let shown ← shownNow (← get).menu
  modify fun u => { u with shown }
  let position ← positionIn shown selected
  modify fun u => { u with scroller := .inRow position row }

def selectNext : UiM Unit :=
  modify fun u =>
    if u.scroller.selected < (u.shown.length : Int) - 1 then
      { u with scroller := u.scroller.next u.shown.length u.menuWindow.height }
    else u

def selectPrevious : UiM Unit :=
  modify fun u =>
    if u.scroller.selected > 0 then { u with scroller := u.scroller.previous } else u

def times (n : Nat) (x : UiM Unit) : UiM Unit :=
  (List.range n).forM fun _ => x

def assignValue (x : Item) (text : String) : UiM Unit := do
  if (← computing (itemValue x)) ≠ text then
    match x with
    | .symbol s => discard (computing (setSymbol true s (.text text)))
    | .choice c => discard (computing (setChoice c (.text text)))
    modify fun u => { u with isChanged := true }
    updateMenu

def assignSelected (t : Tristate) : UiM Unit := do
  match ((← theModel).entry (← selectedEntry)).subject.item? with
  | none => return ()
  | some x =>
    if (← computing (itemAssignable x)).contains t then assignValue x t.letter

end Buildsmith.Console
