import Buildsmith.Console.Display

/-!
# Dialogs

A dialog floats above the main display, which is drawn behind it.  One kind waits for one of some
keys, the other for a line of text.
-/

namespace Buildsmith.Console

open Kconfig Terminal Text

def withFrame (w : Window) (attr : Attr) (title : String) : Window :=
  let w := w.attrOn attr
  let w := w.lineRight 0 0 ' ' w.width
  let w := w.lineRight (w.height - 1) 0 ' ' w.width
  let w := w.lineDown 0 0 ' ' w.height
  let w := w.lineDown 0 (w.width - 1) ' ' w.height
  let w := w.addText 0 (middle w.width title) title
  w.attrOff attr

def placed (w : Window) (height width : Nat) : UiM Window := do
  let (screenHeight, screenWidth) ← screenSize
  let height := min height screenHeight
  let width := min width screenWidth
  return (w.resize height width).moveTo ((screenHeight - height) / 2) ((screenWidth - width) / 2)

def longest (lines : List String) : Nat :=
  (lines.map String.length).foldl max 0

/-- A key dialog: what it shows and which keys close it. -/
structure KeyDialog where
  title : String
  text : String
  keys : List Char

def KeyDialog.loop (d : KeyDialog) : Nat → Window → UiM (Option Char)
  | 0, _ => throw .outOfKeys
  | fuel + 1, w => do
    drawMain
    let lines := splitOn d.text "\n"
    let drawn := lines.zipIdx.foldl (fun w (line, k) => w.addText (2 + k) 2 line) w.erase
    let w := withFrame drawn ((← get).styles.attr "frame") d.title
    showWindow w
    match ← nextKey with
    | .resize =>
      resizeMain
      d.loop fuel (← placed w (lines.length + 4) (longest lines + 4))
    | .char c =>
      if c = escapeChar then return none
      else
        match lowerChar c with
        | [l] => if d.keys.contains l then return some l else d.loop fuel w
        | _ => d.loop fuel w
    | _ => d.loop fuel w

def KeyDialog.run (d : KeyDialog) : UiM (Option Char) := do
  let lines := splitOn d.text "\n"
  let w ← placed (← styledWindow "body") (lines.length + 4) (longest lines + 4)
  d.loop (← keysLeft) w

def showMessage (title text : String) : UiM Unit :=
  discard (KeyDialog.run { title, text, keys := [' ', '\n'] })

def showError (text : String) : UiM Unit :=
  showMessage "Error" text

/-- A dialog for a line of text. -/
structure InputDialog where
  title : String
  info : Option String := none

namespace InputDialog

def minWidth : Nat := 30

def infoLines (d : InputDialog) : List String :=
  match d.info with
  | some s => if s.isEmpty then [] else splitOn s "\n"
  | none => []

def resized (d : InputDialog) (w : Window) : UiM Window :=
  let lines := d.infoLines
  let height := 5 + (if lines.isEmpty then 0 else lines.length + 1)
  placed w height (max minWidth (max (d.title.length + 4) (longest lines + 4)))

def boxWidth (w : Window) : Int := (w.width : Int) - 4

def draw (d : InputDialog) (b : TextBox) (w : Window) : UiM Window := do
  let styles := (← get).styles
  let text := b.visible (boxWidth w)
  let w' := w.erase.addText 2 2
    (text ++ repeated (boxWidth w - text.length).toNat " ") (some (styles.attr "edit"))
  let w' := d.infoLines.zipIdx.foldl (fun w (line, k) => w.addText (4 + k) 2 line) w'
  let w' := withFrame w' (styles.attr "frame") d.title
  let w' := w'.moveCursor 2 (2 + b.position - b.hidden)
  showWindow w'
  return w'

def loop (d : InputDialog) : Nat → TextBox → Window → UiM (Option String)
  | 0, _, _ => throw .outOfKeys
  | fuel + 1, b, w => do
    drawMain
    let w ← d.draw b w
    match ← nextKey with
    | .resize =>
      resizeMain
      d.loop fuel b (← d.resized w)
    | k =>
      if k = .char '\n' then
        setCursor false
        return some b.toString
      else if k = .char escapeChar then
        setCursor false
        return none
      else d.loop fuel (b.press k (boxWidth w)) w

def run (d : InputDialog) (initial : String) : UiM (Option String) := do
  let w ← d.resized (← styledWindow "body")
  setCursor true
  d.loop (← keysLeft) (.ofText initial (boxWidth w)) w

end InputDialog

def pathInfo : UiM String := do
  let cwd := Path.render (← get).session.workspace.cwd
  return "(Relative to " ++ Path.join cwd "" ++ ")\n\nRefer to your home directory with ~"

def expandHome (w : Workspace) (path : String) : String :=
  match path.toList with
  | '~' :: rest =>
    if rest.isEmpty || rest.head? = some '/' then
      let home := (w.getEnv? "HOME").getD "/root"
      let trimmed := String.ofList (home.toList.reverse.dropWhile (· = '/')).reverse
      let full := trimmed ++ String.ofList rest
      if full.isEmpty then "/" else full
    else path
  | _ => path

def saveTo (kind : Saving) (path : String) : UiM (Option String) := do
  match ← onSession (trySave kind path) with
  | .ok text => return some text
  | .error (cause, failed) =>
    showError ("Error saving " ++ kind.description ++ " to '" ++ failed ++ "'\n\n" ++ cause.inWords)
    return none

def saveDialog (kind : Saving) : Nat → String → UiM (Option String)
  | 0, _ => throw .outOfKeys
  | fuel + 1, path => do
    let dialog : InputDialog :=
      { title := "Filename to save " ++ kind.description ++ " to", info := some (← pathInfo) }
    match ← dialog.run path with
    | none => return none
    | some answer =>
      let path := expandHome (← get).session.workspace answer
      match ← saveTo kind path with
      | some text =>
        showMessage "Success" text
        return some path
      | none => saveDialog kind fuel path

/-- Loads a file and shows what is to be shown then; gives the cause if the file cannot be opened. -/
def loadFrom (path : String) : UiM (Except FileCause Unit) := do
  match ← onSession (tryLoad path) with
  | .error cause => return .error cause
  | .ok _ =>
    modify fun u => { u with configName := path }
    let outdated ← onSession isOutdated
    modify fun u => { u with isChanged := outdated }
    let selected ← selectedEntry
    if !(← shownNow (← get).menu).contains selected then
      modify fun u => { u with showAll := true }
    updateMenu
    return .ok ()

def loadLoop : Nat → String → UiM Unit
  | 0, _ => throw .outOfKeys
  | fuel + 1, path => do
    let dialog : InputDialog := { title := "File to load", info := some (← pathInfo) }
    match ← dialog.run path with
    | none => return ()
    | some answer =>
      let path := expandHome (← get).session.workspace answer
      match ← loadFrom path with
      | .error cause =>
        showError ("Error loading '" ++ path ++ "'\n\n" ++ cause.inWords)
        loadLoop fuel path
      | .ok _ => showMessage "Success" ("Loaded " ++ path)

def loadDialog : UiM Unit := do
  let goesOn ←
    if (← get).isChanged then do
      let answer ← KeyDialog.run
        { title := "Load"
          text := "You have unsaved changes. Load new\nconfiguration anyway?\n\n" ++
            "         (O)K  (C)ancel"
          keys := ['o', 'c'] }
      pure (decide (answer = some 'o'))
    else pure true
  if goesOn then loadLoop (← keysLeft) (← get).configName

def quitLoop : Nat → UiM (Option String)
  | 0 => throw .outOfKeys
  | fuel + 1 => do
    let answer ← KeyDialog.run
      { title := "Quit"
        text := " Save configuration?\n\n(Y)es  (N)o  (C)ancel"
        keys := ['y', 'n', 'c'] }
    let path := (← get).configName
    match answer with
    | some 'y' =>
      match ← saveTo .full path with
      | some text => return some text
      | none => quitLoop fuel
    | some 'n' => return some ("Configuration (" ++ path ++ ") was not saved")
    | _ => return none

def quitDialog : UiM (Option String) := do
  let u ← get
  if !u.isChanged then return some ("No changes to save (for '" ++ u.configName ++ "')")
  quitLoop (← keysLeft)

/-- The range that is shown when a value is asked for; choices that are numbers have none to show. -/
def rangeInfo (x : Item) : UiM (Option String) := do
  match x with
  | .symbol s => computing (rangeText? s)
  | .choice _ => if ((← theModel).kindOf x).isNumeric then throw (.fault .inapplicable) else return none

def problemWith? (x : Item) (text : String) : UiM (Option InputProblem) :=
  match x with
  | .symbol s => computing (inputProblem? s text)
  | .choice _ => return none

def valueLoop (x : Item) (title : String) : Nat → String → UiM Unit
  | 0, _ => throw .outOfKeys
  | fuel + 1, text => do
    let kind := (← theModel).kindOf x
    let range ← rangeInfo x
    match ← InputDialog.run { title, info := range } text with
    | none => return ()
    | some answer =>
      let text := if kind.isNumeric then trim answer else answer
      let text :=
        if kind = .hex && !(startsWith text "0x" || startsWith text "0X") then
          "0x" ++ text
        else text
      match ← problemWith? x text with
      | none => assignValue x text
      | some p =>
        showError p.message
        valueLoop x title fuel text

def assignNext (x : Item) : UiM Unit := do
  match ← computing (itemAssignable x) with
  | [t] => assignValue x t.letter
  | assignable =>
    let present ← computing (itemTristate x)
    match assignable.findIdx? (· = present) with
    | none => throw .lost
    | some k =>
      match assignable[(k + 1) % assignable.length]? with
      | some t => assignValue x t.letter
      | none => throw .lost

def changeEntry (i : EntryId) : UiM Bool := do
  if !(← computing (isChangeable i)) then return false
  let m ← theModel
  let e := m.entry i
  match e.subject.item? with
  | none => return false
  | some x =>
    let kind := m.kindOf x
    if kind = .string || kind.isNumeric then
      let value ← computing (itemValue x)
      let title := (e.prompt.map Prod.fst).getD "" ++ " (" ++ kind.name ++ ")"
      valueLoop x title (← keysLeft) value
    else assignNext x
    if ← computing (isSelectable x) then
      if (m.childrenOf i).isEmpty then leaveMenu
    return true

/-!
## Information and search

Two displays fill the whole screen: one shows all about an entry, the other lists entries that
match what is typed.  Each word that is typed is a pattern, and an entry is listed if all patterns
are found in its name or its prompt.
-/

def infoHelp : List String :=
  ["[ESC/q] Return to menu      [/] Jump to symbol"]

def searchHelp : List String :=
  ["Type text to narrow the search. Regexes are supported (via Python's 're'",
    "module). The up/down cursor keys step in the list. [Enter] jumps to the",
    "selected symbol. [ESC] aborts the search. Type multiple space-separated",
    "strings/regexes to find entries that match all of them. Type Ctrl-F to",
    "view the help of the selected item without leaving the dialog."]

/-- The windows of a display that fills the screen. -/
structure Panes where
  head : Window
  body : Window
  separator : Window
  help : Window

def Panes.drawLower (p : Panes) (isScrolled : Bool) (lines : List String) : UiM Unit := do
  showWindow (withArrows p.separator.erase isScrolled downArrow)
  showWindow (withLines p.help.erase lines)

def Panes.fitInfo (p : Panes) : UiM Panes := do
  let (height, width) ← screenSize
  let help := infoHelp.length
  let head := p.head.resize 1 width
  let separator := p.separator.resize 1 width
  if height ≥ help + 3 then
    let body := height - help - 2
    return {
      head
      body := (p.body.resize body width).moveTo 1 0
      separator := separator.moveTo (1 + body) 0
      help := (p.help.resize help width).moveTo (1 + body + 1) 0 }
  else
    return {
      head
      body := (p.body.resize 1 width).moveTo 0 0
      separator := separator.moveTo 0 0
      help := (p.help.resize 1 width).moveTo 0 0 }

def drawInfo (title : String) (lines : List String) (top : Nat) (p : Panes) : UiM Unit := do
  showWindow (withLines p.body.erase ((lines.drop top).take p.body.height))
  p.drawLower ((top : Int) < Scroller.maxTop lines.length p.body.height) infoHelp
  let head := withArrows p.head.erase (top > 0) upArrow
  showWindow (head.addText 0 (middle p.body.width title) title)

/-- What a key does in the information display. -/
inductive InfoStep where
  | scroll (top : Nat)
  | refit
  | search
  | leave
  | stay

/-- What a key does in the information display, given the first line shown and the last one that
can be. -/
def infoStep (top maxTop : Nat) : Key → InfoStep
  | .resize => .refit
  | .down => .scroll (if top < maxTop then top + 1 else top)
  | .up => .scroll (top - 1)
  | .pageDown => .scroll (min (top + pageLength) maxTop)
  | .pageUp => .scroll (top - pageLength)
  | .endKey => .scroll maxTop
  | .home => .scroll 0
  | .left => .leave
  | .backspace => .leave
  | .char c =>
    if c = 'j' || c = 'J' then .scroll (if top < maxTop then top + 1 else top)
    else if c = 'k' || c = 'K' then .scroll (top - 1)
    else if c = control 'D' then .scroll (min (top + pageLength) maxTop)
    else if c = control 'U' then .scroll (top - pageLength)
    else if c = 'G' then .scroll maxTop
    else if c = 'g' then .scroll 0
    else if c = '/' then .search
    else if [eraseChar, escapeChar, 'q', 'Q', 'h', 'H'].contains c then .leave
    else .stay
  | _ => .stay

/-- Shows information until it is left; a search that jumps somewhere leaves it, too. -/
def infoLoop (search : Option (UiM Bool)) (title : String) (lines : List String) :
    Nat → Nat → Panes → UiM Unit
  | 0, _, _ => throw .outOfKeys
  | fuel + 1, top, p => do
    drawInfo title lines top p
    let maxTop := (Scroller.maxTop lines.length p.body.height).toNat
    match infoStep top maxTop (← nextKey) with
    | .scroll top => infoLoop search title lines fuel top p
    | .refit => infoLoop search title lines fuel top (← p.fitInfo)
    | .stay => infoLoop search title lines fuel top p
    | .leave => return ()
    | .search =>
      match search with
      | none => return ()
      | some x =>
        if ← x then return ()
        else infoLoop search title lines fuel top (← p.fitInfo)

/-- Shows all about an entry.  A search can be started from there if one is given. -/
def infoDialog (search : Option (UiM Bool)) (i : EntryId) : UiM Unit := do
  let panes : Panes :=
    { head := ← styledWindow "separator"
      body := ← styledWindow "text"
      separator := ← styledWindow "separator"
      help := ← styledWindow "help" }
  let p ← panes.fitInfo
  let text ← computing (terminalInfo i)
  let title := (match ((← theModel).entry i).subject with
    | .symbol _ => "Symbol"
    | .choice _ => "Choice"
    | .menu => "Menu"
    | .comment => "Comment") ++ " information"
  infoLoop search title (splitOn text "\n") (← keysLeft) 0 p

/-- The state of a search. -/
structure Search where
  box : TextBox := {}
  /-- What is wrong with a pattern. -/
  problem : Option String := none
  matches_ : List EntryId := []
  scroller : Scroller := {}
  deriving Inhabited

def searchPatterns (s : String) : Except Text.Pattern.PatternFault (List Text.Pattern.Compiled) :=
  (words (lower s)).mapM (Text.Pattern.compile {})

def Model.isFoundIn (m : Model) (p : Text.Pattern.Compiled) (i : EntryId) : Bool :=
  let e := m.entry i
  let name := match e.subject with
    | .symbol s => some (m.symbol s).name
    | .choice c => (m.choice c).name
    | _ => none
  let isIn (s : String) : Bool := (p.search? (lower s)).isSome
  (match name with | some n => !n.isEmpty && isIn n | none => false) ||
    (match e.prompt with | some (text, _) => isIn text | none => false)

def searchFor (box : TextBox) : UiM Search := do
  match searchPatterns box.toString with
  | .ok patterns =>
    let r := (← get).session.reading
    let m := r.model
    let all := m.searchOrder ++ m.sortedByPrompt r.menus ++ m.sortedByPrompt r.comments
    return { box, matches_ := all.filter fun i => patterns.all fun p => Model.isFoundIn m p i }
  | .error f =>
    match Fault.ofPattern f with
    | .badPattern => return { box, problem := some ("Bad regular expression: " ++ f.message) }
    | fault => throw (.fault fault)

def Panes.fitSearch (p : Panes) (s : Scroller) : UiM (Panes × Scroller) := do
  let (height, width) ← screenSize
  let help := searchHelp.length
  let separator := p.separator.resize 1 width
  if height ≥ help + 5 then
    let body := height - help - 4
    return ({
      head := p.head.resize 3 width
      body := (p.body.resize body width).moveTo 3 0
      separator := separator.moveTo (3 + body) 0
      help := (p.help.resize help width).moveTo (3 + body + 1) 0 }, s.fitted body)
  else
    return ({
      head := p.head.resize height width
      body := (p.body.resize 1 width).moveTo 0 0
      separator := separator.moveTo 0 0
      help := (p.help.resize 1 width).moveTo 0 0 }, s.fitted 1)

def matchLine (i : EntryId) : EvalM String := do
  let m ← read
  let e := m.entry i
  let title := (e.prompt.map Prod.fst).getD ""
  match e.subject with
  | .menu => return "menu \"" ++ title ++ "\""
  | .comment => return "comment \"" ++ title ++ "\""
  | s =>
    let name ← match s.item? with
      | some x => valuedName x
      | none => pure ""
    return if e.prompt.isSome then name ++ " \"" ++ title ++ "\"" else name

def drawMatches (s : Scroller) : Int → List EntryId → Window → UiM Window
  | _, [], w => return w
  | k, i :: is, w => do
    let line ← computing (matchLine i)
    let part := if k = s.selected then "selection" else "list"
    drawMatches s (k + 1) is
      (w.addText (k - s.top).toNat 0 line (some ((← get).styles.attr part)))

def searchWidth (p : Panes) : Int := (p.head.width : Int) - 2

def drawSearchFrame (s : Search) (p : Panes) : UiM Unit := do
  p.drawLower (s.scroller.top < Scroller.maxTop s.matches_.length p.body.height) searchHelp
  let frame := (← get).styles.attr "frame"
  let head := withFrame p.head.erase frame "Jump to symbol/choice/menu/comment"
  let head :=
    if s.scroller.top > 0 then head.lineRight 2 4 upArrow arrowCount (some frame) else head
  let head := head.addText 1 1 (s.box.visible (searchWidth p))
  showWindow (head.moveCursor 1 (1 + s.box.position - s.box.hidden))

def drawSearch (s : Search) (p : Panes) : UiM Unit := do
  let body ←
    if s.matches_.isEmpty then
      pure (p.body.erase.addText 0 0 (s.problem.getD "No matches"))
    else
      drawMatches s.scroller s.scroller.top
        ((s.matches_.drop s.scroller.top.toNat).take p.body.height) p.body.erase
  showWindow body
  drawSearchFrame s p

/-- Selects the next match; in an empty list the selection moves all the same. -/
def Search.next (height : Nat) (s : Search) : Search :=
  if s.scroller.selected = (s.matches_.length : Int) - 1 then s
  else { s with scroller := s.scroller.next s.matches_.length height }

def Search.previous (s : Search) : Search :=
  if s.scroller.selected = 0 then s else { s with scroller := s.scroller.previous }

/-- Searches until a match is chosen, which is jumped to, or the search is given up; gives whether
there was a jump. -/
def searchLoop : Nat → Search → Panes → UiM Bool
  | 0, _, _ => throw .outOfKeys
  | fuel + 1, s, p => do
    drawSearch s p
    let k ← nextKey
    let chosen := s.matches_[s.scroller.selected.toNat]?
    let height := p.body.height
    match k with
    | .resize =>
      let (p, scroller) ← p.fitSearch s.scroller
      searchLoop fuel { s with scroller } p
    | .down => searchLoop fuel (s.next height) p
    | .up => searchLoop fuel s.previous p
    | .pageDown => searchLoop fuel (Nat.repeat (Search.next height) pageLength s) p
    | .pageUp => searchLoop fuel (Nat.repeat Search.previous pageLength s) p
    | .endKey => searchLoop fuel { s with scroller := .last s.matches_.length height } p
    | .home => searchLoop fuel { s with scroller := .first } p
    | _ =>
      if k = .char '\n' then
        match chosen with
        | some i =>
          jumpTo i
          setCursor false
          return true
        | none => searchLoop fuel s p
      else if k = .char escapeChar then
        setCursor false
        return false
      else if k = .char (control 'F') then
        match chosen with
        | some i =>
          setCursor false
          infoDialog none i
          setCursor true
          let (p, scroller) ← p.fitSearch s.scroller
          searchLoop fuel { s with scroller } p
        | none => searchLoop fuel s p
      else if k = .char (control 'D') then
        searchLoop fuel (Nat.repeat (Search.next height) pageLength s) p
      else
        let box := s.box.press k (searchWidth p)
        if box.text = s.box.text then searchLoop fuel { s with box } p
        else searchLoop fuel (← searchFor box) p

def searchDialog : UiM Bool := do
  let panes : Panes :=
    { head := ← styledWindow "jump-edit"
      body := ← styledWindow "list"
      separator := ← styledWindow "separator"
      help := ← styledWindow "help" }
  let (p, _) ← panes.fitSearch {}
  setCursor true
  searchLoop (← keysLeft) (← searchFor {}) p

end Buildsmith.Console
