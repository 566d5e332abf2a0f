import Buildsmith.Kconfig.ConfigFile
import Buildsmith.Kconfig.Info

/-!
# The menu in a window

A window shows each entry as a text beside a picture that tells of its value.
-/

namespace Buildsmith.Kconfig

/-- How the menu is shown. -/
structure WindowMode where
  /-- Whether entries are shown that are not visible. -/
  showAll : Bool := false
  /-- Whether one menu is shown at a time. -/
  singleMenu : Bool := false

def windowText (mode : WindowMode) (i : EntryId) : EvalM String := do
  let m ← read
  let e := m.entry i
  let title ← match e.prompt, e.subject with
    | some (text, _), .comment => pure ("*** " ++ text ++ " ***")
    | some (text, _), .symbol s =>
      if (← symbolState s).user.isNone then
        if ← isNew s (← symbolKind s) then pure (text ++ " (NEW)") else pure text
      else pure text
    | some (text, _), _ => pure text
    | none, .symbol s => pure ("<" ++ (m.symbol s).name ++ ">")
    | none, .choice c => pure (m.choice c).displayName
    | none, _ => pure ""
  let text ← match e.subject with
    | .symbol s =>
      let kind := (m.symbol s).kind
      if kind = .string then pure (title ++ ": " ++ (← symbolText s))
      else if kind.isNumeric then pure ("(" ++ (← symbolText s) ++ ") " ++ title)
      else pure title
    | _ =>
      match ← selectedPrompt? i with
      | some p => pure (title ++ " (" ++ p ++ ")")
      | none => pure title
  if mode.singleMenu && e.isMenuconfig then
    let below ← listedIn (.single mode.showAll) i
    return text ++ (if below.isEmpty then "  ----" else "  --->")
  else return text

def imageTag (i : EntryId) : EvalM String := do
  let m ← read
  match (m.entry i).subject.item? with
  | none => return ""
  | some x =>
    let kind := m.kindOf x
    if kind = .unknown then return ""
    if !kind.isLogical then return "edit"
    if ← isSelectable x then
      match x with
      | .symbol s =>
        match (m.symbol s).choice with
        | some c => return if (← choiceSelection c) = some s then "selected" else "not-selected"
        | none => return "not-selected"
      | .choice _ => return "not-selected"
    let assignable ← itemAssignable x
    if assignable.length ≤ 1 then
      match x with
      | .choice _ => return ""
      | .symbol _ => return (← itemValue x) ++ "-locked"
    if (← itemKind x) = .bool then return (← itemValue x) ++ "-bool"
    let value ← itemValue x
    return value ++ (if assignable = [.mod, .yes] then "-my" else "-tri")

/-- What a window shows of an entry. -/
structure WindowRow where
  text : String
  image : String
  isVisible : Bool
  isChangeable : Bool
  path : String

def windowRow (mode : WindowMode) (i : EntryId) : EvalM WindowRow := do
  let text ← windowText mode i
  let image ← imageTag i
  let visible ← isVisible i
  let changeable ← isChangeable i
  return { text, image, isVisible := visible, isChangeable := changeable
           path := (← read).menuPathText i }

def windowRows (mode : WindowMode) (i : EntryId) : EvalM (List WindowRow × List WindowRow) := do
  let full ← (← listedIn (.full mode.showAll) i).mapM (windowRow mode)
  let single ← (← listedIn (.single mode.showAll) i).mapM (windowRow mode)
  return (full, single)

abbrev Popup := String × String

def checkInput (i : SymbolId) (s : String) : EvalM (Bool × List Popup) := do
  discard (symbolKind i)
  match ← inputProblem? i s with
  | none => return (true, [])
  | some p =>
    let title := match p with
      | .malformed .. => "Bad value"
      | .outOfRange .. => "Value out of range"
    return (false, [(title, p.message)])

def windowLoad (path : String) : SessionM (Bool × List Popup) := do
  match ← tryLoad path with
  | .ok text =>
    sessionPrint text
    return (true, [])
  | .error cause =>
    return (false, [("Error loading configuration",
      "Error loading '" ++ path ++ "': " ++ cause.inWords)])

def windowSave (kind : Saving) (path : String) : SessionM (Bool × List Popup) := do
  match ← trySave kind path with
  | .ok text =>
    sessionPrint text
    return (true, [])
  | .error (cause, failed) =>
    return (false, [("Error saving " ++ kind.description,
      "Error saving " ++ kind.description ++ " to '" ++ failed ++ "': " ++ cause.inWords)])

def searchTexts (mode : WindowMode) (menus comments : List EntryId) : EvalM (List String) := do
  let m ← read
  (m.searchOrder ++ m.sortedByPrompt menus ++ m.sortedByPrompt comments).mapM (windowText mode)

end Buildsmith.Kconfig
