import Buildsmith.Kconfig.Eval

/-!
# Browsing the menu

Which entries of a menu are shown depends on their prompts, and on whether all entries are to be
shown.  A symbol that is not visible is shown if entries below it are.

Symbols that define a menu of their own, menus and choices are entered; other symbols have what
depends on them listed below them.
-/

namespace Buildsmith.Kconfig

open Menu

/-- Whether an entry appears in the menu when not all entries are shown. -/
def isVisible (i : EntryId) : EvalM Bool := do
  let e := (← read).entry i
  match e.prompt with
  | none => return false
  | some (_, cond) =>
    if (← exprValue cond) = .no then return false
    if e.subject = .menu then return (← exprValue e.visibility) ≠ .no
    return true

mutual

def Menu.below? (target : EntryId) : Menu → Option (List Menu)
  | .entry i children => if i = target then some children else belowAny? target children

def Menu.belowAny? (target : EntryId) : List Menu → Option (List Menu)
  | [] => none
  | m :: ms =>
    match below? target m with
    | some found => some found
    | none => belowAny? target ms

end

def Model.menusBelow (m : Model) (i : EntryId) : List Menu :=
  if i = Model.top then m.menu else (belowAny? i m.menu).getD []

/-- What is listed together with a menu. -/
structure Listing where
  /-- Whether entries are shown that are not visible. -/
  showAll : Bool
  /-- Whether what stands below an entry is listed with it. -/
  listsBelow : Entry → Bool

def Entry.isSymbol (e : Entry) : Bool :=
  match e.subject with
  | .symbol _ => true
  | _ => false

mutual

def Menu.shown (l : Listing) : Menu → EvalM (List EntryId)
  | .entry i children => do
    let e := (← read).entry i
    let visible ← isVisible i
    if visible || l.showAll then
      if l.listsBelow e then return i :: (← shownAll l children) else return [i]
    else if e.isSymbol then
      let below ← shownAll l children
      if below.isEmpty then return []
      else return i :: (if l.listsBelow e then below else [])
    else return []

def Menu.shownAll (l : Listing) : List Menu → EvalM (List EntryId)
  | [] => return []
  | m :: ms => do
    let a ← shown l m
    let b ← shownAll l ms
    return a ++ b

end

def Listing.single (showAll : Bool) : Listing :=
  { showAll, listsBelow := fun e => !e.isMenuconfig }

def Listing.full (showAll : Bool) : Listing :=
  { showAll, listsBelow := fun e => e.isSymbol }

def listedIn (l : Listing) (i : EntryId) : EvalM (List EntryId) := do
  shownAll l ((← read).menusBelow i)

/-- Adds the entries listed at one definition of a choice to those listed before.  At other
definitions than the one that is entered, symbols that are listed already are left out. -/
def addListed (m : Model) (here : Bool) (acc : List EntryId × List SymbolId) (found : List EntryId) :
    List EntryId × List SymbolId :=
  found.foldl
    (fun (res, seen) i =>
      match (m.entry i).subject with
      | .symbol s => if seen.contains s && !here then (res, seen) else (res ++ [i], s :: seen)
      | _ => (res ++ [i], seen))
    acc

/-- The entries that are shown when an entry is entered.  A choice shows those of all its
definitions. -/
def shownIn (showAll : Bool) (i : EntryId) : EvalM (List EntryId) := do
  let m ← read
  let l := Listing.single showAll
  match (m.entry i).subject with
  | .choice c =>
    let here ← listedIn l i
    let symbols := here.filterMap fun k =>
      match (m.entry k).subject with
      | .symbol s => some s
      | _ => none
    let (res, _) ← (m.choice c).entries.foldlM
      (fun acc k => return addListed m (k = i) acc (← listedIn l k)) ([], symbols)
    return res
  | _ => listedIn l i

/-- The nearest entry above an entry that can be entered; `fuel` bounds the number of levels. -/
def Model.menuAboveFrom (m : Model) : Nat → EntryId → EntryId
  | 0, _ => Model.top
  | fuel + 1, i =>
    match m.parentOf i with
    | none => Model.top
    | some p => if (m.entry p).isMenuconfig then p else m.menuAboveFrom fuel p

def Model.menuAbove (m : Model) (i : EntryId) : EntryId :=
  m.menuAboveFrom m.entries.size i

def Model.levelFrom (m : Model) : Nat → EntryId → Nat
  | 0, _ => 0
  | fuel + 1, i =>
    match m.parentOf i with
    | none => 0
    | some p => if (m.entry p).isMenuconfig then 0 else m.levelFrom fuel p + 1

/-- The number of entries between an entry and the one above it that can be entered. -/
def Model.level (m : Model) (i : EntryId) : Nat :=
  m.levelFrom m.entries.size i

def Model.pathTitle (m : Model) (i : EntryId) : String :=
  let e := m.entry i
  match e.prompt with
  | some (text, _) => text
  | none =>
    match e.subject.item? with
    | some x => m.itemName x
    | none => ""

def Model.pathFrom (m : Model) : Nat → EntryId → List EntryId → List EntryId
  | 0, _, acc => acc
  | fuel + 1, i, acc =>
    if i = Model.top then acc
    else
      match m.parentOf i with
      | some p => m.pathFrom fuel p (i :: acc)
      | none => i :: acc

def Model.path (m : Model) (i : EntryId) : List EntryId :=
  m.pathFrom m.entries.size i []

/-- Whether an item is a symbol in a choice that selects one of its symbols. -/
def isSelectable (i : Item) : EvalM Bool := do
  match i with
  | .symbol s =>
    if ((← read).symbol s).choice.isNone then return false
    return (← symbolVisibility s) = .yes
  | .choice _ => return false

def itemAssignable : Item → EvalM (List Tristate)
  | .symbol i => symbolAssignable i
  | .choice i => choiceAssignable i

def itemValue : Item → EvalM String
  | .symbol i => symbolText i
  | .choice i => return (← choiceMode i).letter

def itemTristate : Item → EvalM Tristate
  | .symbol i => symbolTristate i
  | .choice i => choiceMode i

def itemKind : Item → EvalM Kind
  | .symbol i => symbolKind i
  | .choice i => choiceKindNow i

def isChangeable (i : EntryId) : EvalM Bool := do
  let m ← read
  let e := m.entry i
  match e.subject.item?, e.prompt with
  | some x, some (_, cond) =>
    if (← exprValue cond) = .no then return false
    let kind := m.kindOf x
    if kind = .string || kind.isNumeric then return true
    if (← itemAssignable x).length > 1 then return true
    isSelectable x
  | _, _ => return false

/-- Whether a symbol waits for a user's value: it has a kind and none was assigned, and no choice
decides about it. -/
def isNew (i : SymbolId) (kind : Kind) : EvalM Bool := do
  if (← symbolState i).user.isSome then return false
  if kind = .unknown then return false
  match ((← read).symbol i).choice with
  | some c => return (← choiceMode c) ≠ .yes
  | none => return true

def selectedPrompt? (i : EntryId) : EvalM (Option String) := do
  let m ← read
  match (m.entry i).subject with
  | .choice c =>
    if (← choiceMode c) ≠ .yes then return none
    match ← choiceSelection c with
    | none => return none
    | some s =>
      let entries := (m.symbol s).entries
      let promptAt (k : EntryId) : Option String := (m.entry k).prompt.map Prod.fst
      let here := (entries.filter fun k => m.parentOf k = some i).findSome? promptAt
      match here with
      | some p => return some p
      | none => return entries.findSome? promptAt
  | _ => return none

/-- The entries of symbols and choices in the order in which they are searched: symbols by name,
then choices by prompt and name. -/
def Model.searchOrder (m : Model) : List EntryId :=
  let prompt (i : EntryId) : String := ((m.entry i).prompt.map Prod.fst).getD ""
  let symbols := m.uniqueDefined.mergeSort fun a b => (m.symbol a).name ≤ (m.symbol b).name
  let choices := m.uniqueChoices.mergeSort fun a b =>
    (m.choice a).name.getD "" ≤ (m.choice b).name.getD ""
  symbols.flatMap (fun s => (m.symbol s).entries) ++
    (choices.flatMap fun c => (m.choice c).entries).mergeSort fun a b => prompt a ≤ prompt b

def Model.sortedByPrompt (m : Model) (is : List EntryId) : List EntryId :=
  let prompt (i : EntryId) : String := ((m.entry i).prompt.map Prod.fst).getD ""
  is.mergeSort fun a b => prompt a ≤ prompt b

end Buildsmith.Kconfig
