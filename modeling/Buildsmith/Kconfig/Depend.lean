import Buildsmith.Kconfig.Describe

/-!
# Dependents and dependency loops

The dependents of an item are the items whose values may change when its value does.  A search
along them finds items that depend on themselves.

A choice and its symbols depend on each other by nature.  The search enters a choice from one of
its symbols without coming back to that symbol, and leaves a choice to its symbols without coming
back to the choice at once.
-/

namespace Buildsmith.Kconfig

def insertNew (x : Item) (xs : List Item) : List Item :=
  if xs.contains x then xs else xs ++ [x]

namespace Model

def addDependent (dependent : Item) (m : Model) (on : Item) : Model :=
  match on with
  | .symbol s =>
    if (m.symbol s).isConstant then m
    else { m with symbolDependents := m.symbolDependents.modify s (insertNew dependent) }
  | .choice c => { m with choiceDependents := m.choiceDependents.modify c (insertNew dependent) }

def dependOn (dependent : Item) (m : Model) (e : Expr) : Model :=
  e.items.foldl (addDependent dependent) m

def promptConditions (m : Model) (i : Item) : List Expr :=
  (m.entriesOf i).filterMap fun k => (m.entry k).prompt.map Prod.snd

def symbolSources (m : Model) (i : SymbolId) : List Expr :=
  let s := m.symbol i
  m.promptConditions (.symbol i) ++
    (s.defaults.flatMap fun (value, cond) => [value, cond]) ++
    [s.reverseDep, s.weakReverseDep] ++
    (s.ranges.flatMap fun (low, high, cond) => [.symbol low, .symbol high, cond]) ++
    [s.directDep]

/-- The conditions that a choice's mode and selection are computed from. -/
def choiceSources (m : Model) (i : ChoiceId) : List Expr :=
  m.promptConditions (.choice i) ++ (m.choice i).defaults.map Prod.snd

def withDependents (m : Model) : Model :=
  let m := { m with
    symbolDependents := Array.replicate m.symbols.size []
    choiceDependents := Array.replicate m.choices.size [] }
  let m := m.uniqueDefined.foldl
    (fun m i => (m.symbolSources i).foldl (dependOn (.symbol i)) m) m
  m.uniqueChoices.foldl (fun m i => (m.choiceSources i).foldl (dependOn (.choice i)) m) m

def withChoiceDependents (m : Model) : Model :=
  m.uniqueChoices.foldl
    (fun m c => (m.choice c).symbols.foldl
      (fun m s => { m with symbolDependents := m.symbolDependents.modify s (insertNew (.choice c)) })
      m) m

end Model

/-- How far the search has come with an item. -/
inductive Mark where
  | fresh
  | underWay
  | finished
  deriving DecidableEq, Repr, Inhabited

/-- The marks of all items. -/
structure Marks where
  symbols : Array Mark
  choices : Array Mark

def Marks.get (ms : Marks) : Item → Mark
  | .symbol i => ms.symbols.getD i .fresh
  | .choice i => ms.choices.getD i .fresh

def Marks.set (ms : Marks) (x : Mark) : Item → Marks
  | .symbol i => { ms with symbols := ms.symbols.setIfInBounds i x }
  | .choice i => { ms with choices := ms.choices.setIfInBounds i x }

/-- A search stops with a whole loop; before that it gives the part found so far. -/
abbrev LoopM := ExceptT (List Item) (StateM Marks)

def closeLoop (found : List Item) (cur : Item) : LoopM (Option (List Item)) :=
  if found.head? = some cur then throw found else return some (found ++ [cur])

def firstLoop {α : Type} (search : α → LoopM (Option (List Item))) :
    List α → LoopM (Option (List Item))
  | [] => return none
  | x :: xs => do
    match ← search x with
    | some found => return some found
    | none => firstLoop search xs

/-- Where a search goes on from an item. -/
inductive Step where
  | symbol (i : SymbolId) (ignoreChoice : Bool)
  | choice (i : ChoiceId) (skip : Option SymbolId)

def Step.item : Step → Item
  | symbol i _ => .symbol i
  | choice i _ => .choice i

def Model.stepsFrom (m : Model) : Step → List Step
  | .symbol i ignoreChoice =>
    ((m.dependentsOf (.symbol i)).map fun d =>
      match d with
      | .symbol s => Step.symbol s false
      | .choice c => Step.choice c none) ++
    (match (m.symbol i).choice with
      | some c => if ignoreChoice then [] else [Step.choice c (some i)]
      | none => [])
  | .choice c skip =>
    ((m.choice c).symbols.filter fun s => skip ≠ some s).map fun s => Step.symbol s true

def searchLoop (m : Model) : Nat → Step → LoopM (Option (List Item))
  | 0, _ => return none
  | fuel + 1, step => do
    let item := step.item
    match (← get).get item with
    | .finished => return none
    | .underWay => return some [item]
    | .fresh =>
      modify (·.set .underWay item)
      match ← firstLoop (searchLoop m fuel) (m.stepsFrom step) with
      | some found => closeLoop found item
      | none =>
        modify (·.set .finished item)
        return none

def Model.findLoop? (m : Model) : Option (List Item) :=
  let fuel := m.symbols.size + m.choices.size + 1
  let search : LoopM (Option (List Item)) :=
    firstLoop (fun i => searchLoop m fuel (.symbol i false)) m.uniqueDefined
  let start : Marks :=
    { symbols := Array.replicate m.symbols.size .fresh
      choices := Array.replicate m.choices.size .fresh }
  match (search.run start).1 with
  | .error found => some found
  | .ok _ => none

def Model.loopItemText (m : Model) (first : Bool) (i : Item) : String :=
  let isChoiceSymbol := match i with
    | .symbol s => (m.symbol s).choice.isSome
    | .choice _ => false
  let lead :=
    if first then "" else "...depends on " ++ (if isChoiceSymbol then "the choice symbol " else "")
  let reverse := match i with
    | .choice _ => ""
    | .symbol s =>
      let x := m.symbol s
      (if x.reverseDep ≠ .no then
        "(select-related dependencies: " ++ m.exprText x.reverseDep ++ ")\n\n" else "") ++
      (if x.weakReverseDep ≠ .no then
        "(imply-related dependencies: " ++ m.exprText x.reverseDep ++ ")\n\n" else "")
  lead ++ m.nameAndPlaces i ++ ", with definition...\n\n" ++ m.itemText i ++ "\n\n" ++ reverse

def Model.loopText (m : Model) (found : List Item) : String :=
  match found with
  | [] => ""
  | i :: rest =>
    "\nDependency loop\n===============\n\n" ++ m.loopItemText true i ++
      String.join (rest.map fun k => m.loopItemText (k = i) k) ++
      "...depends again on " ++ m.nameAndPlaces i

end Buildsmith.Kconfig
