import Buildsmith.Kconfig.Browse
import Buildsmith.Kconfig.Sanity

/-!
# Information about entries

The information about an entry tells of its value, its dependencies with their values, its
defaults, what selects it, and how it is defined.  Symbols in conditions are followed by their
values.
-/

namespace Buildsmith.Kconfig

open String

def valuedName (i : Item) : EvalM String := do
  let m ← read
  match i with
  | .symbol k =>
    let s := m.symbol k
    if s.isConstant || looksNumeric s.name then return m.itemName i
    else if s.entries.isEmpty then return s.name ++ "(undefined/n)"
    else return s.name ++ "(=" ++ (← symbolText k) ++ ")"
  | .choice _ => return m.itemName i

def valuedNames (items : List Item) : EvalM (Item → String) := do
  let m ← read
  let names ← items.mapM fun i => return (i, ← valuedName i)
  return fun i => (names.lookup i).getD (m.itemName i)

def valuedExpr (e : Expr) : EvalM String := do
  return e.render (← valuedNames e.items)

def valueHint (e : Expr) : EvalM String :=
  match e with
  | .item _ => return ""
  | _ => return "  (=" ++ (← exprValue e).letter ++ ")"

def operandLines (indent : Nat) (e : Expr) : EvalM String := do
  let (sign, operands) :=
    if e.conjuncts.length > 1 then ("&&", e.conjuncts) else ("||", e.disjuncts)
  let lines ← operands.zipIdx.mapM fun (operand, k) => do
    let text ← valuedExpr operand
    let hint ← valueHint operand
    return Text.repeated indent " " ++ (if k = 0 then "  " else sign) ++ " " ++ text ++ hint ++ "\n"
  return join lines

def dependencyInfo (dep : Expr) : EvalM String := do
  if dep = .yes then return ""
  let value ← exprValue dep
  return "Direct dependencies (=" ++ value.letter ++ "):\n" ++ (← operandLines 2 dep) ++ "\n"

def defaultInfo (isSymbol : Bool) (d : Expr × Expr) : EvalM String := do
  let m ← read
  let (value, cond) := d
  let head ←
    if isSymbol then do
      let text ← valuedExpr value
      pure (text ++ (← valueHint value))
    else
      match value with
      | .item (.symbol s) => pure (m.symbol s).name
      | _ => throw .inapplicable
  let condition ←
    if cond = .yes then pure ""
    else do
      let v ← exprValue cond
      pure ("    Condition (=" ++ v.letter ++ "):\n" ++ (← operandLines 4 cond))
  return "  - " ++ head ++ "\n" ++ condition

def defaultsInfo (i : Item) : EvalM String := do
  let m ← read
  let defaults := (m.entriesOf i).flatMap fun k => (m.entry k).writtenDefaults
  let (isSymbol, gathered) := match i with
    | .symbol s => (true, (m.symbol s).defaults)
    | .choice c => (false, (m.choice c).defaults)
  if gathered.isEmpty then return ""
  return "Defaults:\n" ++ join (← defaults.mapM (defaultInfo isSymbol)) ++ "\n"

def selectingInfo (e : Expr) (value : Tristate) (title : String) : EvalM String := do
  let m ← read
  let found ← e.disjuncts.filterM fun d => return (← exprValue d) = value
  if found.isEmpty then return ""
  let lines ← found.mapM fun d =>
    match d.conjuncts.headD d with
    | .item (.symbol s) => pure ("  - " ++ (m.symbol s).name ++ "\n")
    | .item (.choice c) => pure ("  - " ++ (m.choice c).name.getD "None" ++ "\n")
    | _ => throw .inapplicable
  return title ++ join lines ++ "\n"

def selectingInfos (i : SymbolId) : EvalM String := do
  let s := (← read).symbol i
  let group (e : Expr) (verb : String) : EvalM String := do
    if e = .no then return ""
    let parts ← [Tristate.yes, .mod, .no].mapM fun t =>
      selectingInfo e t ("Symbols currently " ++ t.letter ++ "-" ++ verb ++ " this symbol" ++
        (if t = .no then " (no effect)" else "") ++ ":\n")
    return join parts
  let selects ← group s.reverseDep "selecting"
  let implies ← group s.weakReverseDep "implying"
  return selects ++ implies

def indentLines (n : Nat) (s : String) : String :=
  intercalate "\n" ((Text.splitOn s "\n").map (Text.repeated n " " ++ ·))

def Model.menuPathText (m : Model) (i : EntryId) : String :=
  "(Top)" ++ join ((m.path i).dropLast.map fun k => " -> " ++ m.pathTitle k)

def Entry.includeText (e : Entry) : String :=
  if e.includePath.isEmpty then ""
  else "Included via " ++ intercalate " -> " (e.includePath.map placeText) ++ "\n"

/-- The items in the definition of an entry, in the order in which they are written. -/
def Entry.mentioned (e : Entry) : List Item :=
  let cond (c : Expr) : List Item := if c ≠ .yes then c.items else []
  match e.subject.item? with
  | some _ =>
    (match e.writtenPrompt with | some (_, c) => cond c | none => []) ++
      (e.writtenRanges.flatMap fun (l, h, c) => .symbol l :: .symbol h :: cond c) ++
      (e.writtenDefaults.flatMap fun (v, c) => v.items ++ cond c) ++
      (e.writtenSelects.flatMap fun (t, c) => .symbol t :: cond c) ++
      (e.writtenImplies.flatMap fun (t, c) => .symbol t :: cond c) ++ cond e.dep
  | none => cond e.dep ++ (if e.subject = .menu then cond e.visibility else [])

def definitionInfo (indent : Nat) (i : EntryId) : EvalM String := do
  if i = Model.top then throw .inapplicable
  let m ← read
  let e := m.entry i
  let name ← valuedNames e.mentioned
  return "\n\nAt " ++ m.placeOf i ++ "\n" ++ e.includeText ++ "Menu path: " ++ m.menuPathText i ++
    "\n\n" ++ indentLines indent (m.entryTextWith name i)

def definitionInfos (indent : Nat) (is : List EntryId) : EvalM String := do
  let title := "Kconfig definition" ++ (if is.length > 1 then "s" else "") ++
    ", with parent deps. propagated to 'depends on'"
  let parts ← is.mapM (definitionInfo indent)
  return title ++ "\n" ++ Text.repeated title.length "=" ++ join parts

def membersInfo (c : ChoiceId) : EvalM String := do
  let m ← read
  let lines ← (m.choice c).symbols.mapM fun s => do
    let mark := if (← choiceSelection c) = some s then " (selected)" else ""
    return "  - " ++ (m.symbol s).name ++ mark ++ "\n"
  return "Choice symbols:\n" ++ join lines ++ "\n"

def Model.helpTexts (m : Model) (i : Item) : List String :=
  (m.entriesOf i).filterMap fun k => (m.entry k).help

def symbolRelations (indent : Nat) (i : SymbolId) : EvalM String := do
  let s := (← read).symbol i
  let dependencies ← dependencyInfo s.directDep
  let defaults ← defaultsInfo (.symbol i)
  let selecting ← selectingInfos i
  return dependencies ++ defaults ++ selecting ++ (← definitionInfos indent s.entries)

def choiceRelations (indent : Nat) (i : ChoiceId) : EvalM String := do
  let c := (← read).choice i
  let members ← membersInfo i
  let dependencies ← dependencyInfo c.directDep
  let defaults ← defaultsInfo (.choice i)
  return members ++ dependencies ++ defaults ++ (← definitionInfos indent c.entries)

def terminalInfo (i : EntryId) : EvalM String := do
  let m ← read
  let names (name : Option String) (x : Item) : String :=
    (match name with
      | some n => if n.isEmpty then "" else "Name: " ++ n ++ "\n"
      | none => "") ++
    join ((m.entriesOf x).filterMap fun k =>
      (m.entry k).prompt.map fun p => "Prompt: " ++ p.1 ++ "\n")
  let help (x : Item) : String :=
    "\n" ++ join ((m.helpTexts x).map fun h => "Help:\n\n" ++ indentLines 2 h ++ "\n\n")
  match (m.entry i).subject with
  | .symbol s =>
    let x := m.symbol s
    let kind ← symbolKind s
    let value ← symbolText s
    return names (some x.name) (.symbol s) ++ "Type: " ++ kind.name ++ "\nValue: " ++
      (if x.kind = .string then "\"" ++ value ++ "\"" else value) ++ "\n" ++ help (.symbol s) ++
      (← symbolRelations 2 s)
  | .choice c =>
    let x := m.choice c
    let kind ← choiceKindNow c
    let mode ← choiceMode c
    return names x.name (.choice c) ++ "Type: " ++ kind.name ++ "\nMode: " ++ mode.letter ++ "\n" ++
      help (.choice c) ++ (← choiceRelations 2 c)
  | _ => definitionInfos 2 [i]

def windowInfo (i : EntryId) : EvalM String := do
  let m ← read
  let help (x : Item) : String := join ((m.helpTexts x).map (· ++ "\n\n"))
  match (m.entry i).subject with
  | .symbol s =>
    let x := m.symbol s
    let name := if x.name.isEmpty then m.itemName (.symbol s) else x.name
    return name ++ "\n\n" ++ help (.symbol s) ++ (← symbolRelations 0 s)
  | .choice c =>
    let x := m.choice c
    let name := (x.name.filter (!·.isEmpty)).getD x.displayName
    let mode ← choiceMode c
    return name ++ "\n\n" ++ help (.choice c) ++ "Mode: " ++ mode.letter ++ "\n\n" ++
      (← choiceRelations 0 c)
  | _ => definitionInfos 0 [i]

/-! ## Values that users type -/

/-- What is wrong with a text for a symbol. -/
inductive InputProblem where
  | malformed (s : String) (kind : Kind)
  | outOfRange (s low high : String)
  deriving DecidableEq, Repr

def InputProblem.message : InputProblem → String
  | malformed s kind => "'" ++ s ++ "' is a malformed " ++ kind.name ++ " value"
  | outOfRange s low high => s ++ " is outside the range " ++ low ++ "-" ++ high

def activeBounds : List (SymbolId × SymbolId × Expr) → EvalM (Option (SymbolId × SymbolId))
  | [] => return none
  | (low, high, cond) :: rest => do
    if (← exprValue cond) ≠ .no then return some (low, high) else activeBounds rest

def numberOf (base : Nat) (s : String) : EvalM Int :=
  match Text.Integer.parse? base s with
  | some n => return n
  | none => throw .badNumber

def inputProblem? (i : SymbolId) (s : String) : EvalM (Option InputProblem) := do
  let x := (← read).symbol i
  if !x.kind.isNumeric then return none
  match Text.Integer.parse? x.kind.base s with
  | none => return some (.malformed s x.kind)
  | some n =>
    match ← activeBounds x.ranges with
    | none => return none
    | some (low, high) =>
      let lowText ← symbolText low
      let highText ← symbolText high
      if (← numberOf x.kind.base lowText) ≤ n then
        if n ≤ (← numberOf x.kind.base highText) then return none
      return some (.outOfRange s lowText highText)

def rangeText? (i : SymbolId) : EvalM (Option String) := do
  let x := (← read).symbol i
  if !x.kind.isNumeric then return none
  match ← activeBounds x.ranges with
  | none => return none
  | some (low, high) =>
    let lowText ← symbolText low
    let highText ← symbolText high
    return some ("Range: " ++ lowText ++ "-" ++ highText)

end Buildsmith.Kconfig
