import Buildsmith.Kconfig.Session

/-!
# Reports

A report gathers all that is known about a symbol, choice or entry.  Values are computed in the
order of the fields, since computing a value may give warnings.
-/

namespace Buildsmith.Kconfig

/-! ## Summaries -/

def summaryText (parts : List String) : String :=
  "<" ++ String.intercalate ", " parts ++ ">"

def inQuotes (s : String) : String :=
  "\"" ++ s ++ "\""

def Model.quotedPrompts (m : Model) (i : Item) : List String :=
  (m.entriesOf i).filterMap fun k => (m.entry k).prompt.map fun p => inQuotes p.1

def summaryPart (cond : Bool) (s : String) : List String :=
  if cond then [s] else []

def symbolSummary (i : SymbolId) : EvalM String := do
  let m ← read
  let s := m.symbol i
  let quoted (t : String) : String := if s.kind.isLogical then t else inQuotes t
  let kind ← symbolKind i
  let value ← symbolText i
  let state ← symbolState i
  let head := ["symbol " ++ s.name, kind.name] ++ m.quotedPrompts (.symbol i) ++
    ["value " ++ quoted value]
  let middle ←
    if s.isConstant then pure []
    else do
      let user := state.user.toList.map fun
        | .tristate t => "user value " ++ quoted t.letter
        | .text t => "user value " ++ quoted t
      let vis ← symbolVisibility i
      let direct ← exprValue s.directDep
      pure (user ++ ["visibility " ++ vis.letter] ++
        summaryPart s.choice.isSome "choice symbol" ++
        summaryPart s.isAllnoconfigY "allnoconfig_y" ++
        summaryPart (m.defconfigList = some (.symbol i)) "is the defconfig_list symbol" ++
        s.envVar.toList.map ("from environment variable " ++ ·) ++
        summaryPart (i = SymbolId.modules) "is the modules symbol" ++
        ["direct deps " ++ direct.letter])
  let places :=
    if s.entries.isEmpty then [if s.isConstant then "constant" else "undefined"]
    else s.entries.map m.placeOf
  return summaryText (head ++ middle ++ places)

def choiceSummary (i : ChoiceId) : EvalM String := do
  let m ← read
  let c := m.choice i
  let kind ← choiceKindNow i
  let mode ← choiceMode i
  let selection ← choiceSelection i
  let state ← choiceState i
  let user := state.user.toList.map ("user mode " ++ ·.letter)
  let selected := selection.toList.map fun s => (m.symbol s).name ++ " selected"
  let userSelected := state.userSelection.toList.map fun s =>
    (m.symbol s).name ++ " selected by user" ++ if selection = some s then "" else " (overridden)"
  let vis ← choiceVisibility i
  return summaryText ([c.heading, kind.name] ++ m.quotedPrompts (.choice i) ++
    ["mode " ++ mode.letter] ++ user ++ selected ++ userSelected ++
    ["visibility " ++ vis.letter] ++ summaryPart c.isOptional "optional" ++
    c.entries.map m.placeOf)

def Model.hasNext (m : Model) (i : EntryId) : Bool :=
  match m.parentOf i with
  | some p => (m.childrenOf p).getLast? != some i
  | none => false

def entrySummary (i : EntryId) : EvalM String := do
  let m ← read
  let e := m.entry i
  let title := match e.subject with
    | .symbol s => "symbol " ++ (m.symbol s).name
    | .choice c => ((m.choice c).name.map ("choice " ++ ·)).getD "choice"
    | .menu => "menu"
    | .comment => "comment"
  let prompt ← match e.prompt with
    | some (text, cond) =>
      pure ["prompt " ++ inQuotes text ++ " (visibility " ++ (← exprValue cond).letter ++ ")"]
    | none => pure []
  let menuconfig := match e.subject with
    | .symbol _ => summaryPart e.isMenuconfig "is menuconfig"
    | _ => []
  let dep ← exprValue e.dep
  let visible ←
    if e.subject = .menu then
      pure ["'visible if' deps " ++ (← exprValue e.visibility).letter]
    else pure []
  let help := summaryPart (e.subject.item?.isSome && e.help.isSome) "has help"
  return summaryText (["menu node for " ++ title] ++ prompt ++ menuconfig ++
    ["deps " ++ dep.letter] ++ visible ++ help ++
    summaryPart (!(m.childrenOf i).isEmpty) "has child" ++ summaryPart (m.hasNext i) "has next" ++
    [m.placeOf i])

def Variable.summary (v : Variable) : String :=
  summaryText ["variable " ++ v.name, if v.isRecursive then "recursive" else "immediate",
    "value '" ++ v.value.getD "None" ++ "'"]

def Model.title (m : Model) : String :=
  ((m.entry Model.top).prompt.map Prod.fst).getD ""

def Model.symbolNames (m : Model) (isConstant : Bool) : List String :=
  (m.symbols.toList.filter fun s => s.isConstant == isConstant).map (·.name)

def Session.summary (s : Session) : String :=
  let status (b : Bool) : String := if b then "enabled" else "disabled"
  let flags := s.reading.flags
  summaryText
    ["configuration with " ++ Text.Integer.natText (s.model.symbolNames false).length ++ " symbols",
      "main menu prompt " ++ inQuotes s.model.title,
      if s.reading.srctree.isEmpty then "srctree is current directory"
      else "srctree " ++ inQuotes s.reading.srctree,
      "config symbol prefix " ++ inQuotes s.reading.symbolLead,
      "warnings " ++ status flags.enabled,
      "printing of warnings to stderr " ++ status flags.toStderr,
      "undef. symbol assignment warnings " ++ status flags.undefined,
      "overriding symbol assignment warnings " ++ status flags.override,
      "redundant symbol assignment warnings " ++ status flags.redundant]

/-! ## Reports -/

/-- The values of a symbol. -/
structure SymbolValues where
  name : String
  text : String
  visibility : Tristate
  assignable : List Tristate

def symbolValues (i : SymbolId) : EvalM SymbolValues := do
  let text ← symbolText i
  let visibility ← symbolVisibility i
  let assignable ← symbolAssignable i
  return { name := ((← read).symbol i).name, text, visibility, assignable }

/-- The values of a choice. -/
structure ChoiceValues where
  name : String
  mode : Tristate
  selection : Option String
  visibility : Tristate
  assignable : List Tristate

def choiceValues (i : ChoiceId) : EvalM ChoiceValues := do
  let m ← read
  let mode ← choiceMode i
  let selection ← choiceSelection i
  let visibility ← choiceVisibility i
  let assignable ← choiceAssignable i
  pure
    { name := (m.choice i).displayName, mode
      selection := selection.map fun s => (m.symbol s).name, visibility, assignable }

/-- The properties that the definitions of a symbol give, as text. -/
structure PropertyTexts where
  defaults : List (List String)
  selects : List (List String)
  implies : List (List String)
  ranges : List (List String)

def Model.propertyTexts (m : Model) (defaults : List (Expr × Expr))
    (selects implies : List (SymbolId × Expr)) (ranges : List (SymbolId × SymbolId × Expr)) :
    PropertyTexts :=
  let sym (i : SymbolId) : String := m.itemName (.symbol i)
  { defaults := defaults.map fun (v, c) => [m.exprText v, m.exprText c]
    selects := selects.map fun (t, c) => [sym t, m.exprText c]
    implies := implies.map fun (t, c) => [sym t, m.exprText c]
    ranges := ranges.map fun (l, h, c) => [sym l, sym h, m.exprText c] }

def Model.sortedNames (m : Model) (items : List Item) : List String :=
  ((orderedUnique items).map m.itemName).mergeSort (· ≤ ·)

def Model.bracketedText (m : Model) (i : Item) : String :=
  m.itemTextWith m.bracketName i

/-- All that is known about a symbol. -/
structure SymbolReport where
  text : String
  tristate : Tristate
  visibility : Tristate
  assignable : List Tristate
  kind : Kind
  declaredKind : Kind
  user : Option UserValue
  configLine : String
  summary : String
  definition : String
  bracketed : String
  directDep : String
  reverseDep : String
  weakReverseDep : String
  properties : PropertyTexts
  written : PropertyTexts
  referenced : List String
  envVar : Option String
  isAllnoconfigY : Bool
  isConstant : Bool
  choice : Option String

def symbolReport (lead : String) (i : SymbolId) : EvalM SymbolReport := do
  let m ← read
  let s := m.symbol i
  let text ← symbolText i
  let tristate ← symbolTristate i
  let visibility ← symbolVisibility i
  let assignable ← symbolAssignable i
  let kind ← symbolKind i
  let user := (← symbolState i).user
  let configLine ← configLine lead i
  let summary ← symbolSummary i
  let entries := s.entries.map m.entry
  pure
    { text, tristate, visibility, assignable, kind, declaredKind := s.kind, user, configLine
      summary
      definition := m.itemText (.symbol i), bracketed := m.bracketedText (.symbol i)
      directDep := m.exprText s.directDep
      reverseDep := m.exprText s.reverseDep
      weakReverseDep := m.exprText s.weakReverseDep
      properties := m.propertyTexts s.defaults s.selects s.implies s.ranges
      written := m.propertyTexts (entries.flatMap (·.writtenDefaults))
        (entries.flatMap (·.writtenSelects)) (entries.flatMap (·.writtenImplies))
        (entries.flatMap (·.writtenRanges))
      referenced := m.sortedNames (entries.flatMap (·.referenced))
      envVar := s.envVar, isAllnoconfigY := s.isAllnoconfigY, isConstant := s.isConstant
      choice := s.choice.map fun c => (m.choice c).displayName }

/-- All that is known about a choice. -/
structure ChoiceReport where
  mode : Tristate
  visibility : Tristate
  assignable : List Tristate
  kind : Kind
  declaredKind : Kind
  user : Option Tristate
  selection : Option String
  userSelection : Option String
  symbols : List String
  isOptional : Bool
  summary : String
  definition : String
  bracketed : String
  directDep : String
  defaults : List (List String)
  writtenDefaults : List (List String)
  referenced : List String

def choiceReport (i : ChoiceId) : EvalM ChoiceReport := do
  let m ← read
  let c := m.choice i
  let mode ← choiceMode i
  let visibility ← choiceVisibility i
  let assignable ← choiceAssignable i
  let kind ← choiceKindNow i
  let selection ← choiceSelection i
  let state ← choiceState i
  let summary ← choiceSummary i
  let entries := c.entries.map m.entry
  let name (s : SymbolId) : String := (m.symbol s).name
  pure
    { mode, visibility, assignable, kind, declaredKind := c.kind, user := state.user
      selection := selection.map name
      userSelection := state.userSelection.map name
      symbols := c.symbols.map name
      isOptional := c.isOptional, summary
      definition := m.itemText (.choice i), bracketed := m.bracketedText (.choice i)
      directDep := m.exprText c.directDep
      defaults := (m.propertyTexts c.defaults [] [] []).defaults
      writtenDefaults :=
        (m.propertyTexts (entries.flatMap (·.writtenDefaults)) [] [] []).defaults
      referenced := m.sortedNames (entries.flatMap (·.referenced)) }

/-- All that is known about an entry. -/
structure EntryReport where
  summary : String
  definition : String
  bracketed : String
  dep : String
  prompt : Option (String × String)
  writtenPrompt : Option (String × String)
  isMenuconfig : Bool
  referenced : List String
  includePath : List (String × Nat)
  help : Option String
  visibility : String
  subject : Subject

def entryReport (i : EntryId) : EvalM EntryReport := do
  let m ← read
  let e := m.entry i
  let summary ← entrySummary i
  let show_ (p : Option (String × Expr)) : Option (String × String) :=
    p.map fun (text, cond) => (text, m.exprText cond)
  pure
    { summary
      definition := m.entryText i
      bracketed := m.entryTextWith m.bracketName i
      dep := m.exprText e.dep
      prompt := show_ e.prompt
      writtenPrompt := show_ e.writtenPrompt
      isMenuconfig := e.isMenuconfig
      referenced := m.sortedNames e.referenced
      includePath := e.includePath
      help := e.help
      visibility := m.exprText e.visibility
      subject := e.subject }

def Model.label (m : Model) (i : EntryId) : String :=
  let e := m.entry i
  let title := (e.prompt.map Prod.fst).getD ""
  match e.subject with
  | .symbol s => "config " ++ (m.symbol s).name
  | .choice c => (m.choice c).displayName
  | .menu => "menu " ++ title
  | .comment => "comment " ++ title

def Model.firstEntries (m : Model) (met : List SymbolId) : List EntryId → List EntryId
  | [] => []
  | k :: ks =>
    match (m.entry k).subject.symbol? with
    | some s => if met.contains s then m.firstEntries met ks else k :: m.firstEntries (s :: met) ks
    | none => k :: m.firstEntries met ks

def Model.entryOrder (m : Model) (unique : Bool) : List EntryId :=
  if unique then m.firstEntries [] m.allEntries else m.allEntries

def Model.defconfigListName (m : Model) : Except Fault (Option String) :=
  match m.defconfigList with
  | none => .ok none
  | some (.symbol i) => .ok (some (m.symbol i).name)
  | some (.choice i) => .ok (m.choice i).name
  | some _ => .error .inapplicable

/-- A condition given as text, taken apart. -/
structure ConditionReport where
  text : String
  bracketed : String
  items : List String
  conjuncts : List String
  disjuncts : List String
  value : Tristate

def conditionReport (s : String) : SessionM ConditionReport := do
  let (e, m) ← parseCondition s
  let value ← evaluatingIn m (exprValue e)
  pure
    { text := m.exprText e
      bracketed := e.render m.bracketName
      items := m.sortedNames e.items
      conjuncts := e.conjuncts.map m.exprText
      disjuncts := e.disjuncts.map m.exprText
      value }

end Buildsmith.Kconfig
