import Buildsmith.Kconfig.Describe
import Buildsmith.Kconfig.Expansion

/-!
# Checks after reading

When all files are read, properties that make little sense are reported.  Only defaults that are
not symbols, where symbols are needed, are faults.
-/

namespace Buildsmith.Kconfig

def Model.standsForNumber (m : Model) (kind : Kind) (i : SymbolId) : Bool :=
  let s := m.symbol i
  if s.entries.isEmpty then Text.Integer.isLiteral kind.base s.name else s.kind = kind

def checkTargets (i : SymbolId) (verb : String) (targets : List (SymbolId × Expr)) : ReadM Unit := do
  let m := (← get).model
  for (target, _) in targets do
    let kind := (m.symbol target).kind
    unless kind.isLogical || kind = .unknown do
      warn (m.nameAndPlaces (.symbol i) ++ " " ++ verb ++ " the " ++ kind.name ++ " symbol " ++
        m.nameAndPlaces (.symbol target) ++ ", which is not bool or tristate")

def checkDefaults (i : SymbolId) : ReadM Unit := do
  let m := (← get).model
  let s := m.symbol i
  for (value, _) in s.defaults do
    match value with
    | .item (.symbol d) =>
      let x := m.symbol d
      if s.kind = .string then
        if !x.isConstant && x.entries.isEmpty && !Text.isUpper x.name then
          warn ("style: quotes recommended around default value for string symbol " ++
            m.nameAndPlaces (.symbol i))
      else if !m.standsForNumber s.kind d then
        warn ("the " ++ s.kind.name ++ " symbol " ++ m.nameAndPlaces (.symbol i) ++ " has a non-" ++
          s.kind.name ++ " default " ++ m.nameAndPlaces (.symbol d))
    | _ =>
      throw (.badDefault ("the " ++ s.kind.name ++ " symbol " ++ m.nameAndPlaces (.symbol i) ++
        " has a malformed default " ++ m.exprText value ++ " -- expected a single symbol"))

def checkRanges (i : SymbolId) : ReadM Unit := do
  let m := (← get).model
  let s := m.symbol i
  unless s.ranges.isEmpty do
    if !s.kind.isNumeric then
      warn ("the " ++ s.kind.name ++ " symbol " ++ m.nameAndPlaces (.symbol i) ++
        " has ranges, but is not int or hex")
    else
      for (low, high, _) in s.ranges do
        unless m.standsForNumber s.kind low && m.standsForNumber s.kind high do
          warn ("the " ++ s.kind.name ++ " symbol " ++ m.nameAndPlaces (.symbol i) ++
            " has a non-" ++ s.kind.name ++ " range [" ++ m.nameAndPlaces (.symbol low) ++ ", " ++
            m.nameAndPlaces (.symbol high) ++ "]")

def checkSymbol (i : SymbolId) : ReadM Unit := do
  let m := (← get).model
  let s := m.symbol i
  if s.kind.isLogical then
    checkTargets i "selects" s.selects
    checkTargets i "implies" s.implies
  else if s.kind ≠ .unknown then
    checkDefaults i
    unless s.selects.isEmpty && s.implies.isEmpty do
      warn ("the " ++ s.kind.name ++ " symbol " ++ m.nameAndPlaces (.symbol i) ++
        " has selects or implies")
  else warn (m.nameAndPlaces (.symbol i) ++ " defined without a type")
  checkRanges i

def warnTargeted (i : SymbolId) (how : String) (e : Expr) : ReadM Unit := do
  let m := (← get).model
  let by_ := e.disjuncts.map fun d =>
    "\n - " ++ (match (d.conjuncts.headD d).items.head? with
      | some k => m.nameAndPlaces k
      | none => "")
  warn ("the choice symbol " ++ m.nameAndPlaces (.symbol i) ++ " is " ++ how ++
    " by the following symbols, but select/imply has no effect on choice symbols" ++
    String.join by_)

def checkChoiceSymbol (c : ChoiceId) (i : SymbolId) : ReadM Unit := do
  let m := (← get).model
  let s := m.symbol i
  unless s.defaults.isEmpty do
    warn ("default on the choice symbol " ++ m.nameAndPlaces (.symbol i) ++
      " will have no effect, as defaults do not affect choice symbols")
  if s.reverseDep ≠ .no then warnTargeted i "selected" s.reverseDep
  if s.weakReverseDep ≠ .no then warnTargeted i "implied" s.weakReverseDep
  for k in s.entries do
    let above := (m.parentOf k).map fun p => (m.entry p).subject
    let hasPrompt := (m.entry k).prompt.isSome
    if above = some (.choice c) then
      unless hasPrompt do
        warn ("the choice symbol " ++ m.nameAndPlaces (.symbol i) ++ " has no prompt")
    else if hasPrompt then
      warn ("the choice symbol " ++ m.nameAndPlaces (.symbol i) ++
        " is defined with a prompt outside the choice")

def checkChoice (c : ChoiceId) : ReadM Unit := do
  let m := (← get).model
  let x := m.choice c
  unless x.kind.isLogical do
    warn (m.nameAndPlaces (.choice c) ++ " defined with type " ++ x.kind.name)
  unless x.entries.any fun k => (m.entry k).prompt.isSome do
    warn (m.nameAndPlaces (.choice c) ++ " defined without a prompt")
  for (value, _) in x.defaults do
    match value with
    | .item (.symbol d) =>
      unless (m.symbol d).choice = some c do
        warn ("the default selection " ++ m.nameAndPlaces (.symbol d) ++ " of " ++
          m.nameAndPlaces (.choice c) ++ " is not contained in the choice")
    | _ =>
      throw (.badDefault (m.nameAndPlaces (.choice c) ++ " has a malformed default " ++
        m.exprText value))
  for s in x.symbols do
    checkChoiceSymbol c s

def looksNumeric (s : String) : Bool :=
  Text.Integer.isLiteral 10 s ||
    ((Text.startsWith s "0x" || Text.startsWith s "0X") && Text.Integer.isLiteral 16 s)

def checkUndefined : ReadM Unit := do
  let m := (← get).model
  for i in List.range m.symbols.size do
    let s := m.symbol i
    if !s.isConstant && s.entries.isEmpty && !looksNumeric s.name && s.name ≠ "MODULES" then
      let places := m.allEntries.filter fun k => ((m.entry k).referenced).contains (.symbol i)
      let text := places.map fun k =>
        "\n\n- Referenced at " ++ m.placeOf k ++ ":\n\n" ++ m.entryText k
      warn ("undefined symbol " ++ s.name ++ ":" ++ String.join text)

def checkModel : ReadM Unit := do
  let m := (← get).model
  for i in m.uniqueDefined do
    checkSymbol i
  for c in m.uniqueChoices do
    checkChoice c

end Buildsmith.Kconfig
