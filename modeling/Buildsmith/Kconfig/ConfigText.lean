import Buildsmith.Kconfig.Eval

/-!
# The texts of configurations

A configuration is written in four forms: the full configuration file with comments for menus, the
minimal one that only lists what differs from the defaults, the header for C programs, and the
plain list of values that builds compare with.
-/

namespace Buildsmith.Kconfig

/-- Symbols that are not written have no line. -/
def configLine (lead : String) (i : SymbolId) : EvalM String := do
  let s := (← read).symbol i
  let val ← symbolText i
  if !(← symbolState i).isWritten then return ""
  if s.kind.isLogical then
    if val ≠ "n" then return lead ++ s.name ++ "=" ++ val ++ "\n"
    else return "# " ++ lead ++ s.name ++ " is not set\n"
  if s.kind.isNumeric then return lead ++ s.name ++ "=" ++ val ++ "\n"
  return lead ++ s.name ++ "=\"" ++ Text.Quoted.escape val ++ "\"\n"

/-- The state of writing a configuration file. -/
structure Draft where
  text : String
  seen : List SymbolId := []
  /-- Whether the last thing written is the comment at the end of a menu. -/
  afterEnd : Bool := false

def Draft.add (d : Draft) (s : String) : Draft :=
  { d with text := d.text ++ s }

def draftEntry (lead : String) (d : Draft) (i : EntryId) : EvalM Draft := do
  let e := (← read).entry i
  let title := (e.prompt.map Prod.fst).getD ""
  match e.subject with
  | .symbol s =>
    if d.seen.contains s then return d
    let d := { d with seen := s :: d.seen }
    let line ← configLine lead s
    if line.isEmpty then return d
    let d := if d.afterEnd then { d.add "\n" with afterEnd := false } else d
    return d.add line
  | _ =>
    if (← exprValue e.dep) = .no then return d
    let shown ← match e.subject with
      | .menu => pure (decide ((← exprValue e.visibility) ≠ .no))
      | .comment => pure true
      | _ => pure false
    if shown then return { d.add ("\n#\n# " ++ title ++ "\n#\n") with afterEnd := false }
    else return d

def draftEnd (d : Draft) (i : EntryId) : EvalM Draft := do
  let e := (← read).entry i
  if e.subject = .menu then
    if (← exprValue e.dep) ≠ .no then
      if (← exprValue e.visibility) ≠ .no then
        return { d.add ("# end of " ++ (e.prompt.map Prod.fst).getD "" ++ "\n") with afterEnd := true }
  return d

mutual

def Menu.draft (lead : String) (d : Draft) : Menu → EvalM Draft
  | .entry i [] => draftEntry lead d i
  | .entry i children => do
    let d ← draftEntry lead d i
    let d ← Menu.draftAll lead d children
    draftEnd d i

def Menu.draftAll (lead : String) (d : Draft) : List Menu → EvalM Draft
  | [] => return d
  | x :: xs => do
    let d ← Menu.draft lead d x
    Menu.draftAll lead d xs

end

def configText (lead header : String) : EvalM String := do
  let d ← Menu.draftAll lead { text := header } (← read).menu
  return d.text

/-- The value that a symbol has if no user assigns one, for minimal configurations. -/
def defaultText (i : SymbolId) : EvalM String := do
  let s := (← read).symbol i
  if s.kind.isLogical then
    if s.choice.isSome then return Tristate.no.letter
    let val ← match ← withReaders (·.activeDefault s.defaults) with
      | some (value, cond) => pure (min (← exprValue value) cond)
      | none => pure .no
    let reverse ← exprValue s.reverseDep
    let weak ← exprValue s.weakReverseDep
    let val := max (max reverse weak) val
    if val = .mod then
      if (← symbolKind i) = .bool then return Tristate.yes.letter
    return val.letter
  if s.kind ≠ .unknown then
    match ← withReaders (·.activeDefault s.defaults) with
    | some (value, _) => withReaders (·.defaultText value)
    | none => return ""
  else return ""

def isRedundant (i : SymbolId) : EvalM Bool := do
  let s := (← read).symbol i
  if s.choice.isNone then
    if (← symbolVisibility i) ≤ (← exprValue s.reverseDep) then return true
  let val ← symbolText i
  if val = (← defaultText i) then return true
  if let some c := s.choice then
    if !((← read).choice c).isOptional then
      if (← withReaders (·.defaultSelection c)) = some i then
        if s.kind = .bool then
          if (← symbolTristate i) = .yes then return true
  return false

def minimalText (lead header : String) : EvalM String := do
  let lines ← (← read).uniqueDefined.mapM fun i => do
    if ← isRedundant i then return "" else configLine lead i
  return header ++ String.join lines

def headerLine (lead : String) (i : SymbolId) : EvalM String := do
  let s := (← read).symbol i
  let val ← symbolText i
  if !(← symbolState i).isWritten then return ""
  let define := "#define " ++ lead ++ s.name
  if s.kind.isLogical then
    if val = "y" then return define ++ " 1\n"
    if val = "m" then return define ++ "_MODULE 1\n"
    return ""
  if s.kind = .string then return define ++ " \"" ++ Text.Quoted.escape val ++ "\"\n"
  let val :=
    if s.kind = .hex && !(Text.startsWith val "0x" || Text.startsWith val "0X") then "0x" ++ val
    else val
  return define ++ " " ++ val ++ "\n"

def headerText (lead header : String) : EvalM String := do
  let lines ← (← read).uniqueDefined.mapM (headerLine lead)
  return header ++ String.join lines

def valuesText (lead : String) : EvalM String := do
  let lines ← (← read).uniqueDefined.mapM fun i => do
    if ((← read).symbol i).kind.isLogical then
      if (← symbolTristate i) = .no then return ""
    configLine lead i
  return String.join lines

end Buildsmith.Kconfig
