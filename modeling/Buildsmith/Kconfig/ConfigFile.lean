import Buildsmith.Kconfig.Session

/-!
# Configuration files

Configuration files are read line by line.  A line assigns a value to a symbol, or says that it is
not set; all else but comments and blank lines is reported.  Reading can replace what was assigned
before or add to it.

Files are only written when their contents change.
-/

namespace Buildsmith.Kconfig

def generatedBy : String :=
  "# Generated by Kconfiglib (https://github.com/ulfalizer/Kconfiglib)\n"

def headerGeneratedBy : String :=
  "/* Generated by Kconfiglib (https://github.com/ulfalizer/Kconfiglib) */\n"

def standardConfigName (w : Workspace) : String :=
  (w.getEnv? "KCONFIG_CONFIG").getD ".config"

/-- Opens a configuration file, here or in the source tree; gives also the path that worked. -/
def openConfig (path : String) : SessionM (String × ByteArray) := do
  let s ← get
  let second := Path.join s.reading.srctree path
  match s.workspace.read path with
  | .ok bytes => return (path, bytes)
  | .error .nulInPath => throw (.file .nulInPath)
  | .error (.failed _ _) =>
    match s.workspace.read second with
    | .ok bytes => return (second, bytes)
    | .error .nulInPath => throw (.file .nulInPath)
    | .error (.failed cause failedPath) =>
      throw (.cannotOpenConfig path cause failedPath s.reading.srctree)

def defconfigDefaults : SessionM (List (Expr × Expr)) := do
  let m := (← get).model
  match m.defconfigList with
  | none => return []
  | some (.symbol i) => return (m.symbol i).defaults
  | some (.choice i) => return (m.choice i).defaults
  | some _ => throw .inapplicable

def openablePath? (path : String) : SessionM (Option String) :=
  tryCatch (do pure (some (← openConfig path).1)) fun
    | .cannotOpenConfig .. => pure none
    | f => throw f

def firstDefconfig : List (Expr × Expr) → SessionM (Option String)
  | [] => return none
  | (value, cond) :: rest => do
    if (← evaluating (exprValue cond)) = .no then firstDefconfig rest
    else
      match ← openablePath? (← evaluating (withReaders (·.defaultText value))) with
      | some p => return some p
      | none => firstDefconfig rest

def defconfigName : SessionM (Option String) := do
  firstDefconfig (← defconfigDefaults)

def noteMissing (place : String × Nat) (name value : Option String) : SessionM Unit := do
  modify fun s => { s with missing := s.missing ++ [(name, value)] }
  if (← get).reading.flags.undefined then
    sessionWarn (some place) ("attempt to assign the value '" ++ value.getD "None" ++
      "' to the undefined symbol " ++ name.getD "None")

def noteRepeated (place : String × Nat) (i : SymbolId) (value : String) : SessionM Unit := do
  let s ← get
  let old ← match (s.values.symbol i).user with
    | some (.tristate t) => pure t.letter
    | some (.text t) => pure t
    | none => if (s.model.symbol i).kind.isLogical then throw .unknownName else pure "None"
  let flags := s.reading.flags
  if if old = value then flags.redundant else flags.override then
    sessionWarn (some place) (s.model.nameAndPlaces (.symbol i) ++ " set more than once. Old value \"" ++
      old ++ "\", new value \"" ++ value ++ "\".")

/-- What a line says about a symbol; a lead that is a pattern of its own may leave parts open. -/
inductive ConfigLine where
  | set (name value : Option String)
  | unset (name : Option String)
  | other

def Session.readLine (s : Session) (line : String) : Except Fault ConfigLine :=
  match s.setPattern.match? line with
  | some f =>
    if s.setPattern.groupCount = 2 then .ok (.set (f.text? line 1) (f.text? line 2))
    else .error .badNumber
  | none =>
    match s.unsetPattern.match? line with
    | some f => .ok (.unset (f.text? line 1))
    | none => .ok .other

def Session.namedSymbol? (s : Session) (name : Option String) : Option SymbolId :=
  name.bind (s.model.findSymbol? false ·)

def Session.definedSymbol? (s : Session) (name : Option String) : Option SymbolId :=
  (s.namedSymbol? name).filter fun i => !(s.model.symbol i).entries.isEmpty

def assignFromFile (place : String × Nat) (i : SymbolId) (value : String) : SessionM Unit := do
  if ((← get).values.symbol i).wasSet then noteRepeated place i value
  discard (evaluating (setSymbol false i (.text value)))

def assignLogical (place : String × Nat) (i : SymbolId) (value : String) : SessionM Unit := do
  let s ← get
  let x := s.model.symbol i
  let letter := Text.takeFirst 1 value
  let valid := letter = "y" || letter = "n" || (x.kind = .tristate && letter = "m")
  if !valid then
    sessionWarn (some place) ("'" ++ value ++ "' is not a valid value for the " ++ x.kind.name ++
      " symbol " ++ s.model.nameAndPlaces (.symbol i) ++ ". Assignment ignored.")
  else
    if letter ≠ "n" then
      if let some c := x.choice then
        if let some mode := (s.values.choice c).user then
          if mode.letter ≠ letter then
            sessionWarn (some place) "both m and y assigned to symbols within the same choice"
        discard (evaluating (setChoice c (.text letter)))
    assignFromFile place i letter

def loadLine (place : String × Nat) (line : String) : SessionM Unit := do
  let s ← get
  match ← s.readLine line with
  | .set name value =>
    match s.definedSymbol? name with
    | none => noteMissing place name value
    | some i =>
      let value := value.getD ""
      let kind := (s.model.symbol i).kind
      if kind.isLogical then assignLogical place i value
      else if kind = .string then
        match Text.Quoted.literalBody? value with
        | some body => assignFromFile place i (Text.Quoted.unescape body)
        | none =>
          sessionWarn (some place) ("malformed string literal in assignment to " ++
            s.model.nameAndPlaces (.symbol i) ++ ". Assignment ignored.")
      else assignFromFile place i value
  | .unset name =>
    match s.definedSymbol? name with
    | none => noteMissing place name (some "n")
    | some i => if (s.model.symbol i).kind.isLogical then assignFromFile place i "n"
  | .other =>
    if !line.isEmpty && !Text.startsWith (Text.trimStart line) "#" then
      sessionWarn (some place) ("ignoring malformed line '" ++ line ++ "'")

def loadLines (path : String) : Nat → List String → SessionM Unit
  | _, [] => return ()
  | n, l :: ls => do
    loadLine (path, n) (Text.trimEnd l)
    loadLines path (n + 1) ls

def Values.clearWasSet (m : Model) (v : Values) : Values :=
  let v := m.uniqueDefined.foldl
    (fun v i => v.modifySymbol i fun x => { x with wasSet := false }) v
  m.uniqueChoices.foldl (fun v i => v.modifyChoice i fun x => { x with wasSet := false }) v

def unsetOthers : EvalM Unit := do
  let m ← read
  for i in m.uniqueDefined do
    if !(← symbolState i).wasSet then unsetSymbol false i
  for c in m.uniqueChoices do
    if !(← choiceState c).wasSet then unsetChoice c

def loadBytes (path : String) (replaces : Bool) (bytes : ByteArray) : SessionM Unit := do
  let decoded := Text.decodeFile (← get).reading.encoding bytes
  loadLines path 1 decoded.lines
  if let some f := decoded.fault then throw (.malformedText f (.file path))
  if replaces then evaluating unsetOthers

def loadFrom (path : String) (replaces : Bool) : SessionM Unit := do
  let (_, bytes) ← openConfig path
  if replaces then
    modify fun s => { s with missing := [], values := s.values.clearWasSet s.model }
  loadBytes path replaces bytes

/-- Loads a configuration file, or the defaults if there is none. -/
def loadConfig (path : Option String) (replaces : Bool) : SessionM String := do
  let w := (← get).workspace
  let verb := if replaces then "Loaded" else "Merged"
  match path with
  | some p =>
    loadFrom p replaces
    return verb ++ " configuration '" ++ p ++ "'"
  | none =>
    let p := standardConfigName w
    if w.pathExists p || w.pathExists (Path.join (← get).reading.srctree p) then
      loadFrom p replaces
      return verb ++ " configuration '" ++ p ++ "'"
    else
      match ← defconfigName with
      | none => return "Using default symbol values (no '" ++ p ++ "')"
      | some d =>
        loadFrom d replaces
        return verb ++ " default configuration '" ++ d ++ "' (no '" ++ p ++ "')"

def hasContents (path contents : String) : SessionM Bool := do
  let s ← get
  match s.workspace.read path with
  | .error .nulInPath => throw (.file .nulInPath)
  | .error _ => return false
  | .ok bytes =>
    let decoded := Text.decodeFile s.reading.encoding bytes
    match decoded.fault with
    | some f =>
      if Text.meetsFault s.reading.encoding (contents.length + 1) bytes then throw (.undecodable f)
      else return false
    | none => return decoded.unified = contents

def writeText (path contents : String) : SessionM Unit := do
  let s ← get
  match s.workspace.write path ByteArray.empty with
  | .error f => throw (.file f)
  | .ok emptied =>
    match Text.encode? s.reading.encoding contents with
    | none =>
      set (s.mapWorkspace fun _ => emptied)
      throw .unencodable
    | some bytes =>
      match s.workspace.write path bytes with
      | .error f => throw (.file f)
      | .ok w => set (s.mapWorkspace fun _ => w)

def writeIfChanged (path contents : String) : SessionM Unit := do
  if !(← hasContents path contents) then writeText path contents

def keepOld (path : String) : SessionM Unit :=
  modify fun s =>
    match s.workspace.files.rename s.workspace.cwd path (path ++ ".old") with
    | .ok files => s.mapWorkspace fun w => { w with files := files }
    | .error _ => s

/-- Saves the configuration, unless the file says the same. -/
def saveConfig (path : Option String) (header : String) (keepsOld : Bool) : SessionM String := do
  let s ← get
  let p := path.getD (standardConfigName s.workspace)
  let contents ← evaluating (configText s.reading.symbolLead header)
  if ← hasContents p contents then return "No change to '" ++ p ++ "'"
  if keepsOld then keepOld p
  writeText p contents
  return "Configuration saved to '" ++ p ++ "'"

def saveMinimal (path header : String) : SessionM String := do
  let contents ← evaluating (minimalText (← get).reading.symbolLead header)
  if ← hasContents path contents then return "No change to '" ++ path ++ "'"
  writeText path contents
  return "Minimal configuration saved to '" ++ path ++ "'"

def saveHeader (path header : String) : SessionM Unit := do
  writeIfChanged path (← evaluating (headerText (← get).reading.symbolLead header))

def openFailureText : Fault → Option String
  | .cannotOpenConfig _ cause failedPath _ =>
    some ("[Errno " ++ Text.Integer.natText cause.number ++ "] " ++ cause.message ++ ": " ++
      Text.Literal.render failedPath)
  | .file (.failed cause path) =>
    some ("[Errno " ++ Text.Integer.natText cause.number ++ "] " ++ cause.message ++ ": " ++
      Text.Literal.render path)
  | _ => none

def mergePrinting (path : String) : SessionM (Option String) := do
  try
    let text ← loadConfig (some path) false
    sessionPrint text
    return none
  catch f =>
    match openFailureText f with
    | some t => return some t
    | none => throw f

def loadAllConfig (path : String) : SessionM Unit := do
  match (← get).workspace.getEnv? "KCONFIG_ALLCONFIG" with
  | none => return ()
  | some named =>
    let old := (← get).reading.flags
    let setFlags (f : WarningFlags → WarningFlags) : SessionM Unit :=
      modify fun s => { s with reading := { s.reading with flags := f s.reading.flags } }
    setFlags fun f => { f with override := false, redundant := false }
    if named = "" || named = "1" then
      if let some first ← mergePrinting path then
        if let some second ← mergePrinting "all.config" then
          throw (.exit ("error: KCONFIG_ALLCONFIG is set, but neither " ++ path ++
            " nor all.config could be opened: " ++ first ++ ", " ++ second))
    else
      if let some failure ← mergePrinting named then
        throw (.exit ("error: KCONFIG_ALLCONFIG is set to '" ++ named ++
          "', which could not be opened: " ++ failure))
    setFlags fun f => { f with override := old.override, redundant := old.redundant }

/-! ## Outdated files -/

def differsFromUser (lead : String) (i : SymbolId) : EvalM Bool := do
  match (← symbolState i).user with
  | none => return !(← configLine lead i).isEmpty
  | some (.tristate u) => return (← symbolTristate i) ≠ u
  | some (.text u) => return (← symbolText i) ≠ u

def anyDiffers (lead : String) : List SymbolId → EvalM Bool
  | [] => return false
  | i :: is => do
    if ← differsFromUser lead i then return true else anyDiffers lead is

/-- Whether saving would change the configuration file that was just loaded. -/
def isOutdated : SessionM Bool := do
  let s ← get
  if !s.missing.isEmpty then return true
  evaluating (anyDiffers s.reading.symbolLead s.model.uniqueDefined)

def loadStandard : SessionM Bool := do
  let text ← loadConfig none true
  sessionPrint text
  let w := (← get).workspace
  if w.pathExists (standardConfigName w) then isOutdated else return true

def Fault.fileCause? : Fault → Option (FileCause × String)
  | .cannotOpenConfig _ cause failedPath _ => some (cause, failedPath)
  | .cannotOpenSource _ _ path _ cause => some (cause, path)
  | .file (.failed cause path) => some (cause, path)
  | _ => none

def tryLoad (path : String) : SessionM (Except FileCause String) := do
  try
    return .ok (← loadConfig (some path) true)
  catch f =>
    match f.fileCause? with
    | some (cause, _) => return .error cause
    | none => throw f

/-- What can be saved. -/
inductive Saving where
  | full
  | minimal
  deriving DecidableEq, Repr

def Saving.description : Saving → String
  | full => "configuration"
  | minimal => "minimal configuration"

def trySave (kind : Saving) (path : String) : SessionM (Except (FileCause × String) String) := do
  try
    match kind with
    | .full => return .ok (← saveConfig (some path) generatedBy true)
    | .minimal => return .ok (← saveMinimal path generatedBy)
  catch f =>
    match f.fileCause? with
    | some found => return .error found
    | none => throw f

/-! ## Presets -/

def leastOffer (s : Symbol) : Offer :=
  .number (if s.isAllnoconfigY then 2 else 0)

def assignLeast : EvalM Unit := do
  let m ← read
  m.uniqueDefined.forM fun i => discard (setSymbol true i (leastOffer (m.symbol i)))

def assignMost : EvalM Unit := do
  let m ← read
  m.uniqueDefined.forM fun i =>
    discard (setSymbol true i (.number (if (m.symbol i).choice.isSome then 1 else 2)))
  m.uniqueChoices.forM fun i => discard (setChoice i (.number 2))

def assignModules : EvalM Unit := do
  let m ← read
  m.uniqueDefined.forM fun i => do
    let s := m.symbol i
    match s.kind with
    | .bool => if s.choice.isNone then discard (setSymbol true i (.number 2))
    | .tristate => discard (setSymbol true i (.number 1))
    | _ => return ()
  m.uniqueChoices.forM fun i =>
    discard (setChoice i (.number (if (m.choice i).kind = .bool then 2 else 1)))

def enableWarnings (enabled : Bool) : SessionM Unit :=
  modify fun s =>
    { s with reading := { s.reading with flags := { s.reading.flags with enabled } } }

def assignQuietly (preset : EvalM Unit) : SessionM Unit := do
  enableWarnings false
  evaluating preset
  enableWarnings true

def lowerSymbol (i : SymbolId) : EvalM Bool := do
  if ((← read).symbol i).isAllnoconfigY then return false
  match ← symbolAssignable i with
  | [] => return false
  | least :: _ =>
    if least < (← symbolTristate i) then
      discard (setSymbol true i (.number least.toNat))
      return true
    return false

def lowerEntries : List EntryId → EvalM Bool
  | [] => return false
  | i :: is => do
    let changed ← match ((← read).entry i).subject with
      | .symbol s => lowerSymbol s
      | _ => pure false
    let later ← lowerEntries is
    return changed || later

def lowerAll : Nat → EvalM Unit
  | 0 => throw .unbounded
  | fuel + 1 => do
    if ← lowerEntries (← read).allEntries then lowerAll fuel

def walkToLeast : EvalM Unit := do
  let m ← read
  (m.uniqueDefined.filter fun i => (m.symbol i).isAllnoconfigY).forM fun i =>
    discard (setSymbol true i (.number 2))
  lowerAll (3 * m.symbols.size + 2)

end Buildsmith.Kconfig
