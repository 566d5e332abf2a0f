import Buildsmith.Kconfig.ConfigText
import Buildsmith.Kconfig.Depend
import Buildsmith.Kconfig.Outline
import Buildsmith.Kconfig.Sanity
import Buildsmith.Kconfig.Statement
import Buildsmith.Text.Pattern.Read

/-!
# Sessions

A session is a loaded description together with values.  Everything that can be asked of a
configuration, or done with it, runs on a session.
-/

namespace Buildsmith.Kconfig

/-! ## Loading a description -/

/-- Settings of a load. -/
structure LoadOptions where
  root : String := "Kconfig"
  warn : Bool := true
  warnToStderr : Bool := true
  encoding : Text.Encoding := .utf8
  hasUserFunctions : Bool := false
  shell : Shell := fun files _ _ _ => { files }

def Reading.start (w : Workspace) (o : LoadOptions) : Reading :=
  { workspace := w
    shell := o.shell
    encoding := o.encoding
    srctree := (w.getEnv? "srctree").getD ""
    symbolLead := (w.getEnv? "CONFIG_").getD "CONFIG_"
    hasUserFunctions := o.hasUserFunctions
    flags :=
      { enabled := o.warn, toStderr := o.warnToStderr
        undefined := w.getEnv? "KCONFIG_WARN_UNDEF_ASSIGN" == some "y" } }

/-- Records which items depend on which, and refuses those that depend on themselves. -/
def linkDependents : ReadM Unit := do
  modify fun r => { r with model := r.model.withDependents }
  let m := (← get).model
  match m.findLoop? with
  | some found => throw (.dependencyLoop (m.loopText found))
  | none => modify fun r => { r with model := r.model.withChoiceDependents }

def loadModel (root : String) : ReadM Unit := do
  let outline ← readRoot root
  modify fun r =>
    { r with
      isParsing := false, registered := r.model.symbols.size, model := r.model.finish outline }
  checkModel
  let w := (← get).workspace
  if w.getEnv? "KCONFIG_WARN_UNDEF" == some "y" || w.getEnv? "KCONFIG_STRICT" == some "y" then
    checkUndefined
  linkDependents

def load (w : Workspace) (o : LoadOptions) : Except Fault Unit × Reading :=
  (loadModel o.root).run (Reading.start w o)

/-! ## Sessions -/

/-- A loaded description with values. -/
structure Session where
  reading : Reading
  values : Values
  /-- Assignments to undefined symbols that were met in configuration files. -/
  missing : List (Option String × Option String) := []
  /-- Matches an assignment in configuration files. -/
  setPattern : Text.Pattern.Compiled
  /-- Matches a comment that a symbol is not set. -/
  unsetPattern : Text.Pattern.Compiled

abbrev SessionM := ExceptT Fault (StateM Session)

def Fault.ofPattern : Text.Pattern.PatternFault → Fault
  | .repeatTooLarge => .tooLarge
  | .alphabetConflict => .alphabetConflict
  | _ => .badPattern

/-- The session with nothing assigned; the lead of symbol names is read as a pattern. -/
def Session.start (r : Reading) : Except Fault Session := do
  let compile (s : String) : Except Fault Text.Pattern.Compiled :=
    (Text.Pattern.compile { ascii := true } s).mapError Fault.ofPattern
  let set ← compile (r.symbolLead ++ "([^=]+)=(.*)")
  let unset ← compile ("# " ++ r.symbolLead ++ "([^ ]+) is not set")
  return { reading := r, values := .initial r.model, setPattern := set, unsetPattern := unset }

/-- Reads the description files of a workspace. -/
def openSession (w : Workspace) (o : LoadOptions) : Except Fault Session × Reading :=
  let fresh := Reading.start w o
  match Session.start fresh with
  | .error f => (.error f, fresh)
  | .ok _ =>
    match load w o with
    | (.error f, r) => (.error f, r)
    | (.ok _, r) => (Session.start r, r)

def Session.model (s : Session) : Model := s.reading.model

def Session.workspace (s : Session) : Workspace := s.reading.workspace

def Session.mapWorkspace (f : Workspace → Workspace) (s : Session) : Session :=
  { s with reading := { s.reading with workspace := f s.reading.workspace } }

def evaluating {α : Type} (x : EvalM α) : SessionM α := do
  let s ← get
  let (result, values) := ((x.run s.model).run).run s.values
  let reading := values.warnings.foldl (fun r w => r.log ("warning: " ++ w)) s.reading
  set { s with values := { values with warnings := [] }, reading := reading }
  match result with
  | .ok a => return a
  | .error f => throw f

def readingFrom {α : Type} (x : ReadM α) : SessionM α := do
  let s ← get
  let (result, reading) := x.run.run s.reading
  set { s with reading := reading }
  match result with
  | .ok a => return a
  | .error f => throw f

def sessionWarn (place : Option (String × Nat)) (text : String) : SessionM Unit :=
  modify fun s =>
    let lead := match place with
      | some p => placeText p ++ ": "
      | none => ""
    { s with reading := s.reading.log (lead ++ "warning: " ++ text) }

def sessionPrint (text : String) : SessionM Unit :=
  modify (·.mapWorkspace (·.print (text ++ "\n")))

def findSymbol (isConstant : Bool) (name : String) : SessionM SymbolId := do
  match (← get).model.findSymbol? isConstant name with
  | some i => return i
  | none => throw .unknownName

def readCondition (s : String) : ReadM Expr := do
  modify fun r => { r with file := none }
  let tokens ← tokenize ("if " ++ s)
  modify fun r => { r with text := s }
  parsed (readWholeExpr tokens.tail)

def parseCondition (s : String) : SessionM (Expr × Model) := do
  let model := (← get).model
  let forgetNew : SessionM Unit :=
    modify fun st => { st with reading := { st.reading with model := model } }
  let e ← tryCatch (readingFrom (readCondition s)) fun f => do
    forgetNew
    throw f
  let full := (← get).model
  forgetNew
  return (e, full)

def evaluatingIn {α : Type} (m : Model) (x : EvalM α) : SessionM α := do
  let old := (← get).model
  modify fun st => { st with reading := { st.reading with model := m } }
  try
    let a ← evaluating x
    modify fun st => { st with reading := { st.reading with model := old } }
    return a
  catch f =>
    modify fun st => { st with reading := { st.reading with model := old } }
    throw f

def evalCondition (s : String) : SessionM Tristate := do
  let (e, m) ← parseCondition s
  evaluatingIn m (exprValue e)

end Buildsmith.Kconfig
