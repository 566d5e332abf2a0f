import Buildsmith.Console.Run
import Buildsmith.Project.Package
import Buildsmith.Publish.Basic
import Buildsmith.Shell.Run
import Buildsmith.Tool.Arguments

/-!
# Command line tools

A tool is called with words and leaves a changed workspace behind.  Most tools load a description
and then work on a session; they may ask questions that the input stream answers.  A task only works
on files and starts other programs.
-/

namespace Buildsmith.Tool

open Kconfig

/-- Why a tool ends before its last step. -/
inductive Stop where
  /-- It ends with a status. -/
  | status (n : Int)
  /-- It ends without saying how. -/
  | noStatus
  /-- It ends with a message. -/
  | message (text : String)
  /-- The words it was called with do not fit. -/
  | usage
  /-- Help was asked for. -/
  | help
  | fault (f : Fault)
  /-- Nothing is left to read. -/
  | endOfInput
  /-- No key is left. -/
  | outOfKeys
  /-- A file with defaults is missing. -/
  | missingDefaults (path : String)
  /-- It fails on files or data. -/
  | failure (f : Publish.Fault)

def Stop.ofFault : Fault → Stop
  | .exit text => .message text
  | f => .fault f

def refuseArguments (w : Workspace) (name : String) (spec : ArgumentSpec) :
    ArgumentProblem → Stop × Workspace
  | .usage => (.usage, w)
  | .help => (.help, w.print (helpText (helpWidth (w.getEnv? "COLUMNS")) name spec))

/-- How a tool is called. -/
structure Invocation where
  workspace : Workspace
  /-- The name under which it is called. -/
  name : String
  arguments : List String := []
  input : String := ""
  terminal : Console.Setting := {}
  /-- The directory of its own files, if it has some. -/
  home : Option (List String) := none

/-- What a tool leaves behind. -/
structure Outcome where
  stop : Option Stop := none
  workspace : Workspace
  /-- The interface that was shown, if any. -/
  ui : Option Console.Ui := none
  /-- The package that was described, if any. -/
  package : Option Project.Package := none

/-- The state of a tool that works on a session. -/
structure Job where
  session : Session
  input : List Char := []
  ui : Option Console.Ui := none

abbrev ToolM := ExceptT Stop (StateM Job)

instance : MonadLiftT SessionM ToolM where
  monadLift x := do
    let job ← get
    let (result, session) := x.run.run job.session
    set { job with session }
    match result with
    | .ok a => return a
    | .error f => throw (Stop.ofFault f)

instance : MonadLiftT EvalM ToolM := ⟨fun x => evaluating x⟩

def theModel : ToolM Model := do
  return (← get).session.model

def put (text : String) : ToolM Unit :=
  modify fun j => { j with session := j.session.mapWorkspace (·.print text) }

def say (text : String) : ToolM Unit := put (text ++ "\n")

def complain (text : String) : ToolM Unit :=
  modify fun j => { j with session := j.session.mapWorkspace (·.printError (text ++ "\n")) }

def ask (prompt : String) : ToolM String := do
  put prompt
  let job ← get
  if job.input.isEmpty then throw .endOfInput
  let line := job.input.takeWhile (· ≠ '\n')
  set { job with input := job.input.drop (line.length + 1) }
  return String.ofList line

def linesLeft : ToolM Nat := do
  return (← get).input.length + 1

def isReported : Fault → Bool
  | .file (.failed ..) => true
  | .inapplicable | .noFile | .badNumber | .unknownName | .outOfRange | .unbounded => false
  | .noPrompt | .undecodable _ | .unencodable | .badPattern | .tooLarge | .alphabetConflict => false
  | .file .nulInPath | .namelessVariable | .exit _ => false
  | _ => true

def faultLine (f : Fault) : String :=
  match f with
  | .file _ => (openFailureText f).getD ""
  | _ => f.message

def runLoaded (call : Invocation) (o : LoadOptions) (onFault : Fault → Stop) (body : ToolM Unit) :
    Outcome :=
  match openSession call.workspace { o with shell := Shell.run } with
  | (.error f, r) => { stop := some (onFault f), workspace := r.workspace }
  | (.ok session, _) =>
    let (result, job) := body.run.run { session, input := call.input.toList }
    { stop := match result with
        | .ok _ => none
        | .error s => some s
      workspace := job.session.workspace
      ui := job.ui }

def runOn (call : Invocation) (root : String) (body : ToolM Unit) : Outcome :=
  runLoaded call { root } Stop.ofFault body

def runStandard (call : Invocation) (body : ToolM Unit) : Outcome :=
  match call.arguments with
  | _ :: _ :: _ =>
    { stop := some (.message ("usage: " ++ call.name ++ " [Kconfig]"))
      workspace := call.workspace }
  | args =>
    let onFault (f : Fault) : Stop :=
      if isReported f then .message (Text.trim (faultLine f)) else Stop.ofFault f
    runLoaded call { root := args.head?.getD "Kconfig" } onFault body

def withArguments (call : Invocation) (spec : ArgumentSpec) (go : Arguments → Outcome) : Outcome :=
  match readArguments spec call.arguments with
  | .error p =>
    let (stop, workspace) := refuseArguments call.workspace call.name spec p
    { stop := some stop, workspace }
  | .ok a => go a

def stopAt (call : Invocation) (s : Stop) : Outcome :=
  { stop := some s, workspace := call.workspace }

def runConsole (terminal : Console.Setting) : ToolM Unit := do
  let job ← get
  let (result, ui) := Console.run job.session terminal
  set { job with session := ui.session, ui := some ui }
  match result with
  | .ok _ => return ()
  | .error .outOfKeys => throw .outOfKeys
  | .error .lost => throw (.fault .badNumber)
  | .error (.fault f) => throw (Stop.ofFault f)

def menuconfig (call : Invocation) : Outcome :=
  runStandard call (runConsole call.terminal)

/-! ## Tasks -/

open Publish

/-- The state of a task. -/
structure TaskState where
  workspace : Workspace
  /-- The package that was described, if any. -/
  package : Option Project.Package := none

abbrev TaskM := ExceptT Stop (StateM TaskState)

instance : MonadLiftT PublishM TaskM where
  monadLift x := do
    let s ← get
    let (result, workspace) := x.run.run s.workspace
    set { s with workspace }
    match result with
    | .ok a => return a
    | .error f => throw (.failure f)

def tell (text : String) : TaskM Unit := Publish.say text

def giveUp {α : Type} (text : String) : TaskM α := do
  tell text
  throw (.status 1)

def needFile (path message : String) : TaskM Unit := do
  if !(← pathExists path) then giveUp message

def catchFailure {α : Type} (x : TaskM α) (onFailure : Publish.Fault → TaskM α) : TaskM α :=
  tryCatch x fun
    | .failure f => onFailure f
    | stop => throw stop

def surroundings : TaskM Workspace := do
  return (← get).workspace

def takeArguments (name : String) (spec : ArgumentSpec) (words : List String) :
    TaskM Arguments := do
  match readArguments spec words with
  | .ok a => return a
  | .error p =>
    let s ← get
    let (stop, workspace) := refuseArguments s.workspace name spec p
    set { s with workspace }
    throw stop

def inPlace (body : TaskM Unit) : TaskM Unit := do
  let cwd := (← surroundings).cwd
  let back : TaskM Unit := modify fun s => { s with workspace := { s.workspace with cwd } }
  try body
  catch stop =>
    back
    throw stop
  back

def runTask (call : Invocation) (body : TaskM Unit) : Outcome :=
  let (result, s) := body.run.run { workspace := call.workspace }
  { stop := match result with
      | .ok _ => none
      | .error stop => some stop
    workspace := s.workspace
    package := s.package }

end Buildsmith.Tool
