import Buildsmith.Release.Stamp
import Buildsmith.Tool.Basic

/-!
# Tools that prepare a build

One tool stamps files with the time of the build and the revision, the other one prints components
in the order of their priorities.
-/

namespace Buildsmith.Tool

open Publish Release

def textOrEmpty (path : String) : TaskM String := do
  try readText path
  catch _ => return ""

def describeRevision : TaskM Revision := do
  let w ← surroundings
  let (reply, w') := w.launch w.cwd ["git", "describe", "--long", "--tag", "--dirty", "--always"]
  modify fun s => { s with workspace := w' }
  match reply with
  | .notInstalled => return Revision.ofDescription ""
  | .ended status output =>
    if status = 128 then tell "== WARNING: NOT a git repository !!!"
    return Revision.ofDescription (if status = 0 then Text.trim output else "")

def writeBelow (path text : String) : PublishM Unit := do
  ensureDir (Path.dirName path)
  writeText path text

def stampFiles (f : StampFormat) (timePath : String) (revisionPath : Option String) :
    TaskM Unit := do
  let content ← textOrEmpty timePath
  let time := f.timeText (CalendarTime.ofSeconds (← surroundings).time)
  match revisionPath with
  | none =>
    let revision := f.revisionText (← describeRevision)
    writeBelow timePath (f.update (time ++ revision) content)
  | some path =>
    let other ← textOrEmpty path
    let revision := f.revisionText (← describeRevision)
    writeBelow timePath (f.update time content)
    let stamped := f.update revision other
    if stamped ≠ other then writeBelow path stamped

def stampPath? (f : StampFormat) (path : String) : TaskM (Option String) := do
  if Text.lower path = "none" then return none
  if f = .header then return some path
  if ← pathExists path then return some path
  return none

def stampNotice : StampFormat → String
  | .makefile => "makefile config at: "
  | .cmake => "cmake  config  at: "
  | .header => "header  config  at: "

def stampFormat (f : StampFormat) (timePath revisionPath : String) : TaskM Unit := do
  tell ("-- Update build time and version info to " ++ stampNotice f ++ "(" ++
    Text.Literal.render timePath ++ ", " ++ Text.Literal.render revisionPath ++ ")")
  match ← stampPath? f timePath with
  | none => throw (.failure (.data (.rejected "param error")))
  | some path =>
    let other ← stampPath? f revisionPath
    stampFiles f path (other.filter fun p => !p.isEmpty)

def stampRequests : List (StampFormat × String × String) → List (List String) →
    TaskM (List (StampFormat × String × String))
  | found, [] => return found
  | found, words :: rest =>
    match words with
    | [name, timePath, revisionPath] =>
      match StampFormat.ofName? name with
      | some f =>
        stampRequests
          (if found.any (·.1 == f) then
            found.map fun r => if r.1 == f then (f, timePath, revisionPath) else r
          else found ++ [(f, timePath, revisionPath)]) rest
      | none =>
        giveUp ("Format " ++ name ++ " not supported! Known formats:dict_keys([" ++
          String.intercalate ", " (StampFormat.all.map fun f => Text.Literal.render f.name) ++ "])")
    | _ => stampRequests found rest

def stamp (call : Invocation) : Outcome :=
  runTask call do
    let spec : ArgumentSpec :=
      { options :=
          [{ key := "configfile", arity := .exactly 3
             placeholders := ["FORMAT", "TIME_FILENAME", "VERSION_FILENAME"]
             about := "Write config file (format and output filename), version_filename can be " ++
               "None so all version info will append to time_filename" }]
        purpose := "generate time info for" }
    let a ← takeArguments call.name spec call.arguments
    for (f, timePath, revisionPath) in ← stampRequests [] (a.all "configfile") do
      stampFormat f timePath revisionPath

def sortComponents (call : Invocation) : Outcome :=
  runTask call do
    match call.arguments with
    | [] => throw (.failure (.data .listRange))
    | path :: components =>
      if !(← pathExists path) then throw (.status 2)
      let text ← catchFailure (readText path) fun f => giveUp ("[ERROR] " ++ f.message)
      for c in Project.sortComponents (Project.priorityNames text) components do
        modify fun s => { s with workspace := s.workspace.print (c ++ ";") }

end Buildsmith.Tool
