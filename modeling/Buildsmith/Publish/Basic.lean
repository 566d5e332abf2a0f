import Buildsmith.Data.Json
import Buildsmith.FileTree.Basic
import Buildsmith.Text.Encoding

/-!
# Publishing

Headers are read from files, and bindings and documentation are written to files.  What was written
before a failure stays.
-/

namespace Buildsmith.Publish

open Text.Integer

/-- Why publishing fails. -/
inductive Fault where
  | data (f : Data.Fault)
  | file (f : FileFault)
  /-- A file is no text. -/
  | undecodable (f : Text.DecodeFault)
  /-- A header fails; the cause is given if it is not a refusal. -/
  | header (text : String) (cause : Option Data.Fault)
  /-- A file is no JSON. -/
  | notJson
  /-- A file that is needed is missing. -/
  | absent (text : String)

def fileFaultText : FileFault → String
  | .failed cause path =>
    "[Errno " ++ natText cause.number ++ "] " ++ cause.message ++ ": " ++
      Text.Literal.render path
  | .nulInPath => "embedded null byte"

def decodeFaultText (f : Text.DecodeFault) : String :=
  let place := match f.culprit with
    | [b] =>
      "byte 0x" ++ String.ofList (Text.Literal.hexDigits 2 b.toNat) ++ " in position " ++
        natText f.start
    | bytes =>
      "bytes in position " ++ natText f.start ++ "-" ++
        natText (f.start + bytes.length - 1)
  "'" ++ f.encoding.name ++ "' codec can't decode " ++ place ++ ": " ++ f.reason.message

def Fault.message : Fault → String
  | .data f => f.message
  | .file f => fileFaultText f
  | .undecodable f => decodeFaultText f
  | .header text _ => text
  | .notJson => "not JSON"
  | .absent text => text

abbrev PublishM := ExceptT Fault (StateM Workspace)

def onData {α : Type} : Except Data.Fault α → PublishM α
  | .ok a => return a
  | .error f => throw (.data f)

def onFiles (f : FileTree → List String → Except FileFault FileTree) : PublishM Unit := do
  let w ← get
  match f w.files w.cwd with
  | .ok files => set { w with files }
  | .error f => throw (.file f)

def say (s : String) : PublishM Unit := modify (·.print (s ++ "\n"))

def readText (path : String) : PublishM String := do
  match (← get).read path with
  | .error f => throw (.file f)
  | .ok bytes =>
    let decoded := Text.decodeFile .utf8 bytes
    match decoded.fault with
    | some f => throw (.undecodable f)
    | none => return decoded.unified

def readJson (path : String) : PublishM Data.Value := do
  match Data.Json.parse? (← readText path) with
  | some v => return v
  | none => throw .notJson

def writeText (path text : String) : PublishM Unit :=
  onFiles (·.write · path text.toUTF8)

def ensureDir (path : String) : PublishM Unit :=
  onFiles (·.ensureDirs · path)

def pathExists (path : String) : PublishM Bool := do
  return (← get).pathExists path

def changeDir (path : String) : PublishM Unit := do
  let w ← get
  match w.files.resolve w.cwd path with
  | .error f => throw (.file f)
  | .ok place =>
    match w.files.get? place with
    | some .directory => set { w with cwd := place }
    | some (.file _) => throw (.file (.failed .notDirectory path))
    | none => throw (.file (.failed .notFound path))

def launchIn (directory words : List String) : PublishM (Int × String) := do
  let (reply, w) := (← get).launch directory words
  set w
  match reply with
  | .ended status output => return (status, output)
  | .notInstalled => throw (.file (.failed .notFound (words.head?.getD "")))

def launch (words : List String) : PublishM (Int × String) := do
  launchIn (← get).cwd words

end Buildsmith.Publish
