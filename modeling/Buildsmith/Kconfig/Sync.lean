import Buildsmith.Kconfig.ConfigFile

/-!
# Marks for builds

A build that depends on single symbols looks at one empty file per symbol.  Such a file is made
anew when the value of its symbol differs from the one that the previous build saw.  The values of
the previous build are kept in a list beside these files.
-/

namespace Buildsmith.Kconfig

def markPath (dir name : String) : String :=
  dir ++ "/" ++ Text.replace (Text.lower name) "_" "/" ++ ".h"

def changingFiles (f : FileTree → List String → Except FileFault FileTree) : SessionM Unit := do
  let w := (← get).workspace
  match f w.files w.cwd with
  | .ok files => modify (·.mapWorkspace fun w => { w with files := files })
  | .error fault => throw (.file fault)

def touchMark (dir name : String) : SessionM Unit := do
  let path := markPath dir name
  let parent := Path.dirName path
  if !(← get).workspace.pathExists parent then changingFiles (·.makeDirs · parent)
  changingFiles (·.write · path ByteArray.empty)

def loadOldLine (dir line : String) : SessionM Unit := do
  let s ← get
  match ← s.readLine line with
  | .set name value =>
    match s.namedSymbol? name, name with
    | some i, _ =>
      let value? := value.getD ""
      let value? :=
        if (s.model.symbol i).kind = .string then
          (Text.Quoted.literalBody? value?).map Text.Quoted.unescape
        else some value?
      if let some v := value? then
        modify fun s =>
          { s with values := s.values.modifySymbol i fun x => { x with oldText := some v } }
    | none, some n => touchMark dir n
    | none, none => throw .inapplicable
  | _ => return ()

def loadOldValues (dir : String) : SessionM Unit := do
  modify fun s =>
    { s with
      values := s.model.uniqueDefined.foldl
        (fun v i => v.modifySymbol i fun x => { x with oldText := none }) s.values }
  let s ← get
  match s.workspace.read (Path.join dir "auto.conf") with
  | .error (.failed .notFound _) => return ()
  | .error f => throw (.file f)
  | .ok bytes =>
    let decoded := Text.decodeFile s.reading.encoding bytes
    for line in decoded.lines do
      loadOldLine dir line
    if let some f := decoded.fault then throw (.undecodable f)

def hasChanged (i : SymbolId) : EvalM Bool := do
  let val ← symbolText i
  let x ← symbolState i
  match x.oldText with
  | none => return x.isWritten && !(((← read).symbol i).kind.isLogical && val = "n")
  | some old => return !(x.isWritten && val = old)

def touchChanged (dir : String) (symbols : List SymbolId) : SessionM Unit := do
  for i in symbols do
    if ← evaluating (hasChanged i) then touchMark dir ((← get).model.symbol i).name

def writeList (dir : String) : SessionM Unit := do
  let text ← evaluating (valuesText (← get).reading.symbolLead)
  writeIfChanged (Path.join dir "auto.conf") text

def renewMarks (dir : String) : SessionM Unit := do
  loadOldValues dir
  touchChanged dir (← get).model.uniqueDefined
  writeList dir

/-- Touches the marks of symbols that have changed. -/
def syncMarks (dir : String) : SessionM Unit := do
  if !(← get).workspace.pathExists dir then changingFiles (·.makeDir · dir)
  renewMarks dir

end Buildsmith.Kconfig
