import Buildsmith.Binding.Generate
import Buildsmith.Publish.Basic

/-!
# Bindings from headers

A header is read into a tree of published items, and bindings are generated from the tree.
-/

namespace Buildsmith.Publish

open Data Header

def headerFault (path : String) (r : Refusal) : Fault :=
  let lead := "\n\nparse_api_from_header \x1b[1;31m " ++ path ++ " \x1b[0m error:\n"
  match r with
  | .refused text => .header (lead ++ text) none
  | .fault (.rejected text) => .header (lead ++ text) none
  | .fault f => .header (lead ++ f.message) (some f)

def readHeader (path : String) (tree : Value) (tags : List String) (top : String) :
    PublishM (Value × Addition) := do
  let code ← readText path
  let source : Source :=
    { code, name := some (Path.baseName path), path := some path, module_ := top, tags }
  let (result, library) := (addHeader source).run.run { tree }
  modify (·.print library.out)
  match result with
  | .ok addition => return (library.tree, addition)
  | .error r =>
    match r with
    | .fault f => modify (·.report f.message)
    | .refused _ => pure ()
    throw (headerFault path r)

def writeBinding (tree : Value) (header top out : String) : PublishM (Option String) := do
  match ← onData (Binding.generate tree header top) with
  | none => return none
  | some text =>
    if !out.isEmpty then
      let dir := Path.dirName out
      if !dir.isEmpty then ensureDir dir
      writeText out text
    return some text

def priorities (text : String) : List String :=
  ((Text.physicalLines text).map Text.trim).filter fun l =>
    !(Text.startsWith l "#" || l.isEmpty)

def rank (order : List String) (header : String) : Nat :=
  let name := Path.baseName header
  (order.findIdx? (· = name)).getD order.length

def sortByRank (order headers : List String) : List String :=
  headers.mergeSort fun a b => rank order a ≤ rank order b

def sortHeaders (headers : List String) (path : String) : PublishM (List String) := do
  if !(← get).pathExists path then return headers
  return sortByRank (priorities (← readText path)) headers

end Buildsmith.Publish
