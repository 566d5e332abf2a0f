import Buildsmith.Markdown.Module
import Buildsmith.Publish.Basic

/-!
# Documentation of a library

A page is written for each module below the top, and for the modules inside it.  Beside the pages
stand the whole tree, a table of contents and an overview.
-/

namespace Buildsmith.Publish

open Data

/-- How a page is written, from the names of the modules around, a name, an opening text and the
module. -/
abbrev PageWriter := List String → String → String → Value → Except Data.Fault String

/-- How documentation is laid out. -/
structure DocsLayout where
  dir : String
  /-- What joins the names of modules. -/
  join : String
  /-- The opening text of a page, from the full name of its module. -/
  start : String → String
  page : PageWriter

def writePage (l : DocsLayout) (parents : List String) (name : String) (item : Value) :
    PublishM Fields := do
  let file := String.intercalate "/" parents ++ "/" ++ name ++ ".md"
  let path := Path.join l.dir file
  ensureDir (Path.dirName path)
  let full := String.intercalate l.join (parents ++ [name])
  let text ← onData (l.page parents name (l.start full) item)
  writeText path text
  return [("label", .text name), ("collapsed", .flag false), ("file", .text file)]

def hasModule : Fields → Except Data.Fault Bool
  | [] => .ok false
  | (_, item) :: rest => do
    if (← item.field "type").text? == some "module" then return true else hasModule rest

mutual

def writePages (l : DocsLayout) (parents : List String) :
    List (String × Value) → PublishM (List Value)
  | [] => return []
  | (name, item) :: rest => do
    let first ← writeMember l parents name item
    return first ++ (← writePages l parents rest)

def writeMember (l : DocsLayout) (parents : List String) (name : String) (item : Value) :
    PublishM (List Value) := do
  if (← onData (item.field "type")).text? != some "module" then return []
  let entry ← writePage l parents name item
  match item with
  | .record fields =>
    let inner ← writeInside l (parents ++ [name]) fields
    return [.record (entry ++ match inner with
      | some items => [("items", .list items)]
      | none => [])]
  | _ => return [.record entry]

def writeInside (l : DocsLayout) (parents : List String) :
    List (String × Value) → PublishM (Option (List Value))
  | [] => throw (.data (.missing "members"))
  | (key, value) :: rest =>
    if key == "members" then
      match value with
      | .record members => do
        if ← onData (hasModule members) then return some (← writePages l parents members)
        else return none
      | v => throw (.data (.unsupported v.kindName "items"))
    else writeInside l parents rest

end

def overviewEntry : Value :=
  .record [("label", .text "Brief"), ("file", .text "README.md")]

def sidebar (name : String) (entries : List Value) : Fields :=
  [("items", .list [overviewEntry,
    .record [("label", .text name), ("collapsed", .flag false), ("items", .list entries)]])]

def docsStart (full : String) : String :=
  "\n> This is `" ++ full ++ "` module documentation.\n> All of these elements are in namespace `" ++
    full ++ "`.\n>\n> DO NOT edit this doc file manually, this doc is auto generated!\n\n"

def overviewBrief (item : Value) : Except Data.Fault String := do
  let doc ← item.fieldOr "doc" .null
  let brief ← match doc with
    | .record fs => pure ((Fields.get? fs "brief").getD (.text ""))
    | _ => do pure (.text (← item.fieldOr "doc" (.text "")).display)
  Markdown.cell brief

def overview (name : String) (members : Fields) : Except Data.Fault String := do
  let rows ← members.mapM fun (m, item) => do
    return "| [" ++ name ++ "." ++ m ++ "](./" ++ name ++ "/" ++ m ++ ".md) | " ++
      (← overviewBrief item) ++ " |\n"
  return "\n---\ntitle: " ++ name ++ " API Documentation\n---\n\n" ++
    "> This API documentation is auto-generated from source code.\n\n## Modules\n\n" ++
    "| Module | Description |\n| --- | --- |\n" ++ String.join rows

/-- Writes the pages of a module; the sidebar is written by `toYaml`. -/
def writeDocs (toYaml : Fields → String) (tree : Value) (name dir : String) (full : Bool) :
    PublishM Unit := do
  let members ← onData (tree.fieldOr "members" (.record []))
  if !(← onData (members.holds name)) then return ()
  ensureDir dir
  writeText (Path.join dir ("api_" ++ name ++ ".json")) (Json.render false tree)
  let members ← onData do (← (← tree.field "members").field name).field "members"
  let members ← onData members.fields
  let layout : DocsLayout :=
    { dir, join := ".", start := docsStart
      page := fun parents name start item =>
        if full then Markdown.moduleText parents name start "." item
        else Markdown.moduleOutline parents name start item }
  let entries ← writePages layout [name] members
  writeText (Path.join dir ("sidebar_" ++ name ++ ".yaml")) (toYaml (sidebar name entries))
  writeText (Path.join dir ("README_" ++ name ++ ".md")) (← onData (overview name members))
  say ("-- Generated docs: " ++ dir)

end Buildsmith.Publish
