import Buildsmith.Data.Yaml
import Buildsmith.Publish.Bindings
import Buildsmith.Publish.Docs
import Buildsmith.Tool.Basic

/-!
# Tools that publish headers

One tool generates a binding for each header, the other one documents a whole library.  Both find
headers below directories.
-/

namespace Buildsmith.Tool

open Data Publish

def isHeader (path : String) : Bool :=
  Text.endsWith path ".h" || Text.endsWith path ".hpp"

def headersOf (visits : List (String × List String)) : List String :=
  visits.flatMap fun (dir, names) => (names.map (Path.join dir)).filter isHeader

def headersBelow (w : Workspace) (dir : String) : List String :=
  headersOf (w.files.walk w.cwd dir)

def listedHeaders (path : String) : PublishM (List String) := do
  let listed ← readJson path
  let dirs ← onData do (← listed.field "includes").elements
  let w ← get
  let found ← dirs.mapM fun d => onData (match d with
    | .text dir => .ok (headersBelow w dir)
    | v => .error (.unsuited ("expected str, bytes or os.PathLike object, not " ++ v.kindName)))
  return found.flatten

def elapsed : String := "0.00s"

abbrev Generated := List (String × String)

def bindHeader (tag out docs header : String) : TaskM Generated := do
  let name := Binding.moduleName header
  let read ← catchFailure (some <$> readHeader header (.record []) [tag] name) fun f => do
    tell ("-- Warning: Failed to parse " ++ header ++ ": " ++ f.message)
    return none
  match read with
  | none => return []
  | some (tree, addition) =>
    if !addition.isUpdated then return []
    let file := Path.join out ("bind_" ++ name ++ ".cpp")
    match ← writeBinding tree header name file with
    | none => return []
    | some _ =>
      tell ("-- Generated binding: " ++ file ++ " (module: " ++ name ++ ")")
      if !docs.isEmpty then writeDocs (Yaml.render true) tree name docs true
      return [(name, header)]

def bindHeaders (tag out docs : String) : List String → TaskM Generated
  | [] => return []
  | header :: rest => do
    let first ← bindHeader tag out docs header
    return first ++ (← bindHeaders tag out docs rest)

def bindingHeaders (a : Arguments) : TaskM (List String) := do
  let listed := a.value "vars" ""
  if !listed.isEmpty then return ← listedHeaders listed
  let dir := a.value "input" "./main/include"
  needFile dir ("Error: Input directory not found: " ++ dir)
  return headersBelow (← surroundings) dir

def bindTask (name : String) (home : Option (List String)) (words : List String) : TaskM Unit := do
  tell "-- Generate C/C++ API bindings"
  let spec : ArgumentSpec :=
    { options :=
        [{ key := "vars", about := "CMake global variables file" },
          { key := "input", names := ["-i", "--input"]
            about := "Input directory for header files (default: ./main/include)" },
          { key := "output", names := ["-o", "--output"]
            about := "Output directory for binding files (default: ./main/src)" },
          { key := "sdk_path", about := "SDK path" },
          { key := "sdk_tag"
            about := "SDK tag to search for in comments (default: module)" },
          { key := "doc"
            about := "Output directory for documentation (optional, no doc generated if not " ++
              "specified)" }]
      purpose := "Generate C/C++ API bindings (one module per header file)" }
  let a ← takeArguments name spec words
  let headers ← bindingHeaders a
  let headers ← match home with
    | some dir =>
      sortHeaders headers (Path.join (Path.render dir) "headers_priority.txt")
    | none => pure headers
  let out := a.value "output" "./main/src"
  let docs := a.value "doc" ""
  ensureDir out
  if !docs.isEmpty then ensureDir docs
  let generated ← bindHeaders (a.value "sdk_tag" "module") out docs headers
  tell ("\n-- Summary: Generated " ++ Text.Integer.natText generated.length ++ " module(s) in " ++
    elapsed)
  for (name, header) in generated do
    tell ("   - " ++ name ++ " from " ++ Path.baseName header)
  if !docs.isEmpty then tell ("\n-- Documentation generated in: " ++ docs)
  tell "\n-- To use in Python:"
  for (name, _) in generated do
    tell ("   import " ++ name)

def bind (call : Invocation) : Outcome :=
  runTask call (bindTask call.name call.home call.arguments)

def kitHeaders (w : Workspace) (kit : String) : List String :=
  let excluded := Path.join kit "components/3rd_party"
  headersOf ((w.files.walk w.cwd (Path.join kit "components")).filter fun v =>
    !Text.contains v.1 excluded)

abbrev Published := List (String × List String)

def sharedName? (published : Published) (names : List String) : Option (String × String) :=
  published.findSome? fun (header, own) =>
    (own.find? (names.contains ·)).map fun n => (n, header)

def addHeaders (tag top : String) : Value → Published → List String → PublishM Value
  | tree, _, [] => return tree
  | tree, published, header :: rest => do
    let (tree, addition) ← readHeader header tree [tag] top
    match sharedName? published addition.keys with
    | some (name, other) =>
      throw (.data (.rejected ("API " ++ name ++ " multiple defined in " ++ other ++ " and " ++
        header)))
    | none =>
      let published := if published.any (·.1 == header) then
          published.map fun p => if p.1 == header then (header, addition.keys) else p
        else published ++ [(header, addition.keys)]
      addHeaders tag top tree published rest

def kitStart (full : String) : String :=
  "\n> This is `" ++ full ++ "` module of [MaixCDK](https://github.com/sipeed/MaixCDK).\n" ++
    "> All of these elements are in namespace `" ++ full ++
    "`.\n>\n> For MaixCDK developer: DO NOT edit this doc file manually, this doc is auto generated!\n\n"

def kitOverview (top : String) (members : Fields) : Except Data.Fault String := do
  let rows ← members.mapM fun (m, item) => do
    let brief ← (← (← item.field "doc").field "brief").textFor "replace"
    return "|[" ++ top ++ "::" ++ m ++ "](./" ++ top ++ "/" ++ m ++ ".md) | " ++
      Text.replace brief "\n" "<br>" ++ " |\n"
  return "\n---\ntitle: MaixCDK API -- Maix AI machine vision platform C/C++ API\n---\n\n" ++
    "> For MaixCDK developer: This API documentation is generated from the source code, " ++
    "DO NOT edit this file manually!\n\n\nMaixCDK API documentation, modules:\n\n" ++
    "| module | brief |\n| --- | --- |\n" ++ String.join rows

def writeKitDocs (toYaml : Fields → String) (tree : Value) (top dir : String) : PublishM Unit := do
  if !(← pathExists dir) then onFiles (·.makeDirs · dir)
  writeText (Path.join dir "api.json") (Json.render true tree)
  let members ← onData do
    (← (← (← tree.field "members").field top).field "members").fields
  let layout : DocsLayout :=
    { dir, join := "::", start := kitStart
      page := fun parents name start item => Markdown.moduleText parents name start "::" item }
  let entries ← writePages layout [top] members
  writeText (Path.join dir "sidebar.yaml") (toYaml (sidebar top entries))
  writeText (Path.join dir "README.md") (← onData (kitOverview top members))

def document (call : Invocation) : Outcome :=
  runTask call do
    tell "-- Generate C/C++ API"
    let spec : ArgumentSpec :=
      { options :=
          [{ key := "vars"
             about := "CMake global variables file, a json file in build/config dir" },
            { key := "doc", about := "API documentation output file" },
            { key := "sdk_path", about := "SDK path" },
            { key := "module_name", about := "module name" },
            { key := "sdk_tag"
              about := "SDK tag to search for (default: module)" }]
        purpose := "Generate C/C++ API" }
    let a ← takeArguments call.name spec call.arguments
    let listed := a.value "vars" ""
    let top := a.value "module_name" "maix"
    let headers ← if listed.isEmpty then
        pure (kitHeaders (← surroundings) (a.value "sdk_path" ""))
      else listedHeaders listed
    let tree ← addHeaders (a.value "sdk_tag" "module") top (.record []) [] headers
    tell "-- Generating MaixCDK API documentation"
    writeKitDocs (Yaml.render false) tree top (a.value "doc" "")
    tell ("-- Generate MaixCDK API doc complete (" ++ elapsed ++ ")")

end Buildsmith.Tool
