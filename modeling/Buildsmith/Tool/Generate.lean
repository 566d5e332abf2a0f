import Buildsmith.Kconfig.Sync
import Buildsmith.Tool.Show

/-!
# Tools that generate files for a build

From a configuration come a header for C programs, settings for build systems and lists of what the
configuration depends on.
-/

namespace Buildsmith.Kconfig

def settingLine (lead : String) (i : SymbolId) : EvalM (Option (String × String)) := do
  let s := (← read).symbol i
  let val ← symbolText i
  if !(← symbolState i).isWritten then return none
  let val := if s.kind.isLogical && val = "n" then "" else val
  return some (lead ++ s.name, "set(" ++ lead ++ s.name ++ " \"" ++ val ++ "\")\n")

def settingsText (lead header : String) : EvalM String := do
  let lines ← (← read).uniqueDefined.filterMapM (settingLine lead)
  return header ++ String.join (lines.map Prod.snd) ++
    "set(CONFIGS_LIST " ++ String.intercalate ";" (lines.map Prod.fst) ++ ")\n"

end Buildsmith.Kconfig

namespace Buildsmith.Tool

open Kconfig

def writeFile (path contents : String) : ToolM Unit := do
  let job ← get
  match job.session.workspace.write path contents.toUTF8 with
  | .error f => throw (.fault (.file f))
  | .ok w => set { job with session := job.session.mapWorkspace fun _ => w }

def readFile (path : String) : ToolM String := do
  match (← get).session.workspace.read path with
  | .error f => throw (.fault (.file f))
  | .ok bytes =>
    let decoded := Text.decodeFile .utf8 bytes
    match decoded.fault with
    | some f => throw (.fault (.undecodable f))
    | none => return decoded.unified

def genconfigPurpose : String :=
  String.intercalate "\n"
    ["Generates a header file with #defines from the configuration, matching the",
     "format of include/generated/autoconf.h in the Linux kernel.",
     "",
     "Optionally, also writes the configuration output as a .config file. See",
     "--config-out.",
     "",
     "The --sync-deps, --file-list, and --env-list options generate information that",
     "can be used to avoid needless rebuilds/reconfigurations.",
     "",
     "Before writing a header or configuration file, Kconfiglib compares the old",
     "contents of the file against the new contents. If there's no change, the write",
     "is skipped. This avoids updating file metadata like the modification time, and",
     "might save work depending on your build setup.",
     "",
     "By default, the configuration is generated from '.config'. A different",
     "configuration file can be passed in the KCONFIG_CONFIG environment variable."]

def genconfigOptions : List OptionSpec :=
  [{ key := "header-path", placeholders := ["HEADER_FILE"]
     about := "Path for the generated header file (default: config.h)" },
    { key := "config-out", placeholders := ["CONFIG_FILE"]
      about := "Write the configuration to CONFIG_FILE. This is useful if you include .config " ++
        "files in Makefiles, as the generated configuration file will be a full .config file " ++
        "even if .config is outdated. The generated configuration matches what olddefconfig " ++
        "would produce. If you use sync-deps, you can include deps/auto.conf instead. " ++
        "--config-out is meant for cases where incremental build information isn't needed." },
    { key := "sync-deps", arity := .optional
      placeholders := ["OUTPUT_DIR"]
      about := "Enable generation of symbol dependency information for incremental builds, " ++
        "optionally specifying the output directory (default: deps/). See the docstring of " ++
        "Kconfig.sync_deps() in Kconfiglib for more information." },
    { key := "file-list", placeholders := ["OUTPUT_FILE"]
      about := "Write a list of all Kconfig files to OUTPUT_FILE, with one file per line. The " ++
        "paths are relative to $srctree (or to the current directory if $srctree is unset). " ++
        "Files appear in the order they're 'source'd." },
    { key := "env-list", placeholders := ["OUTPUT_FILE"]
      about := "Write a list of all environment variables referenced in Kconfig files to " ++
        "OUTPUT_FILE, with one variable per line. Each line has the format NAME=VALUE. Only " ++
        "environment variables referenced with the preprocessor $(VAR) syntax are included, " ++
        "and not variables referenced with the older $VAR syntax (which is only supported for " ++
        "backwards compatibility)." }]

def genconfig (call : Invocation) : Outcome :=
  withArguments call
    { options := genconfigOptions, operands := .optional
      purpose := genconfigPurpose, isVerbatim := true
      operandName := "KCONFIG_FILENAME"
      operandAbout := "Top-level Kconfig file (default: Kconfig)" } fun args =>
    runOn call (args.operand "Kconfig") do
      discard (loadFile none)
      saveHeader (args.value "header-path" "config.h") headerGeneratedBy
      if let some path := args.value? "config-out" then
        discard (saveConfig (some path) generatedBy false)
      if args.uses "sync-deps" then
        syncMarks (args.value "sync-deps" "deps/")
      if let some path := args.value? "file-list" then
        writeFile path (String.join ((← get).session.reading.filenames.map (· ++ "\n")))
      if let some path := args.value? "env-list" then
        let s := (← get).session
        writeFile path (String.join (s.reading.envUsed.map fun v =>
          variableText s.workspace v "" "\n"))

/-- The forms in which a project's configuration is written. -/
inductive ConfigForm where
  | makefile
  | header
  | cmake
  deriving DecidableEq, Repr

def ConfigForm.ofName? : String → Option ConfigForm
  | "makefile" => some .makefile
  | "header" => some .header
  | "cmake" => some .cmake
  | _ => none

def putKey {α β : Type} [BEq α] (key : α) (value : β) : List (α × β) → List (α × β)
  | [] => [(key, value)]
  | (k, v) :: rest => if k == key then (k, value) :: rest else (k, v) :: putKey key value rest

def chosenOutputs (args : Arguments) : Except String (List (ConfigForm × String)) :=
  (args.all "output").foldlM
    (fun outputs words =>
      let name := words.head?.getD ""
      match ConfigForm.ofName? name with
      | some form => .ok (putKey form ((words.drop 1).head?.getD "") outputs)
      | none => .error name)
    [(.makefile, ".config")]

def setVariables (w : Workspace) (words : List String) : Except Kconfig.Fault Workspace :=
  words.foldlM
    (fun w word =>
      match Text.splitOn word "=" with
      | name :: value :: _ =>
        if (name ++ value).toList.contains '\x00' then .error (.file .nulInPath)
        else if name.isEmpty then .error .namelessVariable
        else .ok (w.setEnv name (some value))
      | _ => .error .outOfRange)
    w

def settingsHeader : String :=
  "# Generated by c_cpp_project_framework" ++
    "(https://github.com/Neutree/c_cpp_project_framework)\n" ++
    "### DO NOT edit this file!! ###\n\n"

def writeSettings (path : String) : ToolM Unit := do
  say ("-- Write  cmake  config  at: " ++ path)
  let lead := (← get).session.reading.symbolLead
  let text ← settingsText lead settingsHeader
  let isSame ←
    if (← get).session.workspace.pathExists path then pure (decide ((← readFile path) = text))
    else pure false
  if !isSame then writeFile path text

def writeBuildHeader (path : String) : ToolM Unit := do
  say ("-- write  c header file  at: " ++ path)
  let job ← get
  let w := job.session.workspace
  let old ← if w.pathExists path then readFile path else pure ""
  let text ← headerText job.session.reading.symbolLead headerGeneratedBy
  match w.getEnv? "BUILD_TYPE" with
  | none => throw (.fault .unknownName)
  | some type =>
    let type := Text.lower type
    let isRelease := ["release", "minsizerel", "relwithdebinfo"].contains type
    let (on, off) := if isRelease then ("RELEASE", "DEBUG") else ("DEBUG", "RELEASE")
    say ("-- build type:" ++ type ++ ", write " ++ on ++ " definition to c header")
    let text := text ++ "#define " ++ on ++ " 1\n#define " ++ off ++ " 0\n"
    if old = text then say "-- c header file not changed, skip write"
    else writeFile path text

def writeOutput (isEdited : Bool) : ConfigForm × String → ToolM Unit
  | (.makefile, path) => do
    say ("-- Write makefile config at: " ++ path)
    if !isEdited then discard (saveFile (some path))
  | (.cmake, path) => writeSettings path
  | (.header, path) => writeBuildHeader path

def makeDirFor (path : String) : ToolM Unit := do
  let dir := Path.dirName path
  let w := (← get).session.workspace
  if !w.pathExists dir then changingFiles (·.makeDirs · dir)

def loadDefaults (paths : List String) : ToolM Unit :=
  paths.forM fun path => do
    if !(← get).session.workspace.pathExists path then throw (.missingDefaults path)
    say ("-- Load default: " ++ path)
    discard (loadConfig (some path) false)

def projectOptions : List OptionSpec :=
  [{ key := "kconfig", placeholders := ["FILENAME"]
     about := "KConfig file" },
    { key := "defaults", placeholders := ["FILENAME"]
      about := "Optional project defaults file. Multiple files can be specified using multiple " ++
        "--defaults arguments." },
    { key := "output", arity := .exactly 2
      placeholders := ["FORMAT", "FILENAME"]
      about := "Write output file (format and output filename)" },
    { key := "env", placeholders := ["VAR=VALUE"]
      about := "Environment to set when evaluating the config file" },
    { key := "menuconfig", choices := ["False", "True"]
      about := "Open menuconfig GUI interface" }]

def projectGenconfig (call : Invocation) : Outcome :=
  withArguments call { options := projectOptions, purpose := "menuconfig tool" } fun args =>
    match setVariables call.workspace ((args.all "env").flatten) with
    | .error f => stopAt call (.fault f)
    | .ok w =>
      match chosenOutputs args with
      | .error name =>
        { stop := some (.status 1)
          workspace := w.print ("Format " ++ name ++ " not supported! Known formats:" ++
            "dict_keys(['makefile', 'header', 'cmake'])\n") }
      | .ok outputs =>
        let target := ((outputs.find? fun o => o.1 = .makefile).map Prod.snd).getD ".config"
        let w := if target = ".config" then w else w.setEnv "KCONFIG_CONFIG" (some target)
        let isEdited := args.value "menuconfig" "False" = "True"
        runOn { call with workspace := w } (args.value "kconfig" "Kconfig") do
          if (← get).session.workspace.pathExists target then discard (loadFile none)
          else loadDefaults ((args.all "defaults").flatten)
          if isEdited then runConsole call.terminal
          outputs.forM fun o => makeDirFor o.2
          outputs.forM (writeOutput isEdited)

end Buildsmith.Tool
