import Buildsmith.Project.Settings
import Buildsmith.Tool.Basic

/-!
# Building a project

A project is configured, built and cleaned by commands.  Its settings are kept between them.  The
commands that flash a device and that run the built program are extensions, which a development kit
may lack.
-/

namespace Buildsmith.Tool

open Data Publish Text

/-- Where a project stands and how it is to be configured. -/
structure ProjectPlan where
  /-- The directory of the project. -/
  dir : List String
  /-- The development kit. -/
  kit : String
  /-- Components from elsewhere, if any. -/
  components : Option String := none
  /-- Further words for the configuration of the build. -/
  extra : List String := []

def ProjectPlan.path (p : ProjectPlan) : String := Path.render p.dir

/-- A command that is being carried out. -/
structure BuildCommand where
  plan : ProjectPlan
  /-- The name of the project. -/
  name : String
  arguments : Arguments
  settings : Fields
  buildType : String
  /-- The extensions that the development kit has. -/
  extensions : List String
  /-- The words that were given. -/
  words : List String

def BuildCommand.command (c : BuildCommand) : String := c.arguments.operand ""

def settingsFile : String := ".config.mk"

def generatedConfig : String := "build/config/global_config.mk"

def generatorKey : String := "CONFIG_CMAKE_GENERATOR"

def projectName? (text : String) : Option String :=
  (splitOn text "\n").findSome? fun line => do
    let (_, rest) ← cut? line "set(PROJECT_NAME "
    let (name, _) ← cutLast? rest ")"
    return name

def findProjectName (p : ProjectPlan) : TaskM String := do
  let path := p.path ++ "/CMakeLists.txt"
  let name ← match projectName? (← readText path) with
    | none => pure ""
    | some name => do
      let name := if contains name "project_dir_name" then p.dir.getLast?.getD "" else name
      tell ("-- project name: " ++ name)
      pure name
  if name.isEmpty then
    giveUp ("[ERROR] Can not find project name in " ++ path ++
      ", not set(PROJECT_NAME $\x7bproject_name\x7d)")
  return name

def flashOptions : List OptionSpec :=
  [{ key := "port", names := ["-p", "--port"] },
    { key := "baudrate", names := ["-b", "--baudrate"], isInteger := true },
    { key := "terminal", names := ["-t", "--terminal"], arity := .exactly 0 }]

def extensionCommands : String → List String
  | "flash" => ["flash", "clean_conf"]
  | "run" => ["run"]
  | _ => []

def buildSpec (extensions : List String) : ArgumentSpec :=
  { options := (if extensions.contains "flash" then flashOptions else []) ++
      [{ key := "toolchain" },
        { key := "toolchain_prefix", names := ["--toolchain-prefix"] },
        { key := "config_file" },
        { key := "verbose", arity := .exactly 0 },
        { key := "generator", names := ["-G", "--generator"] },
        { key := "release", arity := .exactly 0 },
        { key := "build_type", names := ["--build-type"] }]
    operands := .oneOf
      (["config", "build", "rebuild", "menuconfig", "clean", "distclean", "clean_conf"] ++
        extensions.flatMap extensionCommands) }

def findExtensions (kit : String) : PublishM (List String) := do
  let w ← get
  match w.files.list w.cwd (Path.joinAll kit ["tools", "cmds"]) with
  | .error f => throw (.file f)
  | .ok names =>
    return (names.filter (endsWith · ".py")).map fun n => slice n 0 (-3)

def loadSettings : PublishM Fields := do
  if !(← pathExists settingsFile) then return []
  onData (Project.readSettings (← readText settingsFile))

def adjustSettings (a : Arguments) (settings : Fields) : TaskM Fields := do
  let given (key : String) : Option String := (a.value? key).filter fun s => !(trim s).isEmpty
  let tidied (s : String) : Value := .text (replace (trim s) "\\" "/")
  let settings := match given "generator" with
    | some g => Fields.put generatorKey (.text g) settings
    | none => settings
  let settings ← match given "toolchain" with
    | none => pure settings
    | some path => do
      needFile path ("[ERROR] config toolchain path error: " ++ path)
      pure (Fields.put "CONFIG_TOOLCHAIN_PATH" (tidied path) settings)
  let settings := match given "toolchain_prefix" with
    | some lead => Fields.put "CONFIG_TOOLCHAIN_PREFIX" (tidied lead) settings
    | none => settings
  match Fields.get? settings generatorKey with
  | some g =>
    if g.isTruthy then return settings
  | none => pure ()
  tell "no generator set, will use \"Unix Makefiles\" as default"
  return Fields.put generatorKey (.text "Unix Makefiles") settings

def storeSettings (settings : Fields) : PublishM Unit := do
  let (text, fault) := Project.writeSettings settings
  writeText settingsFile text
  match fault with
  | none => return
  | some f => throw (.data f)

def saveSettings (settings : Fields) : TaskM Unit := do
  storeSettings settings
  if ← pathExists generatedConfig then
    onFiles (·.remove · generatedConfig)
  tell ("generate config file at: " ++ settingsFile)

def chooseBuildType (a : Arguments) (w : Workspace) : String :=
  let given := a.value "build_type" ""
  if !given.isEmpty then given
  else if a.uses "release" then "MinSizeRel"
  else (w.getEnv? "CMAKE_BUILD_TYPE").getD "Debug"

def enterBuild : PublishM Unit := do
  if !(← pathExists "build") then onFiles (·.makeDir · "build")
  changeDir "build"

def mustLaunch (words : List String) : TaskM Unit := do
  let (status, _) ← launch words
  if status ≠ 0 then throw (.status 1)

namespace BuildCommand

def defaults (c : BuildCommand) : String :=
  c.arguments.value "config_file" (c.plan.path ++ "/config_defaults.mk")

def generator (c : BuildCommand) : Value :=
  (Fields.get? c.settings generatorKey).getD (.text "")

def configure (c : BuildCommand) : TaskM Unit := do
  let path := Path.render (Path.absolute [] (Path.join c.plan.path c.defaults))
  needFile path ("config file path error:" ++ path)
  tell ("-- build type: " ++ c.buildType)
  let components := match c.plan.components with
    | some dir => [Value.text ("-DCUSTOM_COMPONENTS_PATH=" ++ dir)]
    | none => []
  let front := [.text "cmake", .text "-G", c.generator, .text ("-DCMAKE_BUILD_TYPE=" ++ c.buildType)] ++
    components ++ [.text ("-DDEFAULT_CONFIG_FILE=" ++ path)]
  let extra := c.plan.extra.map Value.text
  tell ("-- [DEBUG] Before adding extra_cmake_args: " ++ (Value.list (front ++ [.text ".."])).literal)
  tell ("-- [DEBUG] extra_cmake_args value: " ++ (Value.list extra).literal)
  let words := front ++ extra ++ [.text ".."]
  tell ("-- [DEBUG] Final cmake command: " ++ (← onData (Value.join " " words)))
  mustLaunch (words.map (·.display))

def buildWords (c : BuildCommand) (processors : Nat) : List String :=
  let generator := c.generator.text?
  if c.arguments.uses "verbose" then
    if generator == some "Unix Makefiles" then ["--", "VERBOSE=1"]
    else if generator == some "Ninja" then ["--", "-v"]
    else []
  else if generator == some "Unix Makefiles" || generator == some "Ninja" then
    ["--", "-j" ++ Text.Integer.natText processors]
  else []

def build (c : BuildCommand) : TaskM Unit := do
  tell "build now"
  enterBuild
  let isMade ← pathExists "Makefile"
  if !isMade || c.command = "rebuild" then c.configure
  mustLaunch (["cmake", "--build", ".", "--target", "all"] ++
    c.buildWords (← surroundings).processors)
  tell "=================================="
  tell "build end, time last:0.00s"
  tell "=================================="

def cleanBuild : TaskM Unit := do
  changeDir "build"
  let (status, output) ← launch ["cmake", "--build", ".", "--target", "clean"]
  if status = 0 then tell output

def clean : TaskM Unit := do
  tell "clean now"
  if ← pathExists "build" then cleanBuild
  tell "clean complete"

def removeDir (path : String) : PublishM Unit := do
  if ← pathExists path then onFiles (·.removeAll · path)

def distclean (c : BuildCommand) : TaskM Unit := do
  tell "clean now"
  let path := Path.joinAll c.plan.path ["build", "config", "global_config.mk"]
  let kept ← if ← pathExists path then
      match (← surroundings).read path with
      | .ok bytes => do
        tell ("-- Backup " ++ path ++ " to /TMPFILE")
        pure (some bytes)
      | .error f => throw (.failure (.file f))
    else pure none
  if ← pathExists "build" then
    cleanBuild
    changeDir ".."
    removeDir "build"
  removeDir "dist"
  match kept with
  | some bytes =>
    ensureDir (Path.dirName path)
    onFiles (·.write · path bytes)
    tell ("-- Restore " ++ path ++ " from backup")
  | none => pure ()
  tell "clean complete"

def defaultFiles (c : BuildCommand) (w : Workspace) : List String :=
  let own := Path.join c.plan.path "config_defaults.mk"
  let settings := Path.join c.plan.path settingsFile
  (if !c.defaults.isEmpty && w.pathExists c.defaults then [c.defaults]
    else if w.pathExists own then [own] else []) ++
    if w.pathExists settings then [settings] else []

def menu (c : BuildCommand) : TaskM Unit := do
  enterBuild
  let kit := c.plan.kit
  let tool := Path.join kit "tools/kconfig/genconfig.py"
  needFile tool ("[ERROR] kconfig tool not found: " ++ tool)
  let w ← surroundings
  let out := Path.join (Path.render w.cwd) "config"
  let output (format file : String) : List String := ["--output", format, Path.join out file]
  mustLaunch (["python", tool, "--kconfig", Path.join kit "Kconfig"] ++
    (c.defaultFiles w).flatMap (fun path => ["--defaults", path]) ++
    ["--menuconfig", "True", "--env", "SDK_PATH=" ++ kit, "--env", "PROJECT_PATH=" ++ c.plan.path,
      "--env", "BUILD_TYPE=" ++ c.buildType] ++
    output "makefile" "global_config.mk" ++ output "cmake" "global_config.cmake" ++
    output "header" "global_config.h")

end BuildCommand

end Buildsmith.Tool
