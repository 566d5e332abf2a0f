import Buildsmith.Tool.Build
import Buildsmith.Tool.Document

/-!
# The project tool

The tool stands in the directory of its project.  It chooses the target from the generated
configuration and carries out commands; if the configuration asks for it, a build also generates
bindings before and a package afterwards.
-/

namespace Buildsmith.Tool

open Data Publish Text.Integer

/-!
## Extensions of the build

The command `flash` keeps its own settings in a file.  The command `run` starts the program that was
built.
-/

def flashSettingsFile (p : ProjectPlan) : String := p.path ++ "/.flash.conf.json"

def keptFlashSettings (path : String) : TaskM Value := do
  try readJson path
  catch _ => return .record []

def elementAt (xs : List Value) (i : Int) : Except Data.Fault Value :=
  let k := if i < 0 then i + xs.length else i
  match if k < 0 then none else xs[k.toNat]? with
  | some v => .ok v
  | none => .error .listRange

/-- Copies a list by the integers in it: each becomes a field with the element that it counts. -/
def copyCounted (xs : List Value) : List Int → List Value → Except Data.Fault Fields
  | _, [] => .ok []
  | seen, x :: rest => do
    let (key, i) ← match x with
      | .number i => .ok (text i, i)
      | .flag b => .ok (if b then ("true", (1 : Int)) else ("false", 0))
      | x => .error (Data.Fault.unsuited
          ("list indices must be integers or slices, not " ++ x.kindName))
    let v ← elementAt xs i
    let more ← copyCounted xs (i :: seen) rest
    return if seen.contains i then more else (key, v) :: more

def copySettings : Value → Except Data.Fault Fields
  | .record fs => .ok fs
  | .list xs => copyCounted xs [] xs
  | v => do
    match ← v.elements with
    | [] => .ok []
    | _ => .error (.unsuited "string indices must be integers, not 'str'")

def flashSettings (a : Arguments) (kept : Fields) : Fields :=
  let set (key : String) (value default : Value) (fs : Fields) : Fields :=
    if value != default || !Fields.has fs key then Fields.put key value fs else fs
  let speed := ((a.value? "baudrate").bind (parse? 10 ·)).getD 115200
  set "baudrate" (.number speed) (.number 115200)
    (set "port" (.text (a.value "port" "")) (.text "") kept)

def flashDevice (settingsFile projectPath : String) (a : Arguments) : TaskM (Option Int) := do
  let kept ← keptFlashSettings settingsFile
  let settings := flashSettings a (← onData (copySettings kept))
  if Value.record settings != kept then
    tell ("-- flash config changed, update at " ++ settingsFile)
    writeText settingsFile (Json.render true (.record settings))
  if Fields.has settings "terminal" then throw (.failure (.data (.missing "terminal")))
  let shown (key : String) : String := ((Fields.get? settings key).getD .null).display
  tell "== flash start =="
  tell "!!! please write flash ops here ..."
  tell ("-- flash port    :" ++ shown "port")
  tell ("-- flash baudrate:" ++ shown "baudrate")
  tell ("project path:" ++ projectPath)
  if Fields.get? settings "port" == some (.text "") then
    tell ("[ERROR] Invalid port:" ++ shown "port" ++ ", set by -p or --port, e.g. -p /dev/ttyUSB0")
    return some 1
  tell "== flash end =="
  return none

def flashFirmware (settingsFile : String) (words : List String) : TaskM (Option Int) := do
  tell "-- call flash.py directly!"
  let a ← takeArguments "flash.py" { options := flashOptions, operands := .one, hasHelp := false } words
  let firmware := a.operand ""
  if !(← pathExists firmware) then
    tell ("firmware not found:" ++ firmware)
    return some 1
  flashDevice settingsFile "" a

def flash (c : BuildCommand) : TaskM (Option Int) := do
  let file := flashSettingsFile c.plan
  if c.command = "clean_conf" then
    if ← pathExists file then
      try
        onFiles (·.remove · file)
        return some 0
      catch _ => flashFirmware file c.words
    else return some 0
  else flashDevice file c.plan.path c.arguments

def runBuilt (c : BuildCommand) : TaskM (Option Int) := do
  let program := Path.joinAll c.plan.path ["build", c.name]
  tell ("exec_path:" ++ program)
  tell "---------------------"
  let (status, _) ← launch [program]
  tell "---------------------"
  if status < 0 then tell ("[ERROR] Program exit with code:" ++ text status)
  return none

def runExtension (c : BuildCommand) : String → TaskM (Option Int)
  | "flash" => flash c
  | _ => runBuilt c

def cleanSettings (c : BuildCommand) : TaskM Unit := do
  tell "clean now"
  if ← pathExists settingsFile then onFiles (·.remove · settingsFile)
  if ← pathExists "build/config/" then onFiles (·.removeAll · "build/config")
  for e in c.extensions do
    if (extensionCommands e).contains c.command then
      tell ("-- call tool <" ++ e ++ ">'s clean_conf cmd")
      let _ ← runExtension c e
  tell "clean complete"

def BuildCommand.run (c : BuildCommand) : TaskM Unit := do
  match c.command with
  | "config" => tell "config complete"
  | "build" | "rebuild" => c.build
  | "clean" => BuildCommand.clean
  | "distclean" => c.distclean
  | "menuconfig" => c.menu
  | "clean_conf" => cleanSettings c
  | command =>
    match c.extensions.find? fun e => (extensionCommands e).contains command with
    | some e =>
      tell ("\n-------- " ++ command ++ " start ---------")
      let status ← runExtension c e
      tell ("-------- " ++ command ++ " end ---------")
      match status with
      | some n => throw (.status n)
      | none => throw .noStatus
    | none => pure ()

def buildProject (plan : ProjectPlan) (words : List String) : TaskM Unit := do
  let w ← surroundings
  if !w.pathExists "CMakeLists.txt" || !w.pathExists "main" then
    giveUp "please run me at project folder!"
  tell ("-- [DEBUG] project.py received extra_cmake_args: " ++
    (Value.list (plan.extra.map Value.text)).literal)
  let name ← findProjectName plan
  let extensions ← findExtensions plan.kit
  let arguments ← takeArguments "project.py" (buildSpec extensions) words
  let kept ← loadSettings
  let settings ← adjustSettings arguments kept
  if Value.record settings != .record kept then saveSettings settings
  let w ← surroundings
  tell ("-- CPU count: " ++ natText w.processors)
  BuildCommand.run
    { plan, name, arguments, settings, buildType := chooseBuildType arguments w, extensions, words }

open Project

/-! ## Packages -/

def packageConfig : String := "build/config/global_config.mk"

def compiledLibrary : String := "build/main/libmain.so"

def readPackageInfo : TaskM PackageInfo := do
  needFile packageConfig ("❌ 错误：找不到配置文件 " ++ packageConfig)
  return PackageInfo.ofText (← readText packageConfig)

def copyFile (src dst : String) : PublishM Unit := do
  let w ← get
  let dst := if w.files.isDir w.cwd dst then Path.join dst (Path.baseName src) else dst
  match w.read src with
  | .error f => throw (.file f)
  | .ok bytes => onFiles (·.write · dst bytes)

def preparePackage (info : PackageInfo) : TaskM Unit := do
  let dir := Path.join "build" info.name
  if !(← pathExists dir) then
    onFiles (·.makeDirs · dir)
    tell ("✅ 已创建包目录：" ++ dir)
  let importFile := Path.join dir "__init__.py"
  writeText importFile info.importText
  tell ("✅ 已自动生成 " ++ importFile)
  if !(← pathExists compiledLibrary) then
    throw (.failure (.absent ("❌ 错误：找不到.so文件！路径：" ++ compiledLibrary ++
      "\n请先编译生成libmain.so，再执行打包命令。")))
  let library := Path.join dir info.library
  copyFile compiledLibrary library
  tell ("✅ 已复制.so文件到：" ++ library)

def packageTask : TaskM Unit := do
  let info ← readPackageInfo
  preparePackage info
  let w ← surroundings
  modify fun s => { s with
    package := some { info, packages := packagesIn w.files w.cwd "build" } }
  tell ("🎉 打包完成,在dist目录下,包名:" ++ info.name ++ ",版本" ++ info.version)

def package (call : Invocation) : Outcome :=
  runTask call packageTask

/-! ## Projects -/

def targets : List (String × String) :=
  [("CONFIG_TARGET_ARCH_X86", "Linux"), ("CONFIG_TARGET_ARCH_ARM64", "MaixCam2"),
    ("CONFIG_TARGET_ARCH_RISCV64", "MaixCam")]

def envDirectory? (w : Workspace) (name : String) : Option String :=
  match w.getEnv? name with
  | some path =>
    if !path.isEmpty && w.pathExists (Path.tidy path) then some (Path.tidy path) else none
  | none => none

def ensureConfig (path : String) : TaskM Unit := do
  if ← pathExists path then tell ("-- File already exists: " ++ path)
  else
    ensureDir (Path.dirName path)
    writeText path ""
    tell ("-- Created empty file: " ++ path)

def configAssignments (text : String) : List (String × String) :=
  (Text.physicalLines text).filterMap fun line =>
    let line := Text.trim line
    if Text.startsWith line "#" then none
    else (Text.cut? line "=").map fun (name, value) => (name, Text.trim value)

def loadAssignments (path : String) : TaskM (List (String × String)) := do
  try return configAssignments (← readText path)
  catch
    | .failure (.file f) => do
      tell ("-- Warning: Failed to read config file: " ++ fileFaultText f)
      return []
    | stop => throw stop

def isOn (config : List (String × String)) (name : String) : Bool :=
  ((config.reverse.find? fun a => a.1 == name).map Prod.snd) == some "y"

def targetWords (config : List (String × String)) : TaskM (List String) := do
  match targets.find? fun t => isOn config t.1 with
  | some (_, target) =>
    tell ("-- Target architecture: " ++ target)
    return ["-D" ++ target ++ "=ON"]
  | none =>
    tell "-- Warning: No target architecture found in config!"
    return []

def buildToolPath (kit : String) : String :=
  Path.tidy (Path.joinAll kit ["tools", "cmake", "project.py"])

/-- Generates bindings, builds the project and makes a package.  The status is the same whether it
succeeds or fails. -/
def buildPackage (plan : ProjectPlan) (words : List String) : TaskM Unit := do
  needFile (Path.join plan.path "cpp_bind_python.py") "-- Error: cpp_bind_python.py not found"
  inPlace (bindTask "cpp_bind_python.py" (some plan.dir) [])
  let tool := buildToolPath plan.kit
  needFile tool ("-- Error: project.py not found - " ++ tool)
  inPlace (buildProject { plan with components := none } words)
  needFile (Path.join plan.path "setup.py") "-- Error: setup.py not found"
  inPlace packageTask
  throw (.status 1)

def runBuild (plan : ProjectPlan) (words : List String) : TaskM Unit := do
  let tool := buildToolPath plan.kit
  needFile tool ("-- Error: project.py not found - " ++ tool)
  catchFailure (inPlace (buildProject plan words)) fun f =>
    giveUp ("-- Error executing project.py: " ++ f.message)

def projectTask (dir : List String) (words : List String) : TaskM Unit := do
  let w ← surroundings
  let kit := (envDirectory? w "MY_SDK_PATH").getD (Path.render dir.dropLast.dropLast)
  let components := envDirectory? w "CUSTOM_COMPONENTS_PATH"
  let path := Path.joinAll (Path.render dir) ["build", "config", "global_config.mk"]
  ensureConfig path
  let config ← loadAssignments path
  let isPackaged := isOn config "CONFIG_BUILD_WHL_PACKAGE"
  let extra ← targetWords config
  tell ("CONFIG_BUILD_WHL_PACKAGE=" ++ if isPackaged then "1" else "0")
  tell ("-- SDK_PATH: " ++ kit)
  tell ("-- CUSTOM_COMPONENTS_PATH: " ++ components.getD "None")
  if !extra.isEmpty then tell ("-- Extra CMake args: " ++ String.intercalate " " extra)
  let plan : ProjectPlan := { dir, kit, components, extra }
  let command := words.head?
  if (command == some "build" || command == some "rebuild") && isPackaged then
    buildPackage plan words
  else runBuild plan words

def project (call : Invocation) : Outcome :=
  runTask call (projectTask (call.home.getD call.workspace.cwd) call.arguments)

end Buildsmith.Tool
