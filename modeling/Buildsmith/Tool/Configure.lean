import Buildsmith.Tool.Basic

/-!
# Tools that write a configuration

Each of these tools loads a description, arrives at values in one way or another and writes them to
a configuration file.
-/

namespace Buildsmith.Tool

open Kconfig

def loadFile (path : Option String) : ToolM String :=
  loadConfig path true

def saveFile (path : Option String) : ToolM String :=
  saveConfig path generatedBy true

def saveAndSay : ToolM Unit := do
  say (← saveFile none)

def runPreset (preset : EvalM Unit) (merged : String) (call : Invocation) : Outcome :=
  runStandard call do
    assignQuietly preset
    loadAllConfig merged
    saveAndSay

def allnoconfig : Invocation → Outcome := runPreset assignLeast "allno.config"

def allyesconfig : Invocation → Outcome := runPreset assignMost "allyes.config"

def allmodconfig : Invocation → Outcome := runPreset assignModules "allmod.config"

def alldefconfig (call : Invocation) : Outcome :=
  runStandard call do
    loadAllConfig "alldef.config"
    saveAndSay

def olddefconfig (call : Invocation) : Outcome :=
  runStandard call do
    say (← loadFile none)
    saveAndSay

def kconfigOption : OptionSpec :=
  { key := "kconfig", about := "Base Kconfig file (default: Kconfig)" }

def defconfigPurpose : String :=
  String.intercalate "\n"
    ["Reads a specified configuration file, then writes a new configuration file.",
     "This can be used to initialize the configuration from e.g. an arch-specific",
     "configuration file. This input configuration file would usually be a minimal",
     "configuration file, as generated by e.g. savedefconfig.",
     "",
     "The default output filename is '.config'. A different filename can be passed in",
     "the KCONFIG_CONFIG environment variable."]

def defconfig (call : Invocation) : Outcome :=
  withArguments call
    { options := [kconfigOption], operands := .one
      purpose := defconfigPurpose, isVerbatim := true
      operandName := "CONFIGURATION", operandAbout := "Input configuration file" } fun args =>
    runOn call (args.value "kconfig" "Kconfig") do
      say (← loadFile (some (args.operand "")))
      saveAndSay

def savedefconfigPurpose : String :=
  String.intercalate "\n"
    ["Saves a minimal configuration file that only lists symbols that differ in value",
     "from their defaults. Loading such a configuration file is equivalent to loading",
     "the \"full\" configuration file.",
     "",
     "Minimal configuration files are handy to start from when editing configuration",
     "files by hand.",
     "",
     "The default input configuration file is '.config'. A different input filename",
     "can be passed in the KCONFIG_CONFIG environment variable.",
     "",
     "Note: Minimal configurations can also be generated from within the menuconfig",
     "interface."]

def savedefconfig (call : Invocation) : Outcome :=
  withArguments call
    { options :=
        [kconfigOption,
          { key := "out", placeholders := ["MINIMAL_CONFIGURATION"]
            about := "Output filename for minimal configuration (default: defconfig)" }]
      purpose := savedefconfigPurpose, isVerbatim := true } fun args =>
    runOn call (args.value "kconfig" "Kconfig") do
      say (← loadFile none)
      say (← saveMinimal (args.value "out" "defconfig") generatedBy)

def assignWord (checkExists checkValue : Bool) (word : String) : ToolM Unit := do
  match Text.cut? word "=" with
  | none => throw (.message ("error: no '=' in assignment: '" ++ word ++ "'"))
  | some (name, value) =>
    let m ← theModel
    match m.findSymbol? false name with
    | none =>
      if checkExists then throw (.message ("error: no symbol '" ++ name ++ "' in configuration"))
    | some i =>
      if !(← setSymbol true i (.text value)) then
        throw (.message ("error: '" ++ value ++ "' is an invalid value for the " ++
          (m.symbol i).kind.name ++ " symbol " ++ name))
      if checkValue then
        let got ← symbolText i
        if got ≠ value then
          throw (.message ("error: " ++ name ++ " was assigned the value '" ++ value ++
            "', but got the value '" ++ got ++ "'. Check the symbol's dependencies, and make " ++
            "sure that it has a prompt."))

def setconfigPurpose : String :=
  String.intercalate "\n"
    ["Simple utility for setting configuration values from the command line.",
     "",
     "Sample usage:",
     "",
     "  $ setconfig FOO_SUPPORT=y BAR_BITS=8",
     "",
     "Note: Symbol names should not be prefixed with 'CONFIG_'.",
     "",
     "The exit status on errors is 1.",
     "",
     "The default input/output configuration file is '.config'. A different filename",
     "can be passed in the KCONFIG_CONFIG environment variable.",
     "",
     "When overwriting a configuration file, the old version is saved to",
     "<filename>.old (e.g. .config.old)."]

def setconfig (call : Invocation) : Outcome :=
  withArguments call
    { options :=
        [kconfigOption,
          { key := "no-check-exists", arity := .exactly 0
            about := "Ignore assignments to non-existent symbols instead of erroring out" },
          { key := "no-check-value", arity := .exactly 0
            about := "Ignore assignments that didn't \"take\" (where the symbol got a different " ++
              "value, e.g. due to unsatisfied dependencies) instead of erroring out" }]
      operands := .many
      purpose := setconfigPurpose, isVerbatim := true
      operandName := "ASSIGNMENT", operandAbout := "A 'NAME=value' assignment" } fun args =>
    runOn call (args.value "kconfig" "Kconfig") do
      say (← loadFile none)
      args.operands.forM
        (assignWord (!args.uses "no-check-exists") (!args.uses "no-check-value"))
      saveAndSay

def isUnanswered (i : SymbolId) : EvalM Bool := do
  let s := (← read).symbol i
  if (← symbolState i).user.isSome then return false
  if (← symbolAssignable i).length > 1 then return true
  if (← symbolVisibility i) = .no then return false
  return s.kind.isNumeric || s.kind = .string || s.choice.isSome

def listnewconfig (call : Invocation) : Outcome :=
  runStandard call do
    complain (← loadFile none)
    let m ← theModel
    let lead := (← get).session.reading.symbolLead
    m.uniqueDefined.forM fun i => do
      if ← isUnanswered i then
        let s := m.symbol i
        if s.kind.isLogical then
          put (lead ++ s.name ++ "=" ++ (← symbolTristate i).letter ++ "\n")
        else
          put (← configLine lead i)

def runOnFirst (call : Invocation) (body : List String → ToolM Unit) : Outcome :=
  match call.arguments with
  | [] => stopAt call (.fault .outOfRange)
  | root :: rest => runOn call root (body rest)

def allnoconfigWalk (call : Invocation) : Outcome :=
  runOnFirst call fun _ => do
    walkToLeast
    saveAndSay

def assignNamed (name : String) (n : Int) : SessionM Unit := do
  let i ← findSymbol false name
  discard (evaluating (setSymbol true i (.number n)))

def answerNo : EvalM Unit := do
  (← read).uniqueDefined.forM fun i => do
    if (← symbolState i).user.isNone then
      if (← symbolAssignable i).contains .no then discard (setSymbol true i (.number 0))

/-- Turns Ethernet off and on again in a standard configuration, and answers all questions that
this brings up with no. -/
def defconfigOldconfig (call : Invocation) : Outcome :=
  runOnFirst call fun _ => do
    discard (loadFile (some "arch/x86/configs/x86_64_defconfig"))
    discard (saveFile none)
    discard (loadFile none)
    assignNamed "ETHERNET" 0
    discard (saveFile none)
    discard (loadFile none)
    assignNamed "ETHERNET" 2
    answerNo
    saveAndSay

def checkMerged (i : SymbolId) : ToolM Unit := do
  let m ← theModel
  match (← symbolState i).user with
  | none => return ()
  | some user =>
    discard (symbolKind i)
    let assigned := match user with
      | .tristate t => t.letter
      | .text s => s
    let got ← symbolText i
    if assigned ≠ got then
      complain ("warning: " ++ m.nameAndPlaces (.symbol i) ++ " was assigned the value '" ++ assigned ++
        "' but got the value '" ++ got ++ "' -- check dependencies")

def mergeConfig (call : Invocation) : Outcome :=
  match call.arguments with
  | root :: target :: first :: rest =>
    runOn call root do
      modify fun j =>
        let r := j.session.reading
        let flags := { r.flags with undefined := true, override := false, redundant := false }
        { j with session := { j.session with reading := { r with flags } } }
      (first :: rest).forM fun path => do
        say (← loadConfig (some path) false)
      say (← saveFile (some target))
      (← theModel).defined.forM checkMerged
  | _ =>
    stopAt call
      (.message "usage: merge_config.py Kconfig merged_config config1 [config2 ...]")

end Buildsmith.Tool
