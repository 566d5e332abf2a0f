import Buildsmith.Tool.Catalog

/-!
# The command line

A command is called as `buildsmith [NAME=VALUE]... COMMAND [ARGUMENT]...`.  The files below the
current directory are read, the command works on them, and what it changed is written back.  The
assignments make up the environment; `SOURCE_DATE_EPOCH` sets the clock.

Commands that ask questions take the lines of the standard input as answers, and those that show
menus take its characters as keys.  Other programs are not started but listed.
-/

namespace Buildsmith.Main

open Tool

partial def load (place : List String) (entries : Array IO.FS.DirEntry) (t : FileTree) :
    IO FileTree := do
  let mut t := t
  for e in entries do
    let here := place ++ [e.fileName]
    if ← e.path.isDir then
      t ← load here (← e.path.readDir) (t.putDeep here .directory)
    else
      t := t.putDeep here (.file (← IO.FS.readBinFile e.path))
  return t

def store (old new : FileTree) : IO Unit := do
  for (place, entry) in new.entries do
    match entry with
    | .directory =>
      if (old.get? place).isNone then IO.FS.createDirAll (Path.render place)
    | .file bytes =>
      let isSame := match old.get? place with
        | some (.file before) => before.data == bytes.data
        | _ => false
      if !isSame then IO.FS.writeBinFile (Path.render place) bytes
  for (place, entry) in old.entries do
    match entry, new.get? place with
    | .file _, none => IO.FS.removeFile (Path.render place)
    | _, _ => pure ()

def isInteractive (command : String) : Bool :=
  ["oldconfig", "defconfig-oldconfig", "line-menu", "menuconfig", "generate"].contains command

def statusOf : Option Stop → Int
  | none => 0
  | some (.status n) => n
  | some .noStatus | some .help => 0
  | some .usage => 2
  | some _ => 1

def remark : Stop → Option String
  | .message text => some text
  | .usage => some "the arguments do not fit"
  | .fault f => some f.message
  | .failure f => some f.message
  | .endOfInput => some "no input is left"
  | .missingDefaults path => some ("missing defaults: " ++ path)
  | .status _ | .noStatus | .help | .outOfKeys => none

def call (run : Invocation → Outcome) (command : String) (words : List String)
    (env : List (String × String)) : IO UInt32 := do
  let dir ← IO.currentDir
  let cwd := Path.components dir.toString
  let files ← load cwd (← dir.readDir) (FileTree.putDeep {} cwd .directory)
  let input ← if isInteractive command then (← IO.getStdin).readToEnd else pure ""
  let time := ((env.find? (·.1 == "SOURCE_DATE_EPOCH")).bind fun v => v.2.toInt?).getD 0
  let outcome := run
    { workspace := { files, cwd, env, time }
      name := command
      arguments := words
      input
      terminal := { inputs := input.toList.map fun c => .key (.char c) } }
  IO.print outcome.workspace.out
  IO.eprint outcome.workspace.err
  for text in outcome.workspace.reports do
    IO.eprintln text
  for l in outcome.workspace.launches do
    IO.eprintln (Path.render l.directory ++ ": " ++ String.intercalate " " l.words)
  store files outcome.workspace.files
  match outcome.stop.bind remark with
  | some text => IO.eprintln text
  | none => pure ()
  return (statusOf outcome.stop).toNat.toUInt32

end Buildsmith.Main

def main (args : List String) : IO UInt32 := do
  let settings := args.takeWhile fun w => (Buildsmith.Text.cut? w "=").isSome
  let env := settings.filterMap fun w => Buildsmith.Text.cut? w "="
  match args.drop settings.length with
  | [] =>
    IO.eprintln "usage: buildsmith [NAME=VALUE]... COMMAND [ARGUMENT]..."
    return 2
  | command :: words =>
    match Buildsmith.Tool.tool? command with
    | some run => Buildsmith.Main.call run command words env
    | none =>
      IO.eprintln ("there is no command " ++ command)
      return 2
