import Buildsmith.Tool.Generate

/-!
# Symbols that nothing defines

Descriptions of several architectures share files.  A symbol is undefined if no architecture
defines it; the places that refer to it are listed.
-/

namespace Buildsmith.Tool

open Kconfig

def architectures (w : Workspace) : Except FileFault (List (String × String)) := do
  let names ← w.files.list w.cwd "arch"
  let own := names.filter fun n => w.pathExists (Path.joinAll "arch" [n, "Kconfig"])
  return own.map (fun n => (n, n)) ++
    [("i386", "x86"), ("x86_64", "x86"), ("sparc32", "sparc"), ("sparc64", "sparc"), ("sh64", "sh"),
      ("um", "um")]

def withBuildTools (w : Workspace) : Workspace :=
  [("srctree", "."), ("HOSTCC", "gcc"), ("HOSTCXX", "g++"), ("CC", "gcc"), ("LD", "ld")].foldl
    (fun w v => w.setEnv v.1 (some v.2)) w

def loadArchitecture (w : Workspace) (arch dir : String) : Except Stop Model × Workspace :=
  let w := w.print ("  Processing " ++ arch ++ "\n")
  let w := (w.setEnv "ARCH" (some arch)).setEnv "SRCARCH" (some dir)
  let root := if arch = "um" then "arch/x86/um/Kconfig" else "Kconfig"
  match openSession w { root, warn := false, shell := Shell.run } with
  | (.error f, r) => (.error (Stop.ofFault f), r.workspace)
  | (.ok s, r) => (.ok s.model, r.workspace)

def loadArchitectures (w : Workspace) : Except Stop (List Model) × Workspace :=
  let w := withBuildTools w
  match architectures w with
  | .error f => (.error (.fault (.file f)), w)
  | .ok pairs => go pairs w
where
  go : List (String × String) → Workspace → Except Stop (List Model) × Workspace
  | [], w => (.ok [], w)
  | (arch, dir) :: rest, w =>
    match loadArchitecture w arch dir with
    | (.error s, w) => (.error s, w)
    | (.ok m, w) =>
      match go rest w with
      | (.error s, w) => (.error s, w)
      | (.ok ms, w) => (.ok (m :: ms), w)

def undefinedNames (m : Model) : List String :=
  (m.symbolNames false).filter fun n =>
    match m.findSymbol? false n with
    | some i => (m.symbol i).entries.isEmpty && (Text.Integer.parse? 0 n).isNone
    | none => false

def definedNames (m : Model) : List String :=
  m.uniqueDefined.map fun i => (m.symbol i).name

def referencesTo (m : Model) (name : String) : List String :=
  let isNamed : Item → Bool
    | .symbol i => (m.symbol i).name == name
    | .choice i => (m.choice i).name == some name
  (m.allEntries.filter fun i => ((m.entry i).referenced).any isNamed).map m.placeOf

abbrev UndefinedReport := List (String × List String)

def undefinedReport (models : List Model) : UndefinedReport :=
  let defined := models.flatMap definedNames
  let names := (orderedUnique (models.flatMap undefinedNames)).filter (!defined.contains ·)
  (names.mergeSort (· ≤ ·)).map fun n =>
    (n, (orderedUnique (models.flatMap (referencesTo · n))).mergeSort (· ≤ ·))

def undefinedHeading : String :=
  "\nThe following globally undefined symbols were found, listed here\n" ++
    "together with the locations of the items that reference them.\n" ++
    "References might come from enclosing menus and ifs.\n"

def findUndefined (w : Workspace) (version : String) : Except Stop UndefinedReport × Workspace :=
  let w := w.setEnv "KERNELVERSION" (some (Text.trimEnd version))
  let w := w.print "Registering defined and undefined symbols for all arches\n"
  match loadArchitectures w with
  | (.error s, w) => (.error s, w)
  | (.ok _, w) =>
    let w := w.print "\nFinding references to each undefined symbol\n"
    match loadArchitectures w with
    | (.error s, w) => (.error s, w)
    | (.ok models, w) => (.ok (undefinedReport models), w.print undefinedHeading)

def listUndefined (version : String) (call : Invocation) : Outcome :=
  match findUndefined call.workspace version with
  | (.error s, w) => { stop := some s, workspace := w }
  | (.ok report, w) =>
    { workspace := w.print (String.join ("\n" :: report.map fun (name, places) =>
        "  " ++ name ++ ": " ++ String.intercalate ", " places ++ "\n")) }

end Buildsmith.Tool
