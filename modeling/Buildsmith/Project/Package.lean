import Buildsmith.FileTree.Walk
import Buildsmith.Text.Printable

/-!
# Packages and components

A package is made of a compiled library and a file that imports it.  Its name, version, author and
description come from a configuration file; each has a default.
-/

namespace Buildsmith.Project

open Text

/-- What is said about a package. -/
structure PackageInfo where
  name : String := "add"
  version : String := "0.1.0"
  author : String := "Tao"
  description : String := "Auto bind Python from C/C++"
  deriving DecidableEq, Repr

/-- A package, ready to be built. -/
structure Package where
  info : PackageInfo
  /-- The directories that make it up, written with dots. -/
  packages : List String
  deriving DecidableEq, Repr

def unquoted (s : String) : String :=
  if (startsWith s "\"" && endsWith s "\"") ||
      (startsWith s "'" && endsWith s "'") then slice s 1 (-1)
  else s

def assignment? (line : String) : Option (String × String) :=
  let cs := line.toList
  let name := cs.takeWhile isWordChar
  match (cs.drop name.length).dropWhile isBlank with
  | '=' :: rest =>
    let value := rest.dropWhile isBlank
    if name.isEmpty || value.isEmpty then none
    else some (String.ofList name, unquoted (String.ofList value))
  | _ => none

def assignments (text : String) : List (String × String) :=
  let lines := ((physicalLines text).map trim).filter fun l => !startsWith l "#"
  lines.filterMap assignment?

def PackageInfo.ofText (text : String) : PackageInfo :=
  let found := assignments text
  let value (name default : String) : String :=
    ((found.reverse.find? fun a => a.1 == name).map Prod.snd).getD default
  let d : PackageInfo := {}
  { name := value "CONFIG_WHL_PACKAGE_NAME" d.name
    version := value "CONFIG_WHL_VERSION" d.version
    author := value "CONFIG_WHL_AUTHOR" d.author
    description := value "CONFIG_WHL_DESCRIPTION" d.description }

def PackageInfo.library (p : PackageInfo) : String := p.name ++ ".so"

def PackageInfo.importText (p : PackageInfo) : String :=
  "\"\"\"\n" ++ p.name ++ " 包 - " ++ p.description ++ "\n作者：" ++ p.author ++ "\n版本：" ++ p.version ++
    "\n\"\"\"\n# 自动生成的__init__.py，用于导入.so模块的核心功能\nfrom ." ++ p.name ++
    " import *\n\n# 暴露版本信息，方便用户查看\n__version__ = \"" ++ p.version ++ "\"\n__author__ = \"" ++
    p.author ++ "\"\n"

/-- The packages below a place: directories with an import file, first those of one directory, then
those inside them.  Directories with a dot in their names are passed over. -/
def packagesFrom (t : FileTree) : Nat → List String → List String → List String
  | 0, _, _ => []
  | fuel + 1, parents, place =>
    let isPackage (n : String) : Bool :=
      !n.toList.contains '.' && match t.get? (place ++ [n, "__init__.py"]) with
        | some (.file _) => true
        | _ => false
    let names := (t.namesIn place).filter isPackage
    names.map (fun n => String.intercalate "." (parents ++ [n])) ++
      names.flatMap fun n => packagesFrom t fuel (parents ++ [n]) (place ++ [n])

def packagesIn (t : FileTree) (cwd : List String) (path : String) : List String :=
  match t.resolve cwd path with
  | .ok place => packagesFrom t (t.entries.length + 1) [] place
  | .error _ => []

/-! ## The order of components -/

def priorityNames (text : String) : List String :=
  let lines := ((physicalLines text).map trim).filter fun l => !startsWith l "#"
  lines.flatMap words

/-- The place of the last mention of a name. -/
def rank? (order : List String) (name : String) : Option Nat :=
  (order.reverse.findIdx? (· == name)).map fun i => order.length - 1 - i

/-- Inserts a component behind those of the same rank. -/
def insertByRank (rank : Nat) (component : String) : List (Nat × String) → List (Nat × String)
  | [] => [(rank, component)]
  | (r, c) :: rest =>
    if rank < r then (rank, component) :: (r, c) :: rest
    else (r, c) :: insertByRank rank component rest

/-- Sorts components: the ranked ones found so far, and the others, reversed. -/
def sortFrom (order : List String) :
    List (Nat × String) → List String → List String → List String
  | ranked, others, [] => ranked.map Prod.snd ++ others.reverse
  | ranked, others, c :: rest =>
    match rank? order (Path.baseName c) with
    | some r => sortFrom order (insertByRank r c ranked) others rest
    | none => sortFrom order ranked (c :: others) rest

def sortComponents (order components : List String) : List String :=
  sortFrom order [] [] components

end Buildsmith.Project
