import Buildsmith.Text.Basic

/-!
# File trees

A file tree lists files and directories by their components from the root.  Operations that can
fail do so with the cause and the path as it was given.

A path is followed component by component: every directory that it passes through has to exist,
also one that a double dot leaves again.
-/

namespace Buildsmith.Path

open String

/-!
## Path names

Slash-separated path names, taken apart and put together as text.  Nothing here looks at a file
tree.
-/

def isAbsolute (p : String) : Bool :=
  p.toList.head? == some '/'

def join (a b : String) : String :=
  if isAbsolute b then b
  else if a.isEmpty || a.toList.getLast? == some '/' then a ++ b
  else a ++ "/" ++ b

def joinAll (first : String) (parts : List String) : String :=
  parts.foldl join first

def splitSlash (p : String) : List Char × List Char :=
  let after := (p.toList.reverse.takeWhile (· ≠ '/')).reverse
  (p.toList.take (p.length - after.length), after)

def dirName (p : String) : String :=
  let (head, _) := splitSlash p
  if head.all (· = '/') then ofList head
  else ofList ((head.reverse.dropWhile (· = '/')).reverse)

def baseName (p : String) : String :=
  ofList (splitSlash p).2

def splitExtension (p : String) : String × String :=
  let base := (splitSlash p).2
  let leading := base.takeWhile (· = '.')
  let rest := base.drop leading.length
  let ext := (rest.reverse.takeWhile (· ≠ '.')).reverse
  if rest.contains '.' then
    (ofList (p.toList.take (p.length - ext.length - 1)), ofList ('.' :: ext))
  else (p, "")

def components (p : String) : List String :=
  (Text.splitOn p "/").filter fun c => c ≠ "" && c ≠ "."

def applyComponents (base : List String) (cs : List String) : List String :=
  cs.foldl (fun acc c => if c = ".." then acc.dropLast else acc ++ [c]) base

def render (cs : List String) : String :=
  "/" ++ intercalate "/" cs

def absolute (cwd : List String) (p : String) : List String :=
  applyComponents (if isAbsolute p then [] else cwd) (components p)

def tidy (p : String) : String :=
  let slashes := (p.toList.takeWhile (· = '/')).length
  let lead := if slashes = 2 then "//" else if slashes = 0 then "" else "/"
  let rest := intercalate "/" (components p)
  if lead.isEmpty && rest.isEmpty then "." else lead ++ rest

end Buildsmith.Path

/-! ## Trees -/

namespace Buildsmith

/-- Why an operation on a file tree fails. -/
inductive FileCause where
  | notFound
  | isDirectory
  | notDirectory
  | exists
  | nameTooLong
  | notEmpty
  | busy
  | invalid
  deriving DecidableEq, Repr

def FileCause.code : FileCause → String
  | .notFound => "ENOENT"
  | .isDirectory => "EISDIR"
  | .notDirectory => "ENOTDIR"
  | .exists => "EEXIST"
  | .nameTooLong => "ENAMETOOLONG"
  | .notEmpty => "ENOTEMPTY"
  | .busy => "EBUSY"
  | .invalid => "EINVAL"

def FileCause.number : FileCause → Nat
  | .notFound => 2
  | .isDirectory => 21
  | .notDirectory => 20
  | .exists => 17
  | .nameTooLong => 36
  | .notEmpty => 39
  | .busy => 16
  | .invalid => 22

def FileCause.message : FileCause → String
  | .notFound => "No such file or directory"
  | .isDirectory => "Is a directory"
  | .notDirectory => "Not a directory"
  | .exists => "File exists"
  | .nameTooLong => "File name too long"
  | .notEmpty => "Directory not empty"
  | .busy => "Device or resource busy"
  | .invalid => "Invalid argument"

def FileCause.inWords (c : FileCause) : String :=
  c.message ++ " (errno: " ++ c.code ++ ")"

/-- A failed operation on a path. -/
inductive FileFault where
  | failed (cause : FileCause) (path : String)
  | nulInPath
  deriving DecidableEq, Repr

/-- What stands at a place of the tree. -/
inductive FileEntry where
  | file (bytes : ByteArray)
  | directory

/-- Files and directories by their components from the root, which itself is not listed. -/
structure FileTree where
  entries : List (List String × FileEntry) := []

namespace FileTree

def get? (t : FileTree) (p : List String) : Option FileEntry :=
  if p.isEmpty then some .directory
  else (t.entries.find? fun e => e.1 == p).map Prod.snd

def isDirAt (t : FileTree) (p : List String) : Bool :=
  match t.get? p with
  | some .directory => true
  | _ => false

def put (t : FileTree) (p : List String) (e : FileEntry) : FileTree :=
  if t.entries.any fun x => x.1 == p then
    ⟨t.entries.map fun x => if x.1 == p then (p, e) else x⟩
  else ⟨t.entries ++ [(p, e)]⟩

def erase (t : FileTree) (p : List String) : FileTree :=
  ⟨t.entries.filter fun x => !p.isPrefixOf x.1⟩

def putDeep (t : FileTree) (p : List String) (e : FileEntry) : FileTree :=
  let parents := (List.range p.length).map fun n => p.take n
  let made := parents.foldl
    (fun t d => if d.isEmpty || (t.get? d).isSome then t else t.put d .directory) t
  made.put p e

/-- Follows the components of a path from `here` on; the last one need not exist. -/
def follow (t : FileTree) : List String → List String → Except FileCause (List String)
  | here, [] => .ok here
  | here, c :: cs =>
    if !t.isDirAt here then
      .error (match t.get? here with | some _ => .notDirectory | none => .notFound)
    else if c.utf8ByteSize > 255 then .error .nameTooLong
    else if c = ".." then t.follow here.dropLast cs
    else t.follow (here ++ [c]) cs

def resolve (t : FileTree) (cwd : List String) (path : String) :
    Except FileFault (List String) :=
  if path.toList.contains (Char.ofNat 0) then .error .nulInPath
  else if path.isEmpty then .error (.failed .notFound path)
  else
    let start := if Path.isAbsolute path then [] else cwd
    match t.follow start (Path.components path) with
    | .error cause => .error (.failed cause path)
    | .ok place =>
      let last := (Text.splitOn path "/").getLast?.getD ""
      if last = "" || last = "." || last = ".." then
        match t.get? place with
        | some .directory => .ok place
        | some (.file _) => .error (.failed .notDirectory path)
        | none => if last = "" then .ok place else .error (.failed .notFound path)
      else .ok place

def find? (t : FileTree) (cwd : List String) (path : String) : Option FileEntry :=
  match t.resolve cwd path with
  | .ok place => t.get? place
  | .error _ => none

def pathExists (t : FileTree) (cwd : List String) (path : String) : Bool :=
  (t.find? cwd path).isSome

def isDir (t : FileTree) (cwd : List String) (path : String) : Bool :=
  match t.find? cwd path with
  | some .directory => true
  | _ => false

def isFile (t : FileTree) (cwd : List String) (path : String) : Bool :=
  match t.find? cwd path with
  | some (.file _) => true
  | _ => false

def read (t : FileTree) (cwd : List String) (path : String) : Except FileFault ByteArray := do
  let place ← t.resolve cwd path
  match t.get? place with
  | some (.file bytes) => .ok bytes
  | some .directory => .error (.failed .isDirectory path)
  | none => .error (.failed .notFound path)

def write (t : FileTree) (cwd : List String) (path : String) (bytes : ByteArray) :
    Except FileFault FileTree := do
  let place ← t.resolve cwd path
  match t.get? place with
  | some .directory => .error (.failed .isDirectory path)
  | some (.file _) => .ok (t.put place (.file bytes))
  | none =>
    if (Text.splitOn path "/").getLast?.getD "" = "" then .error (.failed .isDirectory path)
    else if t.isDirAt place.dropLast then .ok (t.put place (.file bytes))
    else .error (.failed .notFound path)

def makeDir (t : FileTree) (cwd : List String) (path : String) : Except FileFault FileTree := do
  let place ← t.resolve cwd path
  match t.get? place with
  | some _ => .error (.failed .exists path)
  | none =>
    if t.isDirAt place.dropLast then .ok (t.put place .directory)
    else .error (.failed .notFound path)

def makeDirsFrom (t : FileTree) (cwd : List String) : Nat → String → Except FileFault FileTree
  | 0, path => .error (.failed .notFound path)
  | fuel + 1, path => do
    let (head, tail) := (Path.dirName path, Path.baseName path)
    let (head, tail) := if tail.isEmpty then (Path.dirName head, Path.baseName head) else (head, tail)
    let t ←
      if !head.isEmpty && !tail.isEmpty && !t.pathExists cwd head then
        match t.makeDirsFrom cwd fuel head with
        | .ok t' => .ok t'
        | .error (.failed .exists _) => .ok t
        | .error e => .error e
      else .ok t
    if !head.isEmpty && tail = "." && t.pathExists cwd head then .ok t
    else t.makeDir cwd path

def makeDirs (t : FileTree) (cwd : List String) (path : String) : Except FileFault FileTree :=
  t.makeDirsFrom cwd (path.length + 1) path

def ensureDirs (t : FileTree) (cwd : List String) (path : String) : Except FileFault FileTree :=
  match t.makeDirs cwd path with
  | .ok t' => .ok t'
  | .error f => if t.isDir cwd path then .ok t else .error f

def remove (t : FileTree) (cwd : List String) (path : String) : Except FileFault FileTree := do
  let place ← t.resolve cwd path
  match t.get? place with
  | some (.file _) => .ok (t.erase place)
  | some .directory => .error (.failed .isDirectory path)
  | none => .error (.failed .notFound path)

def move (t : FileTree) (src dst : List String) : FileTree :=
  ⟨(t.erase dst).entries.map fun (p, e) =>
    if src.isPrefixOf p then (dst ++ p.drop src.length, e) else (p, e)⟩

def rename (t : FileTree) (cwd : List String) (src dst : String) : Except FileFault FileTree := do
  let place ← t.resolve cwd src
  let target ← t.resolve cwd dst
  let last := (Text.splitOn src "/").getLast?.getD ""
  if last = "." || last = ".." then .error (.failed .busy src)
  if !t.isDirAt target.dropLast then .error (.failed .notFound src)
  match t.get? place, t.get? target with
  | none, _ => .error (.failed .notFound src)
  | some (.file _), some .directory => .error (.failed .isDirectory src)
  | some .directory, some (.file _) => .error (.failed .notDirectory src)
  | some .directory, found =>
    if place == target then .ok t
    else if place.isPrefixOf target then .error (.failed .invalid src)
    else if found.isSome && t.entries.any (fun x => target.isPrefixOf x.1 && x.1 != target) then
      .error (.failed .notEmpty src)
    else .ok (t.move place target)
  | some (.file _), _ => if place == target then .ok t else .ok (t.move place target)

def namesIn (t : FileTree) (place : List String) : List String :=
  (t.entries.filterMap fun (p, _) =>
    match p.getLast? with
    | some name => if p.dropLast == place then some name else none
    | none => none).mergeSort (· ≤ ·)

def list (t : FileTree) (cwd : List String) (path : String) : Except FileFault (List String) := do
  let place ← t.resolve cwd path
  match t.get? place with
  | some .directory => .ok (t.namesIn place)
  | some (.file _) => .error (.failed .notDirectory path)
  | none => .error (.failed .notFound path)

def filesBelow (t : FileTree) (place : List String) : List (List String × ByteArray) :=
  t.entries.filterMap fun (p, e) =>
    match e with
    | .file bytes =>
      if place.isPrefixOf p && p.length > place.length then some (p.drop place.length, bytes)
      else none
    | .directory => none

end FileTree

/-!
## Workspaces

A workspace is what a program finds when it starts, and what it leaves behind: files, the current
directory, the environment, the clock and the text written to the two output streams.

Other programs are not started.  A workspace holds what they are going to answer, and lists those
that were asked for.
-/

/-- What comes of starting a program. -/
inductive Reply where
  | ended (status : Int) (output : String)
  /-- There is no such program. -/
  | notInstalled

/-- A program that was asked for: the directory in which it runs, and its words. -/
structure Launch where
  directory : List String
  words : List String

/-- What a command line leaves behind: the files, and what it wrote to the two streams. -/
structure CommandOutcome where
  files : FileTree
  out : List UInt8 := []
  err : List UInt8 := []

/-- What runs command lines: from the files, the current directory and the environment. -/
abbrev Shell := FileTree → List String → List (String × String) → String → CommandOutcome

/-- The surroundings of a program. -/
structure Workspace where
  files : FileTree := {}
  cwd : List String := []
  env : List (String × String) := []
  out : String := ""
  err : String := ""
  kernelRelease : String := ""
  /-- Seconds since the start of the year 1970. -/
  time : Int := 0
  processors : Nat := 1
  /-- The answers of the programs to come; further ones end well without output. -/
  replies : List Reply := []
  launches : List Launch := []
  /-- Failures that were reported in detail, apart from the two streams. -/
  reports : List String := []

namespace Workspace

def getEnv? (w : Workspace) (name : String) : Option String :=
  (w.env.find? fun v => v.1 == name).map Prod.snd

def setEnv (w : Workspace) (name : String) (value : Option String) : Workspace :=
  let others := w.env.filter fun v => v.1 != name
  match value with
  | some v => { w with env := others ++ [(name, v)] }
  | none => { w with env := others }

def print (w : Workspace) (s : String) : Workspace :=
  { w with out := w.out ++ s }

def printError (w : Workspace) (s : String) : Workspace :=
  { w with err := w.err ++ s }

def read (w : Workspace) (path : String) : Except FileFault ByteArray :=
  w.files.read w.cwd path

def write (w : Workspace) (path : String) (bytes : ByteArray) : Except FileFault Workspace :=
  (w.files.write w.cwd path bytes).map fun files => { w with files := files }

def pathExists (w : Workspace) (path : String) : Bool :=
  w.files.pathExists w.cwd path

def report (w : Workspace) (text : String) : Workspace :=
  { w with reports := w.reports ++ [text] }

def launch (w : Workspace) (directory words : List String) : Reply × Workspace :=
  ((w.replies.head?).getD (.ended 0 ""),
    { w with replies := w.replies.tail, launches := w.launches ++ [⟨directory, words⟩] })

end Workspace

end Buildsmith
