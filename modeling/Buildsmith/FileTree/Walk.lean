import Buildsmith.FileTree.Basic

/-!
# Walks through directories

A walk visits a directory, then its subdirectories in the order of their names, each with all that
is below it.
-/

namespace Buildsmith.FileTree

/-- The directories that a walk visits, each with the names of its files; `fuel` bounds the
depth. -/
def walkFrom (t : FileTree) : Nat → String → List String → List (String × List String)
  | 0, _, _ => []
  | fuel + 1, path, place =>
    let names := t.namesIn place
    let isSub (n : String) : Bool := t.isDirAt (place ++ [n])
    (path, names.filter (!isSub ·)) ::
      (names.filter isSub).flatMap fun n => t.walkFrom fuel (Path.join path n) (place ++ [n])

def walk (t : FileTree) (cwd : List String) (path : String) : List (String × List String) :=
  match t.resolve cwd path with
  | .ok place => if t.isDirAt place then t.walkFrom (t.entries.length + 1) path place else []
  | .error _ => []

def removeAll (t : FileTree) (cwd : List String) (path : String) : Except FileFault FileTree := do
  let place ← t.resolve cwd path
  match t.get? place with
  | some .directory => .ok (t.erase place)
  | some (.file _) => .error (.failed .notDirectory path)
  | none => .error (.failed .notFound path)

end Buildsmith.FileTree

/-!
## Wildcards

A name that begins with a dot is only matched by a pattern that does so too.
-/

namespace Buildsmith.Wildcard

/-- One element of a pattern. -/
inductive Piece where
  | char (c : Char)
  | any
  | run
  | oneOf (negated : Bool) (ranges : List (Char × Char))
  deriving DecidableEq, Repr

def rangesOf : List Char → List (Char × Char)
  | a :: '-' :: b :: cs => (a, b) :: rangesOf cs
  | c :: cs => (c, c) :: rangesOf cs
  | [] => []

def splitBracket (cs : List Char) : Option (List Char × List Char) :=
  let (lead, rest) :=
    match cs with
    | '!' :: ']' :: r => (['!', ']'], r)
    | '!' :: r => (['!'], r)
    | ']' :: r => ([']'], r)
    | r => ([], r)
  let body := rest.takeWhile (· ≠ ']')
  match rest.drop body.length with
  | _ :: after => some (lead ++ body, after)
  | [] => none

def piecesFrom : Nat → List Char → List Piece
  | 0, _ => []
  | _ + 1, [] => []
  | n + 1, '*' :: cs => .run :: piecesFrom n cs
  | n + 1, '?' :: cs => .any :: piecesFrom n cs
  | n + 1, '[' :: cs =>
    match splitBracket cs with
    | none => .char '[' :: piecesFrom n cs
    | some ('!' :: body, after) => .oneOf true (rangesOf body) :: piecesFrom n after
    | some (body, after) => .oneOf false (rangesOf body) :: piecesFrom n after
  | n + 1, c :: cs => .char c :: piecesFrom n cs

def pieces (pattern : String) : List Piece :=
  piecesFrom (pattern.length + 1) pattern.toList

def inRanges (ranges : List (Char × Char)) (c : Char) : Bool :=
  ranges.any fun (a, b) => a ≤ c && c ≤ b

def anyTail (p : List Char → Bool) : List Char → Bool
  | [] => p []
  | c :: cs => p (c :: cs) || anyTail p cs

def matchPieces : List Piece → List Char → Bool
  | [], cs => cs.isEmpty
  | .run :: ps, cs => anyTail (matchPieces ps) cs
  | .any :: ps, cs =>
    match cs with
    | [] => false
    | _ :: cs => matchPieces ps cs
  | .char x :: ps, cs =>
    match cs with
    | [] => false
    | c :: cs => c = x && matchPieces ps cs
  | .oneOf negated ranges :: ps, cs =>
    match cs with
    | [] => false
    | c :: cs => (inRanges ranges c != negated) && matchPieces ps cs

def isMatch (pattern name : String) : Bool :=
  matchPieces (pieces pattern) name.toList

def isMagic (s : String) : Bool :=
  s.toList.any fun c => c = '*' || c = '?' || c = '['

end Buildsmith.Wildcard

namespace Buildsmith.FileTree

def matchingNames (t : FileTree) (cwd : List String) (dir pattern : String) (dirsOnly : Bool) :
    List String :=
  let names := (t.list cwd (if dir.isEmpty then "." else dir)).toOption.getD []
  let hidden (s : String) : Bool := s.toList.head? == some '.'
  names.filter fun name =>
    (hidden pattern || !hidden name) && Wildcard.isMatch pattern name &&
      (!dirsOnly || t.isDir cwd (Path.join dir name))

/-- The paths that match a pattern; `fuel` bounds the number of its components. -/
def globFrom (t : FileTree) (cwd : List String) : Nat → Bool → String → List String
  | 0, _, _ => []
  | fuel + 1, dirsOnly, pattern =>
    let (dir, base) := (Path.dirName pattern, Path.baseName pattern)
    if !Wildcard.isMagic pattern then
      if !base.isEmpty then if t.pathExists cwd pattern then [pattern] else []
      else if t.isDir cwd dir then [pattern] else []
    else if dir.isEmpty then t.matchingNames cwd "" base dirsOnly
    else
      let dirs :=
        if dir ≠ pattern && Wildcard.isMagic dir then t.globFrom cwd fuel true dir else [dir]
      dirs.flatMap fun d =>
        if Wildcard.isMagic base then
          (t.matchingNames cwd d base dirsOnly).map (Path.join d)
        else if !base.isEmpty then
          if t.pathExists cwd (Path.join d base) then [Path.join d base] else []
        else if t.isDir cwd d then [Path.join d base] else []

def glob (t : FileTree) (cwd : List String) (pattern : String) : List String :=
  t.globFrom cwd (pattern.length + 1) false pattern

end Buildsmith.FileTree
