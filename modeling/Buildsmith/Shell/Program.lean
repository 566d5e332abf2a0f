import Buildsmith.Shell.State

/-!
# Programs of the shell

The programs known here write text, look at files and compute with numbers.  All work on the file
tree of the shell; none starts another program.
-/

namespace Buildsmith.Shell

open Text

/-!
## Programs that pass bytes on

These programs read files or the standard input, and write lines, counts or changed characters.
-/

def byteLines : List UInt8 → List UInt8 → List (List UInt8)
  | cur, [] => if cur.isEmpty then [] else [cur.reverse]
  | cur, b :: bs => if b = 10 then (b :: cur).reverse :: byteLines [] bs else byteLines (b :: cur) bs

def put (bytes : List UInt8) : RunM Unit :=
  modify (·.write 1 bytes)

def takeInput : RunM (List UInt8) := do
  let st ← get
  set { st with input := [] }
  return st.input

/-- Hands the contents of files to a program, one after the other; without files, or for a dash, it
is the standard input. -/
def withContents (names : List String) (lead tail : String)
    (body : Option String → List UInt8 → RunM Unit) : RunM Unit := do
  leave 0
  if names.isEmpty then body none (← takeInput)
  else
    for name in names do
      if name = "-" then body none (← takeInput)
      else
        let st ← get
        match st.files.read st.cwd name with
        | .ok bytes => body (some name) bytes.toList
        | .error (.failed cause _) => grumble (lead ++ name ++ tail ++ cause.message) 1
        | .error .nulInPath => leave 1

def isOption (arg : String) : Bool := startsWith arg "-" && arg.length > 1

def operands (args : List String) : List String := args.filter (!isOption ·)

def optionLetters (args : List String) : List Char :=
  (args.filter isOption).flatMap (·.toList.drop 1)

def cat (args : List String) : RunM Unit :=
  withContents (args.filter (· ≠ "-u")) "cat: " ": " fun _ bytes => put bytes

def countOption : List String → Nat × Bool × List String
  | "-n" :: n :: rest => ((n.toNat?).getD 10, false, rest)
  | "-c" :: n :: rest => ((n.toNat?).getD 10, true, rest)
  | args =>
    let joined : Option (Nat × Bool) := do
      let (isBytes, digits) ← front? [("-n", false), ("-c", true), ("-", false)] (← args.head?).toList
      return (← (String.ofList digits).toNat?, isBytes)
    match joined with
    | some (n, isBytes) => (n, isBytes, args.drop 1)
    | none => (10, false, args)

def takeEnd {α : Type} (n : Nat) (xs : List α) : List α :=
  xs.drop (xs.length - n)

/-- Passes some of the lines or bytes on, at the start or the end. -/
def passPart (program : String) (pick : {α : Type} → Nat → List α → List α) (args : List String) :
    RunM Unit :=
  let (n, isBytes, names) := countOption args
  withContents names (program ++ ": cannot open '") "' for reading: " fun _ bytes =>
    put (if isBytes then pick n bytes else (pick n (byteLines [] bytes)).flatten)

def countWords (bytes : List UInt8) : Nat :=
  let isGap (b : UInt8) : Bool := b = 32 || (9 ≤ b && b ≤ 13)
  ((bytes.zip (32 :: bytes)).filter fun (b, before) => !isGap b && isGap before).length

def wc (args : List String) : RunM Unit :=
  let options := optionLetters args
  let wants (c : Char) : Bool := options.isEmpty || options.contains c
  withContents (operands args) "wc: " ": " fun name bytes =>
    let counts :=
      (if wants 'l' then [(bytes.filter (· = 10)).length] else []) ++
      (if wants 'w' then [countWords bytes] else []) ++
      (if wants 'c' then [bytes.length] else [])
    say (String.intercalate " " (counts.map Text.Integer.natText ++ name.toList) ++ "\n")

def sortKey (line : List UInt8) : List UInt8 :=
  if line.getLast? = some 10 then line.dropLast else line

def sort (args : List String) : RunM Unit := do
  let options := optionLetters args
  let content ← taking (withContents (operands args) "sort: cannot read: " ": " fun _ bytes => put bytes)
  let keys := (byteLines [] content).map sortKey
  let value (k : List UInt8) : Int :=
    (readNumber ((k.map fun b => Char.ofNat b.toNat).filter (· ≠ 'x'))).1
  let le (a b : List UInt8) : Bool :=
    if options.contains 'n' && value a ≠ value b then value a < value b else !(b < a : Bool)
  let sorted := keys.mergeSort le
  let sorted := if options.contains 'r' then sorted.reverse else sorted
  let sorted := if options.contains 'u' then sorted.eraseDups else sorted
  put (sorted.flatMap (· ++ [10]))

def lackOperand (program : String) : RunM Unit :=
  grumble (program ++ ": missing operand\nTry '" ++ program ++ " --help' for more information.") 1

def trSet : Nat → List Char → List Char
  | 0, _ => []
  | n + 1, cs =>
    match front? [("[:upper:]", "A-Z"), ("[:lower:]", "a-z"), ("\\n", "\n"), ("\\t", "\t")] cs with
    | some (set_, rest) => trSet n set_.toList ++ trSet n rest
    | none =>
      match cs with
      | [] => []
      | '\\' :: c :: cs => c :: trSet n cs
      | a :: '-' :: b :: cs =>
        ((List.range (b.toNat + 1 - a.toNat)).map fun k => Char.ofNat (a.toNat + k)) ++ trSet n cs
      | c :: cs => c :: trSet n cs

def tr (args : List String) : RunM Unit := do
  leave 0
  let bytes ← takeInput
  let set_ (s : String) : List UInt8 :=
    (trSet (s.length + 1) s.toList).flatMap fun c => bytesOf (String.ofList [c])
  match args with
  | ["-d", a] => put (bytes.filter fun b => !(set_ a).contains b)
  | ["-s", a] =>
    put (((bytes.zip ((none : Option UInt8) :: bytes.map some)).filter fun (b, before) =>
      !((set_ a).contains b && before = some b)).map Prod.fst)
  | [a, b] =>
    let images := set_ b
    put (bytes.map fun x =>
      match (set_ a).idxOf? x with
      | some i => (images[i]?.or images.getLast?).getD x
      | none => x)
  | _ => lackOperand "tr"

/-! ## Other programs -/

def seq (args : List String) : RunM Unit := do
  leave 0
  let number (s : String) : Int := (readNumber s.toList).1
  let (first, step, last) : Int × Int × Int := match args with
    | [b] => (1, 1, number b)
    | [a, b] => (number a, 1, number b)
    | [a, s, b] => (number a, number s, number b)
    | _ => (1, 1, 0)
  if step = 0 then return ()
  let count := if (last - first) / step < 0 then 0 else ((last - first) / step).toNat + 1
  let fits (n : Int) : Bool := if step > 0 then n ≤ last else n ≥ last
  let numbers := (List.range count).map fun (k : Nat) => first + step * (k : Int)
  say (String.join ((numbers.filter fits).map fun n => Text.Integer.text n ++ "\n"))

def withoutSlashes (path : String) : String :=
  let cs := dropEndWhile (· = '/') path.toList
  if cs.isEmpty && !path.isEmpty then "/" else String.ofList cs

def basename (args : List String) : RunM Unit := do
  leave 0
  match args with
  | path :: rest =>
    let path := withoutSlashes path
    let base := if path = "/" then path else Path.baseName path
    let base := match rest with
      | ending :: _ =>
        if endsWith base ending && base ≠ ending then
          takeFirst (base.length - ending.length) base
        else base
      | [] => base
    say (base ++ "\n")
  | [] => lackOperand "basename"

def dirname (args : List String) : RunM Unit := do
  leave 0
  match args with
  | [] => lackOperand "dirname"
  | paths =>
    for path in paths do
      let dir := Path.dirName (withoutSlashes path)
      say ((if dir.isEmpty then "." else dir) ++ "\n")

def exprValue? (a operator b : String) : Except String String :=
  let integer? (s : String) : Option Int :=
    match readNumber s.toList with
    | (n, []) => if s.isEmpty then none else some n
    | _ => none
  let truth (p : Bool) : Except String String := .ok (if p then "1" else "0")
  let compare (onNumbers : Int → Int → Bool) (onTexts : String → String → Bool) :=
    match integer? a, integer? b with
    | some x, some y => truth (onNumbers x y)
    | _, _ => truth (onTexts a b)
  match operator with
  | "=" | "==" => compare (· == ·) (· == ·)
  | "!=" => compare (· != ·) (· != ·)
  | "<" => compare (· < ·) (· < ·)
  | "<=" => compare (· ≤ ·) (· ≤ ·)
  | ">" => compare (fun x y => y < x) (fun x y => y < x)
  | ">=" => compare (fun x y => y ≤ x) (fun x y => y ≤ x)
  | _ =>
    if !(["+", "-", "*", "/", "%"].contains operator) then .error "syntax error"
    else
      match integer? a, integer? b with
      | some x, some y =>
        if (operator = "/" || operator = "%") && y = 0 then .error "division by zero"
        else .ok (Text.Integer.text (match operator with
          | "+" => x + y
          | "-" => x - y
          | "*" => x * y
          | "/" => Int.tdiv x y
          | _ => Int.tmod x y))
      | _, _ => .error "non-integer argument"

def expr (args : List String) : RunM Unit := do
  let rec value (a : String) : List String → Except String String
    | operator :: b :: rest => do value (← exprValue? a operator b) rest
    | [] => .ok a
    | _ => .error "syntax error"
  let result := match args with
    | a :: rest => value a rest
    | [] => .error "missing operand\nTry 'expr --help' for more information."
  match result with
  | .ok value =>
    say (value ++ "\n")
    leave (if value.isEmpty || value = "0" then 1 else 0)
  | .error text => grumble ("expr: " ++ text) 2

def ls (args : List String) : RunM Unit := do
  leave 0
  let st ← get
  let options := optionLetters args
  let named := (operands args).mergeSort (· ≤ ·)
  let named := if named.isEmpty then ["."] else named
  for name in named do
    if !st.files.pathExists st.cwd name then
      grumble ("ls: cannot access '" ++ name ++ "': No such file or directory") 2
  let files := named.filter fun n =>
    st.files.pathExists st.cwd n && (!st.files.isDir st.cwd n || options.contains 'd')
  let dirs := named.filter fun n => st.files.isDir st.cwd n && !options.contains 'd'
  let lines (names : List String) : String := String.join (names.map (· ++ "\n"))
  say (lines files)
  let sections := dirs.map fun d =>
    let names := ((st.files.list st.cwd d).toOption.getD []).mergeSort (· ≤ ·)
    let names :=
      if options.contains 'a' then "." :: ".." :: names
      else if options.contains 'A' then names
      else names.filter fun n => !startsWith n "."
    (if named.length > 1 then d ++ ":\n" else "") ++ lines names
  say ((if files.isEmpty || dirs.isEmpty then "" else "\n") ++ String.intercalate "\n" sections)

def changeFiles (names : List String)
    (change : FileTree → List String → String → Except FileFault FileTree) (lead : String) : RunM Unit := do
  leave 0
  for name in names do
    let st ← get
    match change st.files st.cwd name with
    | .ok files => set { st with files := files }
    | .error (.failed cause _) => grumble (lead ++ name ++ "': " ++ cause.message) 1
    | .error .nulInPath => leave 1

def touch (args : List String) : RunM Unit :=
  changeFiles args
    (fun files cwd name =>
      if files.pathExists cwd name then .ok files else files.write cwd name ByteArray.empty)
    "touch: cannot touch '"

def mkdir (args : List String) : RunM Unit :=
  let deep := args.contains "-p"
  changeFiles (args.filter (· ≠ "-p"))
    (fun files cwd name => if deep then files.ensureDirs cwd name else files.makeDir cwd name)
    "mkdir: cannot create directory '"

def rm (args : List String) : RunM Unit :=
  let options := (args.filter fun a => startsWith a "-").flatMap (·.toList.drop 1)
  changeFiles (args.filter fun a => !startsWith a "-")
    (fun files cwd name =>
      if options.contains 'f' && !files.pathExists cwd name then .ok files
      else if options.contains 'r' && files.isDir cwd name then files.removeAll cwd name
      else files.remove cwd name)
    "rm: cannot remove '"

def test (name : String) (args : List String) : RunM Unit := do
  match Condition.holds (← get) args with
  | .ok b => leave (if b then 0 else 1)
  | .error text => complain (name ++ ": " ++ text) 2

def exit (args : List String) : RunM Unit := do
  if let a :: _ := args then
    match Condition.number a with
    | .ok n =>
      if n < 0 then complain ("exit: Illegal number: " ++ a) 2 else leave (n.toNat % 256)
    | .error text => complain ("exit: " ++ text) 2
  modify fun st => { st with exited := true }

def cd (args : List String) : RunM Unit := do
  let st ← get
  let target := (args.head?.or (st.value? "HOME")).getD ""
  if target.isEmpty then leave 0
  else if st.files.isDir st.cwd target then
    let cwd := Path.absolute st.cwd target
    let old := Path.render st.cwd
    set ((({ st with cwd := cwd, status := 0 } : State).assign "OLDPWD" old).assign "PWD"
      (Path.render cwd))
  else complain ("cd: can't cd to " ++ target) 2

def refuseName (program name : String) : RunM Unit :=
  complain (program ++ ": " ++ name ++ ": bad variable name") 2

def export_ (args : List String) : RunM Unit := do
  leave 0
  for a in args do
    match cut? a "=" with
    | some (name, value) =>
      if isName name.toList then modify (·.assign name value) else refuseName "export" name
    | none => if !isName a.toList then refuseName "export" a

def unset (args : List String) : RunM Unit := do
  leave 0
  for name in args.filter (· ≠ "-v") do
    if isName name.toList then
      modify fun st => { st with bindings := st.bindings.filter fun v => v.1 != name }
    else refuseName "unset" name

def printenv (args : List String) : RunM Unit := do
  leave 0
  for name in args do
    match (← get).value? name with
    | some value => say (value ++ "\n")
    | none => leave 1

def printf_ (args : List String) : RunM Unit := do
  match if args.head? = some "--" then args.drop 1 else args with
  | [] => complain "printf: usage: printf format [arg ...]" 2
  | format :: rest =>
    if startsWith format "-" && format.length > 1 && args.head? ≠ some "--" then
      complain ("printf: Illegal option -" ++ takeFirst 1 (dropFirst 1 format)) 2
    else
      let p := printf format rest
      for text in p.reports do complain ("printf: " ++ text) 0
      put p.out
      leave p.status

def builtins : List (String × (List String → RunM Unit)) :=
  [("echo", fun args => do
      leave 0
      put (echo args)),
    ("printf", printf_), ("true", fun _ => leave 0), (":", fun _ => leave 0),
    ("wait", fun _ => leave 0), ("false", fun _ => leave 1), ("test", test "test"),
    ("[", fun args =>
      if args.getLast? = some "]" then test "[" args.dropLast else complain "[: missing ]" 2),
    ("exit", exit), ("cd", cd),
    ("pwd", fun _ => do
      leave 0
      say (Path.render (← get).cwd ++ "\n")),
    ("export", export_), ("unset", unset)]

def programs : List (String × (List String → RunM Unit)) :=
  [("cat", cat), ("head", passPart "head" List.take), ("tail", passPart "tail" takeEnd), ("wc", wc),
    ("sort", sort), ("tr", tr), ("seq", seq), ("basename", basename), ("dirname", dirname),
    ("expr", expr), ("ls", ls), ("touch", touch), ("mkdir", mkdir), ("rm", rm),
    ("printenv", printenv), ("sleep", fun _ => leave 0),
    ("uname", fun _ => do
      leave 0
      say "Linux\n")]

def locate (name : String) : RunM Unit := do
  leave 0
  if (builtins.lookup name).isSome || name = "eval" || name = "command" then say (name ++ "\n")
  else if (programs.lookup name).isSome then say ("/usr/bin/" ++ name ++ "\n")
  else leave 127

def runNamed : List String → RunM Unit
  | [] => leave 0
  | "command" :: "-v" :: name :: _ => locate name
  | name :: args => do
    match (builtins ++ programs).lookup name with
    | some act => act args
    | none =>
      let st ← get
      if contains name "/" && st.files.pathExists st.cwd name then
        complain (name ++ ": Permission denied") 126
      else complain (name ++ ": not found") 127

end Buildsmith.Shell
