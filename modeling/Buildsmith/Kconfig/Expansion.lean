import Buildsmith.Kconfig.Model
import Buildsmith.Kconfig.Token

/-!
# Expansion of preprocessor calls

A call is written `$(name,argument,...)`.  Calls inside the name and the arguments are expanded
first, from left to right, and what a call expands to is never looked at again.

The name of a call is, in this order, the number of an argument of the call around it, a variable,
a function, or an environment variable.  A variable may not be expanded inside itself without
arguments, and with arguments only to a fixed depth.
-/

namespace Buildsmith.Kconfig

open Text.Integer String

/-!
## The state of reading

While description files are read, the model grows, preprocessor variables are set and warnings are
given.  The state lasts beyond that: conditions given as text are read with it as well.
-/

/-- A preprocessor variable. -/
structure Variable where
  name : String
  isRecursive : Bool := true
  value : Option String := none
  /-- The number of expansions of the variable that are under way. -/
  nesting : Nat := 0
  deriving Inhabited

/-- Which warnings are given, and whether they are also printed. -/
structure WarningFlags where
  enabled : Bool := true
  toStderr : Bool := true
  undefined : Bool := false
  override : Bool := true
  redundant : Bool := true

/-- All that reading depends on and changes. -/
structure Reading where
  model : Model := .initial
  workspace : Workspace := {}
  /-- What runs the commands of `$(shell,...)`. -/
  shell : Shell := fun files _ _ _ => { files }
  encoding : Text.Encoding := .utf8
  srctree : String := ""
  symbolLead : String := "CONFIG_"
  hasUserFunctions : Bool := false
  flags : WarningFlags := {}
  warnings : Array String := #[]
  definitions : List Variable := []
  envUsed : List String := []
  /-- Whether names that are met for the first time enter the model for good. -/
  isParsing : Bool := true
  /-- The number of symbols that entered the model for good. -/
  registered : Nat := 0
  file : Option String := none
  line : Nat := 0
  includePath : List (String × Nat) := []
  /-- The line that is being read, for messages. -/
  text : String := ""
  lines : List String := []
  lineFault : Option Text.DecodeFault := none
  /-- Tokens of a line that turned out not to belong to the statement before it. -/
  pending : Option (List Token) := none
  filenames : List String := []
  menus : List EntryId := []
  comments : List EntryId := []

abbrev ReadM := ExceptT Fault (StateM Reading)

def Reading.log (r : Reading) (text : String) : Reading :=
  if r.flags.enabled then
    { r with
      warnings := r.warnings.push text
      workspace :=
        if r.flags.toStderr then r.workspace.printError (text ++ "\n") else r.workspace }
  else r

def warn (text : String) : ReadM Unit :=
  modify (·.log ("warning: " ++ text))

def warnHere (text : String) : ReadM Unit :=
  modify fun r =>
    match r.file with
    | some f => r.log (placeText (f, r.line) ++ ": warning: " ++ text)
    | none => r.log ("warning: " ++ text)

def fail {α : Type} (p : Problem) : ReadM α := do
  let r ← get
  throw (.line (r.file.map fun f => (f, r.line)) (Text.trim r.text) p)

/-- Finds a symbol, or a constant, by its name; one that is not there yet is added. -/
def lookup (isConstant : Bool) (name : String) : ReadM SymbolId := do
  let r ← get
  let limit := if r.isParsing then r.model.symbols.size else r.registered
  match r.model.findSymbol? isConstant name with
  | some i => if i < limit then return i
  | none => pure ()
  unless r.isParsing || isConstant do warn ("no symbol " ++ name ++ " in configuration")
  modify fun r =>
    { r with model := { r.model with symbols := r.model.symbols.push { name, isConstant } } }
  return r.model.symbols.size

/-! ## Expansion -/

/-- The greatest nesting at which a variable can still be called with arguments. -/
def maxNesting : Nat := 100

def indexed? (args : List String) (i : Int) : Option String :=
  if i < 0 then
    let n := i.natAbs
    if n ≤ args.length then args[args.length - n]? else none
  else args[i.toNat]?

def Reading.findVariable? (r : Reading) (name : String) : Option Variable :=
  r.definitions.find? fun v => v.name == name

def Reading.modifyVariable (r : Reading) (name : String) (f : Variable → Variable) : Reading :=
  { r with definitions := r.definitions.map fun v => if v.name == name then f v else v }

/-- The numbers of arguments that a function takes: the least and, unless it is open, the most. -/
def arity? (hasUserFunctions : Bool) (name : String) : Option (Nat × Option Nat) :=
  match name with
  | "info" => some (1, some 1)
  | "error-if" => some (2, some 2)
  | "filename" => some (0, some 0)
  | "lineno" => some (0, some 0)
  | "shell" => some (1, some 1)
  | "warning-if" => some (2, some 2)
  | "add" => if hasUserFunctions then some (0, none) else none
  | "one" => if hasUserFunctions then some (1, some 1) else none
  | "one-or-more" => if hasUserFunctions then some (1, none) else none
  | _ => none

def arityText (least : Nat) (most : Option Nat) : String :=
  match most with
  | none => natText least ++ " or more"
  | some n =>
    if n = least then natText least
    else natText least ++ "-" ++ natText n

def shellValue (command : String) : ReadM String := do
  let r ← get
  let ran := r.shell r.workspace.files r.workspace.cwd r.workspace.env command
  set { r with workspace := { r.workspace with files := ran.files } }
  let decoded (bytes : List UInt8) : ReadM String :=
    match Text.decode r.encoding (ByteArray.mk bytes.toArray) with
    | .ok s => return s
    | .error f => throw (.malformedText f (.call r.file r.line))
  let out ← decoded ran.out
  let err ← decoded ran.err
  unless err.isEmpty do
    warnHere ("'" ++ command ++ "' wrote to stderr: " ++
      intercalate "\n" (Text.displayLines err))
  let joined := intercalate "\n" (Text.displayLines out)
  return Text.replace (ofList (Text.dropEndWhile (· = '\n') joined.toList)) "\n" " "

def addAll (args : List String) : ReadM String := do
  let values := args.map (parse? 10)
  if values.all Option.isSome then
    match text? ((values.filterMap id).foldl (· + ·) 0) with
    | some t => return t
    | none => throw .badNumber
  else throw .badNumber

def functionValue (name : String) (args : List String) : ReadM String := do
  let r ← get
  match name, args with
  | "info", [text] =>
    set { r with workspace := r.workspace.print (someplaceText r.file r.line ++ ": " ++ text ++ "\n") }
    return ""
  | "error-if", [cond, text] =>
    if cond = "y" then throw (.raised r.file r.line text) else return ""
  | "filename", [] =>
    match r.file with
    | some f => return f
    | none => throw .noFile
  | "lineno", [] => return natText r.line
  | "shell", [command] => shellValue command
  | "warning-if", [cond, text] =>
    if cond = "y" then warnHere text
    return ""
  | "add", _ => addAll args
  | "one", [arg] => return name ++ arg ++ arg
  | "one-or-more", arg :: rest => return arg ++ " + " ++ intercalate "," rest
  | _, _ => return ""

def otherValue (name : String) (args : List String) : ReadM String := do
  let r ← get
  match arity? r.hasUserFunctions name with
  | some (least, most) =>
    if args.length < least || (match most with | some n => args.length > n | none => false) then
      throw (.argumentCount r.file r.line name (arityText least most) args.length)
    else functionValue name args
  | none =>
    match r.workspace.getEnv? name with
    | some v =>
      set { r with envUsed := if r.envUsed.contains name then r.envUsed else r.envUsed ++ [name] }
      return v
    | none => return ""

mutual

/-- Expands the calls in a text; `outer` holds the name and arguments of the call around it. -/
def expandText (depth : Nat) (outer : List String) : Nat → List Char → List Char → ReadM String
  | 0, _, _ => throw .unbounded
  | _ + 1, acc, [] => return ofList acc.reverse
  | fuel + 1, acc, '$' :: '(' :: cs => do
    let (value, rest) ← expandCall depth outer fuel [] [] cs
    expandText depth outer fuel (value.toList.reverse ++ acc) rest
  | fuel + 1, acc, c :: cs => expandText depth outer fuel (c :: acc) cs
termination_by fuel => (depth, fuel + 1)

/-- Expands a call; `done` is reversed, and so is `cur`, the part that is open. -/
def expandCall (depth : Nat) (outer : List String) :
    Nat → List String → List Char → List Char → ReadM (String × List Char)
  | 0, _, _, _ => throw .unbounded
  | _ + 1, _, _, [] => fail .unclosedCall
  | fuel + 1, done, cur, '$' :: '(' :: cs => do
    let (value, rest) ← expandCall depth outer fuel [] [] cs
    expandCall depth outer fuel done (value.toList.reverse ++ cur) rest
  | fuel + 1, done, cur, c :: cs => do
    if c = ',' then expandCall depth outer fuel (ofList cur.reverse :: done) [] cs
    else if c = ')' then
      let args := (ofList cur.reverse :: done).reverse
      let index := (args.head?.bind fun a => parse? 10 a).bind (indexed? outer)
      match index with
      | some value => return (value, cs)
      | none =>
        let value ← callValue depth args
        return (value, cs)
    else expandCall depth outer fuel done (c :: cur) cs
termination_by fuel => (depth, fuel + 1)

def callValue (depth : Nat) (call : List String) : ReadM String := do
  match depth, call with
  | 0, _ => throw .unbounded
  | _, [] => return ""
  | depth + 1, name :: args =>
    let r ← get
    match r.findVariable? name with
    | none => otherValue name args
    | some v =>
      if args.isEmpty then
        if v.nesting ≠ 0 then fail (.recursiveVariable name)
      else if v.nesting > maxNesting then fail (.stuckFunction name)
      modify fun r => r.modifyVariable name fun v => { v with nesting := v.nesting + 1 }
      match v.value with
      | none => throw .inapplicable
      | some body =>
        let value ← expandText depth (name :: args) (body.length + 1) [] body.toList
        modify fun r => r.modifyVariable name fun v => { v with nesting := v.nesting - 1 }
        return value
termination_by (depth, 0)

end

def Reading.depthBound (r : Reading) : Nat :=
  (maxNesting + 1) * r.definitions.length + 1

def expandWhole (s : String) : ReadM String := do
  expandText ((← get).depthBound) [] (s.length + 1) [] s.toList

def expandOne (cs : List Char) : ReadM (String × List Char) := do
  expandCall ((← get).depthBound) [] (cs.length + 1) [] [] cs

def expandedValue (name : String) (args : List String) : ReadM String := do
  callValue ((← get).depthBound) (name :: args)

end Buildsmith.Kconfig
