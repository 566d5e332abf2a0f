import Buildsmith.Shell.Program

/-!
# Running command lines

A command line runs on a file tree and an environment and gives what it wrote to its two output
streams.  Commands of a pipeline and groups in parentheses run on their own: they change files, but
neither variables nor the directory of the shell.
-/

namespace Buildsmith.Shell

/-- Where a stream goes. -/
inductive Sink where
  | stream (n : Nat)
  | file (path : String)
  | nowhere

abbrev Sinks := List (Nat × Sink)

def sinkOf? (st : State) (sinks : Sinks) (n : Nat) : Option Sink :=
  (sinks.lookup n).or (if st.streams.contains n then some (.stream n) else none)

def deliver (sinks : Sinks) (n : Nat) (bytes : List UInt8) : RunM Unit := do
  let st ← get
  match sinkOf? st sinks n with
  | some (.stream m) => set (st.write m bytes)
  | some (.file path) =>
    let before := ((st.files.read st.cwd path).toOption.map ByteArray.toList).getD []
    match st.files.write st.cwd path (ByteArray.mk (before ++ bytes).toArray) with
    | .ok files => set { st with files := files }
    | .error _ => return ()
  | _ => return ()

def failToOpen {α : Type} (lead ifMissing : String) : FileFault → ExpandM α
  | .failed .notFound _ | .failed .notDirectory _ => throw (lead ++ ": " ++ ifMissing)
  | .failed cause _ => throw (lead ++ ": " ++ cause.message)
  | .nulInPath => throw lead

def openOutput (path : String) (append : Bool) : ExpandM Sink := do
  if path = "/dev/null" then return .nowhere
  let st ← get
  let old := if append then (st.files.read st.cwd path).toOption.getD ByteArray.empty
    else ByteArray.empty
  match st.files.write st.cwd path old with
  | .ok files =>
    set { st with files := files }
    return .file path
  | .error fault => failToOpen ("cannot create " ++ path) "Directory nonexistent" fault

def openInput (path : String) : ExpandM Unit := do
  let st ← get
  if path = "/dev/null" then set { st with input := [] }
  else
    match st.files.read st.cwd path with
    | .ok bytes => set { st with input := bytes.toList }
    | .error fault => failToOpen ("cannot open " ++ path) "No such file" fault

variable (sub : String → RunM (List UInt8)) (eval : String → RunM Unit)

def redirect (sinks : Sinks) (r : Redirection) : ExpandM Sinks := do
  let target ← expandText sub r.target
  match r.kind with
  | .from_ =>
    openInput target
    return sinks
  | .to => return (r.stream, ← openOutput target false) :: sinks
  | .append => return (r.stream, ← openOutput target true) :: sinks
  | .copy =>
    if target = "-" then return (r.stream, .nowhere) :: sinks
    match target.toNat? with
    | none => throw "Syntax error: Bad fd number"
    | some m =>
      if m = 0 then return sinks
      match sinkOf? (← get) sinks m with
      | some sink => return (r.stream, sink) :: sinks
      | none => throw (target ++ ": Bad file descriptor")

def redirecting (rs : List Redirection) (act : RunM Unit) : RunM Unit := do
  let before ← get
  match ← (rs.foldlM (redirect sub) ([] : Sinks)).run with
  | .error text => complain text 2
  | .ok sinks =>
    let ready ← get
    set { ready with
      written := [], streams := (sinks.map Prod.fst ++ ready.streams).eraseDups }
    act
    let done ← get
    let isTaken := rs.any fun r => r.kind = .from_
    set { done with
      written := ready.written, streams := before.streams
      input := if isTaken then before.input else done.input }
    for (n, bytes) in done.written do deliver sinks n bytes

def splitAssignments : List Word → List (String × Word) × List Word
  | [] => ([], [])
  | w :: ws =>
    let lead := w.takeWhile fun p => match p with | .text "=" false => false | .text _ false => true | _ => false
    match (plainText? lead).filter (isName ·.toList), w.drop lead.length with
    | some name, _ :: value =>
      match splitAssignments ws with
      | (rest, words) => ((name, value) :: rest, words)
    | _, _ => ([], w :: ws)

def keepsAssignments (name : String) : Bool :=
  [":", "eval", "exit", "export", "unset"].contains name

def runSimple (words : List Word) : RunM Unit := do
  let (assignments, words) := splitAssignments words
  let expanded : ExpandM (List String) := do
    let fields ← expandWords sub words
    let lasts := (fields.head?.map keepsAssignments).getD true
    for (name, value) in assignments do
      let value ← expandText sub value
      if lasts then modify (·.assign name value)
    return fields
  match ← expanded.run with
  | .error text => giveUp text
  | .ok ("eval" :: rest) => eval (String.intercalate " " rest)
  | .ok ("command" :: name :: rest) =>
    runNamed (if name = "-v" then "command" :: name :: rest else name :: rest)
  | .ok fields => runNamed fields

def maxRounds : Nat := 10000

/-- Repeats something while a condition holds or, if it is negated, while it does not. -/
def repeating (negated : Bool) (condition body : RunM Unit) : Nat → RunM Unit
  | 0 => return ()
  | n + 1 => do
    condition
    let st ← get
    if st.exited || ((st.status = 0) = negated) then return ()
    body
    repeating negated condition body n

mutual

def Command.run : Command → RunM Unit
  | .simple words => runSimple sub eval words
  | .group false body => runSteps body
  | .group true body => isolated (runSteps body)
  | .branch condition body otherwise => do
    runSteps condition
    let st ← get
    if st.exited then return ()
    if st.status = 0 then runSteps body
    else
      leave 0
      runSteps otherwise
  | .loop negated condition body => do
    repeating negated (runSteps condition) (runSteps body) maxRounds
    if !(← get).exited then leave 0
  | .each name words body => do
    match ← (expandWords sub words).run with
    | .error text => giveUp text
    | .ok fields =>
      leave 0
      for field in fields do
        if !(← get).exited then
          modify (·.assign name field)
          runSteps body
  | .redirected rs c => redirecting sub rs (Command.run c)

def runPipe : List Command → RunM Unit
  | [] => return ()
  | c :: cs => do
    isolated (Command.run c)
    if !cs.isEmpty then
      modify fun st =>
        { st with input := st.writtenTo 1, written := st.writtenElsewhere 1 }
    runPipe cs

def Step.run : Step → RunM Unit
  | .step joiner negated commands => do
    let before ← get
    let runs := !before.exited && (match joiner with
      | .always => true
      | .onSuccess => before.status = 0
      | .onFailure => before.status ≠ 0)
    if runs then
      match commands with
      | [c] => Command.run c
      | cs =>
        set { before with written := [] }
        runPipe cs
        modify fun st => { st with written := before.written ++ st.written, input := before.input }
      if negated then modify fun st => { st with status := if st.status = 0 then 1 else 0 }

def runSteps : List Step → RunM Unit
  | [] => return ()
  | s :: ss => do
    Step.run s
    runSteps ss

end

def runLine : Nat → String → RunM Unit
  | 0, _ => return ()
  | depth + 1, line => do
    match stepsOf line with
    | .ok steps => runSteps (fun inner => taking (isolated (runLine depth inner))) (runLine depth) steps
    | .error problem => giveUp ("Syntax error: " ++ problem.message)

def maxLineDepth : Nat := 20

def run : Shell := fun files cwd env line =>
  let start : State := { files := files, cwd := cwd, bindings := startBindings cwd env }
  let (_, st) := (runLine maxLineDepth line).run start
  { files := st.files, out := st.writtenTo 1, err := st.writtenTo 2 }

end Buildsmith.Shell
