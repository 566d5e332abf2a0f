import Buildsmith.Kconfig.Describe

/-!
# Evaluation

The rules say how each value is computed from others.  They are stated once for any way to read
other values, `Readers`, and take effect in two steps: `Readers.answer` is the rule behind a query,
and `answerWithin` ties the rules together, for a bounded number of nested reads.

Evaluation first looks for a value that is known and otherwise remembers what it computes.  With the
value of a symbol it remembers whether the symbol appears in configuration files.
-/

namespace Buildsmith.Kconfig

open Text.Integer

/-- What can be read of symbols and choices. -/
inductive Query where
  | tristate (i : SymbolId)
  | text (i : SymbolId)
  | visibility (i : SymbolId)
  | assignable (i : SymbolId)
  | mode (c : ChoiceId)
  | choiceVisibility (c : ChoiceId)
  | selection (c : ChoiceId)
  | choiceAssignable (c : ChoiceId)
  deriving DecidableEq, Repr

abbrev Query.Answer : Query → Type
  | tristate _ => Tristate
  | text _ => String
  | visibility _ => Tristate
  | assignable _ => List Tristate
  | mode _ => Tristate
  | choiceVisibility _ => Tristate
  | selection _ => Option SymbolId
  | choiceAssignable _ => List Tristate

def Query.item : Query → Item
  | tristate i | text i | visibility i | assignable i => .symbol i
  | mode c | choiceVisibility c | selection c | choiceAssignable c => .choice c

/-- The ways to read values and what a user assigned, and to say what is found out beside them. -/
structure Readers (M : Type → Type) where
  model : Model
  ask : (q : Query) → M q.Answer
  user : SymbolId → M (Option UserValue)
  userMode : ChoiceId → M (Option Tristate)
  userSelection : ChoiceId → M (Option SymbolId)
  /-- Says whether the symbol at hand appears in configuration files. -/
  setWritten : Bool → M Unit
  warn : M String → M Unit

/-- The mode that a choice has if its visibility allows: one that is not optional is not `n`. -/
def Choice.wantedMode (c : Choice) (user : Option Tristate) : Tristate :=
  let least : Tristate := if c.isOptional then .no else .mod
  match user with
  | some u => max least u
  | none => least

/-- The bound of a range that a number lies beyond, if any; the lower one comes first. -/
def crossedBound? (low high n : Int) : Option Int :=
  if n < low then some low else if n > high then some high else none

namespace Readers

variable {M : Type → Type}

abbrev tristate (r : Readers M) (i : SymbolId) : M Tristate := r.ask (.tristate i)

abbrev text (r : Readers M) (i : SymbolId) : M String := r.ask (.text i)

abbrev visibility (r : Readers M) (i : SymbolId) : M Tristate := r.ask (.visibility i)

abbrev mode (r : Readers M) (c : ChoiceId) : M Tristate := r.ask (.mode c)

abbrev choiceVisibility (r : Readers M) (c : ChoiceId) : M Tristate := r.ask (.choiceVisibility c)

abbrev selection (r : Readers M) (c : ChoiceId) : M (Option SymbolId) := r.ask (.selection c)

variable [Monad M]

def number? (r : Readers M) (i : SymbolId) : M (Option Int) := do
  let kind := (r.model.symbol i).kind
  if kind.isLogical then return some (← r.tristate i).toNat
  else return parse? kind.base (← r.text i)

def compareTexts (r : Readers M) (a b : SymbolId) : M Ordering := do
  let x ← r.text a
  let y ← r.text b
  return compare x y

/-- Compares two symbols: as numbers if both are, unless both are strings. -/
def compareSymbols (r : Readers M) (a b : SymbolId) : M Ordering := do
  if (r.model.symbol a).kind = .string && (r.model.symbol b).kind = .string then r.compareTexts a b
  else
    match ← r.number? a with
    | none => r.compareTexts a b
    | some x =>
      match ← r.number? b with
      | none => r.compareTexts a b
      | some y => return compare x y

/-- The value of a condition.  The second operand is left out when the first one decides. -/
def value (r : Readers M) : Expr → M Tristate
  | .item (.symbol i) => r.tristate i
  | .item (.choice i) => r.mode i
  | .and a b => do
    let x ← r.value a
    if x = .no then return .no else return min x (← r.value b)
  | .or a b => do
    let x ← r.value a
    if x = .yes then return .yes else return max x (← r.value b)
  | .not e => return (← r.value e).complement
  | .rel op a b => return .ofBool (op.holds (← r.compareSymbols a b))

/-- What tristates are at present: without modules they are no more than two-valued. -/
def tristateKind (r : Readers M) : M Kind := do
  if (← r.tristate SymbolId.modules) = .no then return .bool else return .tristate

/-- The kind that a symbol has at present; in a choice that is set to `y` there are no tristates. -/
def kind (r : Readers M) (i : SymbolId) : M Kind := do
  let s := r.model.symbol i
  if s.kind = .tristate then
    match s.choice with
    | some c => if (← r.mode c) = .yes then return .bool else r.tristateKind
    | none => r.tristateKind
  else return s.kind

def choiceKind (r : Readers M) (i : ChoiceId) : M Kind := do
  let c := r.model.choice i
  if c.kind = .tristate then r.tristateKind else return c.kind

def promptValue (r : Readers M) : List EntryId → Tristate → M Tristate
  | [], acc => return acc
  | k :: ks, acc => do
    match (r.model.entry k).prompt with
    | some (_, cond) => r.promptValue ks (max acc (← r.value cond))
    | none => r.promptValue ks acc

/-- A visibility of `m`, which only tristates can have, counts as `y` for other kinds. -/
def widened (kind : M Kind) (vis : Tristate) : M Tristate := do
  if vis = .mod then
    if (← kind) ≠ .tristate then return .yes
  return vis

/-- Whether the mode of its choice hides a symbol whose prompts have the given value. -/
def hiddenByMode (r : Readers M) (i : SymbolId) (c : ChoiceId) (vis : Tristate) : M Bool := do
  let s := r.model.symbol i
  if (r.model.choice c).kind = .tristate && s.kind ≠ .tristate then
    return (← r.mode c) ≠ .yes
  if s.kind = .tristate && vis = .mod then return (← r.mode c) = .yes
  return false

def freshVisibility (r : Readers M) (i : SymbolId) : M Tristate := do
  let s := r.model.symbol i
  let vis ← r.promptValue s.entries .no
  match s.choice with
  | some c => if ← r.hiddenByMode i c vis then return .no else widened (r.kind i) vis
  | none => widened (r.kind i) vis

def freshChoiceVisibility (r : Readers M) (i : ChoiceId) : M Tristate := do
  widened (r.choiceKind i) (← r.promptValue (r.model.choice i).entries .no)

def activeDefault (r : Readers M) : List (Expr × Expr) → M (Option (Expr × Tristate))
  | [] => return none
  | (value, cond) :: rest => do
    let c ← r.value cond
    if c ≠ .no then return some (value, c) else r.activeDefault rest

def defaultValue (r : Readers M) (i : SymbolId) : M Tristate := do
  match ← r.activeDefault (r.model.symbol i).defaults with
  | some (value, cond) =>
    let v := min (← r.value value) cond
    if v ≠ .no then r.setWritten true
    return v
  | none => return .no

def impliedValue (r : Readers M) (i : SymbolId) : M Tristate := do
  let s := r.model.symbol i
  let val ← r.defaultValue i
  let weak ← r.value s.weakReverseDep
  if weak ≠ .no then
    if (← r.value s.directDep) ≠ .no then
      r.setWritten true
      return max weak val
  return val

def memberValue (r : Readers M) (i : SymbolId) (c : ChoiceId) (vis : Tristate) : M Tristate := do
  if vis = .yes then
    return if (← r.selection c) = some i then .yes else .no
  if vis ≠ .no then
    match ← r.user i with
    | some (.tristate u) => return if u ≠ .no then .mod else .no
    | _ => return .no
  return .no

def freshMode (r : Readers M) (i : ChoiceId) : M Tristate := do
  let wanted := (r.model.choice i).wantedMode (← r.userMode i)
  let val := min wanted (← r.choiceVisibility i)
  if val = .mod then
    if (← r.choiceKind i) = .bool then return .yes
  return val

def firstVisible (r : Readers M) : List SymbolId → M (Option SymbolId)
  | [] => return none
  | s :: rest => do
    if (← r.visibility s) ≠ .no then return some s else r.firstVisible rest

variable [MonadExceptOf Fault M]

def defaultText (r : Readers M) (e : Expr) : M String :=
  match e with
  | .item (.symbol i) => r.text i
  | _ => throw .inapplicable

/-- The bounds of the first range whose condition holds; a bound that is no number counts as zero. -/
def activeRange (r : Readers M) (base : Nat) :
    List (SymbolId × SymbolId × Expr) → M (Option (Int × Int))
  | [] => return none
  | (low, high, cond) :: rest => do
    if (← r.value cond) ≠ .no then
      let l := (parse? base (← r.text low)).getD 0
      let h := (parse? base (← r.text high)).getD 0
      return some (l, h)
    else r.activeRange base rest

def numberText (kind : Kind) (n : Int) : M String :=
  if kind = .hex then return hexText n
  else
    match text? n with
    | some t => return t
    | none => throw .badNumber

def clampedText (r : Readers M) (i : SymbolId) (number : Int) (clamped : String)
    (low high : Int) : M String := do
  let kind := (r.model.symbol i).kind
  match text? number with
  | none => throw .badNumber
  | some n =>
    return "default value " ++ n ++ " on " ++ r.model.nameAndPlaces (.symbol i) ++
      " clamped to " ++ clamped ++ " due to being outside the active range ([" ++
      (← numberText kind low) ++ ", " ++ (← numberText kind high) ++ "])"

def givenDefault (r : Readers M) (i : SymbolId) : M (Option String) := do
  match ← r.activeDefault (r.model.symbol i).defaults with
  | some (value, _) =>
    r.setWritten true
    return some (← r.defaultText value)
  | none => return none

/-- Moves a default into the active range; no default counts as zero there. -/
def intoRange (r : Readers M) (i : SymbolId) (range : Option (Int × Int))
    (given : Option String) : M String := do
  let kind := (r.model.symbol i).kind
  let text := given.getD ""
  let number := (parse? kind.base text).getD 0
  match range with
  | none => return text
  | some (low, high) =>
    match crossedBound? low high number with
    | none => return text
    | some bound =>
      let clamped ← numberText kind bound
      if given.isSome then r.warn (r.clampedText i number clamped low high)
      return clamped

def numericDefault (r : Readers M) (i : SymbolId) (range : Option (Int × Int)) : M String := do
  r.intoRange i range (← r.givenDefault i)

def outsideText (r : Readers M) (i : SymbolId) (n low high : Int) : M String := do
  let kind := (r.model.symbol i).kind
  return "user value " ++ (← numberText kind n) ++ " on the " ++ kind.name ++
    " symbol " ++ r.model.nameAndPlaces (.symbol i) ++
    " ignored due to being outside the active range ([" ++ (← numberText kind low) ++
    ", " ++ (← numberText kind high) ++ "]) -- falling back on defaults"

/-- The text of a number: the user's value if it is visible and in range, else the default. -/
def chosenNumber (r : Readers M) (i : SymbolId) (vis : Tristate) (range : Option (Int × Int)) :
    Option UserValue → M String
  | some (.text userText) => do
    if vis = .no || userText.isEmpty then r.numericDefault i range
    else
      match parse? (r.model.symbol i).kind.base userText with
      | none => throw .badNumber
      | some n =>
        match range with
        | none => return userText
        | some (low, high) =>
          if low ≤ n && n ≤ high then return userText
          else
            r.warn (r.outsideText i n low high)
            r.numericDefault i range
  | _ => r.numericDefault i range

def numericText (r : Readers M) (i : SymbolId) (vis : Tristate) : M String := do
  let s := r.model.symbol i
  let range ← r.activeRange s.kind.base s.ranges
  r.chosenNumber i vis range (← r.user i)

def stringDefault (r : Readers M) (i : SymbolId) : M String := do
  return (← r.givenDefault i).getD ""

def chosenString (r : Readers M) (i : SymbolId) (vis : Tristate) : Option UserValue → M String
  | some (.text t) => if vis ≠ .no then return t else r.stringDefault i
  | _ => r.stringDefault i

def stringText (r : Readers M) (i : SymbolId) (vis : Tristate) : M String := do
  r.chosenString i vis (← r.user i)

def plainText (r : Readers M) (i : SymbolId) (vis : Tristate) : M String :=
  if (r.model.symbol i).kind.isNumeric then r.numericText i vis else r.stringText i vis

/-- The text of a symbol, computed anew; an undefined symbol stands for its name. -/
def freshText (r : Readers M) (i : SymbolId) : M String := do
  let s := r.model.symbol i
  if s.kind.isLogical then return (← r.tristate i).letter
  if s.kind = .unknown then return s.name
  let vis ← r.visibility i
  r.setWritten (vis ≠ .no)
  let t ← r.plainText i vis
  if s.envVar.isSome || r.model.defconfigList = some (.symbol i) then r.setWritten false
  return t

def selectingText (r : Readers M) (direct : Expr) (e : Expr) : M String := do
  let m := r.model
  if (← r.value e) ≤ (← r.value direct) then return ""
  match (e.conjuncts.headD e) with
  | .item (.symbol k) =>
    let x := m.symbol k
    let value ← r.text k
    let depValue ← r.value x.directDep
    let head := "\n - " ++ m.nameAndPlaces (.symbol k) ++ ", with value " ++ value ++
      ", direct dependencies " ++ m.exprText x.directDep ++ " (value: " ++ depValue.letter ++ ")"
    match e with
    | .and _ cond =>
      return head ++ ", and select condition " ++ m.exprText cond ++ " (value: " ++
        (← r.value cond).letter ++ ")"
    | _ => return head
  | _ => throw .inapplicable

def unsatisfiedText (r : Readers M) (i : SymbolId) : M String := do
  let m := r.model
  let s := m.symbol i
  let direct ← r.value s.directDep
  let reverse ← r.value s.reverseDep
  let parts ← s.reverseDep.disjuncts.mapM (r.selectingText s.directDep)
  return m.nameAndPlaces (.symbol i) ++ " has direct dependencies " ++ m.exprText s.directDep ++
    " with value " ++ direct.letter ++ ", but is currently being " ++ reverse.letter ++
    "-selected by the following symbols:" ++ String.join parts

/-- The value that a symbol has if nothing selects it: the user's if it is visible, else the
default. -/
def chosenValue (r : Readers M) (i : SymbolId) (vis : Tristate) : Option UserValue → M Tristate
  | some (.tristate u) => if vis ≠ .no then return min u vis else r.impliedValue i
  | _ => r.impliedValue i

def unselectedValue (r : Readers M) (i : SymbolId) (vis : Tristate) : M Tristate := do
  r.chosenValue i vis (← r.user i)

def selectedValue (r : Readers M) (i : SymbolId) (val : Tristate) : M Tristate := do
  let s := r.model.symbol i
  let reverse ← r.value s.reverseDep
  if reverse ≠ .no then
    if (← r.value s.directDep) < reverse then r.warn (r.unsatisfiedText i)
    r.setWritten true
    return max reverse val
  return val

/-- Whether a symbol cannot be `m`: it is no tristate at present, or it is implied by `y`. -/
def excludesMod (r : Readers M) (i : SymbolId) : M Bool := do
  if (← r.kind i) = .bool then return true
  return (← r.value (r.model.symbol i).weakReverseDep) = .yes

def plainValue (r : Readers M) (i : SymbolId) (vis : Tristate) : M Tristate := do
  let val ← r.selectedValue i (← r.unselectedValue i vis)
  if val = .mod then
    if ← r.excludesMod i then return .yes
  return val

def freshTristate (r : Readers M) (i : SymbolId) : M Tristate := do
  let s := r.model.symbol i
  if !s.kind.isLogical then
    if s.kind ≠ .unknown then
      r.warn (pure ("The " ++ s.kind.name ++ " symbol " ++ r.model.nameAndPlaces (.symbol i) ++
        " is being evaluated in a logical context somewhere. It will always evaluate to n."))
    return .no
  let vis ← r.visibility i
  r.setWritten (vis ≠ .no)
  match s.choice with
  | none => r.plainValue i vis
  | some c => r.memberValue i c vis

def visibleDefault (r : Readers M) : List (Expr × Expr) → M (Option SymbolId)
  | [] => return none
  | (value, cond) :: rest => do
    if (← r.value cond) ≠ .no then
      match value with
      | .item (.symbol s) =>
        if (← r.visibility s) ≠ .no then return some s else r.visibleDefault rest
      | _ => throw .inapplicable
    else r.visibleDefault rest

def defaultSelection (r : Readers M) (i : ChoiceId) : M (Option SymbolId) := do
  let c := r.model.choice i
  match ← r.visibleDefault c.defaults with
  | some s => return some s
  | none => r.firstVisible c.symbols

def freshSelection (r : Readers M) (i : ChoiceId) : M (Option SymbolId) := do
  if (← r.mode i) ≠ .yes then return none
  match ← r.userSelection i with
  | some s => if (← r.visibility s) ≠ .no then return some s else r.defaultSelection i
  | none => r.defaultSelection i

def freshAssignable (r : Readers M) (i : SymbolId) : M (List Tristate) := do
  let s := r.model.symbol i
  if !s.kind.isLogical then return []
  let vis ← r.visibility i
  if vis = .no then return []
  let reverse ← r.value s.reverseDep
  if vis = .yes then
    if s.choice.isSome then return [.yes]
    if reverse = .no then
      return if ← r.excludesMod i then [.no, .yes] else [.no, .mod, .yes]
    if reverse = .yes then return [.yes]
    return if ← r.excludesMod i then [.yes] else [.mod, .yes]
  if reverse = .no then
    return if (← r.value s.weakReverseDep) ≠ .yes then [.no, .mod] else [.no, .yes]
  if reverse = .yes then return [.yes]
  return [.mod]

def freshChoiceAssignable (r : Readers M) (i : ChoiceId) : M (List Tristate) := do
  let c := r.model.choice i
  let vis ← r.choiceVisibility i
  if vis = .no then return []
  if vis = .yes then
    let isBool := decide ((← r.choiceKind i) = .bool)
    if !c.isOptional then return if isBool then [.yes] else [.mod, .yes]
    return if isBool then [.no, .yes] else [.no, .mod, .yes]
  return if c.isOptional then [.no, .mod] else [.mod]

def answer (r : Readers M) : (q : Query) → M q.Answer
  | .tristate i => r.freshTristate i
  | .text i => r.freshText i
  | .visibility i => r.freshVisibility i
  | .assignable i => r.freshAssignable i
  | .mode c => r.freshMode c
  | .choiceVisibility c => r.freshChoiceVisibility c
  | .selection c => r.freshSelection c
  | .choiceAssignable c => r.freshChoiceAssignable c

end Readers

def Values.recalled? (v : Values) : (q : Query) → Option q.Answer
  | .tristate i => (v.symbol i).tristate
  | .text i => (v.symbol i).text
  | .visibility i => (v.symbol i).visibility
  | .assignable i => (v.symbol i).assignable
  | .mode _ => none
  | .choiceVisibility c => (v.choice c).visibility
  | .selection c => (v.choice c).selection
  | .choiceAssignable c => (v.choice c).assignable

/-- Remembers the answer to a query; with the value of a symbol, whether it is written. -/
def Values.remember (v : Values) (written : Option Bool) : (q : Query) → q.Answer → Values
  | .tristate i, a =>
    v.modifySymbol i fun x =>
      { x with tristate := some a, isWritten := written.getD x.isWritten }
  | .text i, a =>
    v.modifySymbol i fun x => { x with text := some a, isWritten := written.getD x.isWritten }
  | .visibility i, a => v.modifySymbol i fun x => { x with visibility := some a }
  | .assignable i, a => v.modifySymbol i fun x => { x with assignable := some a }
  | .mode _, _ => v
  | .choiceVisibility c, a => v.modifyChoice c fun x => { x with visibility := some a }
  | .selection c, a => v.modifyChoice c fun x => { x with selection := some a }
  | .choiceAssignable c, a => v.modifyChoice c fun x => { x with assignable := some a }

/-- The evaluation of a rule, which may say whether the symbol at hand is written. -/
abbrev RuleM := StateT (Option Bool) EvalM

def recalling (q : Query) (rule : RuleM q.Answer) : EvalM q.Answer := do
  match (← get).recalled? q with
  | some a => return a
  | none =>
    let (a, written) ← rule.run none
    modify (·.remember written q a)
    return a

def Readers.evaluating (m : Model) (ask : (q : Query) → EvalM q.Answer) : Readers RuleM where
  model := m
  ask q := StateT.lift (ask q)
  user i := return (← symbolState i).user
  userMode c := return (← choiceState c).user
  userSelection c := return (← choiceState c).userSelection
  setWritten b := set (some b)
  warn text := StateT.lift (text.run' none >>= evalWarn)

/-- The answer to a query, by reads that may be nested to the given depth. -/
def answerWithin (m : Model) : Nat → (q : Query) → EvalM q.Answer
  | 0, _ => throw .unbounded
  | n + 1, q => recalling q ((Readers.evaluating m (answerWithin m n)).answer q)

def Model.readDepth (m : Model) : Nat :=
  6 * (m.symbols.size + m.choices.size) + 10

def answerTo (q : Query) : EvalM q.Answer := do
  let m ← read
  answerWithin m m.readDepth q

def withReaders {α : Type} (f : Readers RuleM → RuleM α) : EvalM α := do
  (f (.evaluating (← read) answerTo)).run' none

def symbolText (i : SymbolId) : EvalM String := answerTo (.text i)

def symbolTristate (i : SymbolId) : EvalM Tristate := answerTo (.tristate i)

def symbolVisibility (i : SymbolId) : EvalM Tristate := answerTo (.visibility i)

def symbolAssignable (i : SymbolId) : EvalM (List Tristate) := answerTo (.assignable i)

def symbolKind (i : SymbolId) : EvalM Kind := withReaders (·.kind i)

def choiceMode (i : ChoiceId) : EvalM Tristate := answerTo (.mode i)

def choiceVisibility (i : ChoiceId) : EvalM Tristate := answerTo (.choiceVisibility i)

def choiceSelection (i : ChoiceId) : EvalM (Option SymbolId) := answerTo (.selection i)

def choiceAssignable (i : ChoiceId) : EvalM (List Tristate) := answerTo (.choiceAssignable i)

def choiceKindNow (i : ChoiceId) : EvalM Kind := withReaders (·.choiceKind i)

def exprValue (e : Expr) : EvalM Tristate := withReaders (·.value e)

/-!
## Assignments

A user assigns values to symbols and modes to choices.  An assignment that the kind does not allow
is refused with a warning.  One that is accepted invalidates what was computed from the old value.

Assigning `y` to a symbol of a choice makes it the user's selection there.
-/

/-- A value offered to a symbol or choice. -/
inductive Offer where
  | text (s : String)
  | number (n : Int)
  | nothing
  deriving DecidableEq, Repr

namespace Offer

def ranked : Offer → Offer
  | text s =>
    match Tristate.ofLetter? s with
    | some t => number t.toNat
    | none => text s
  | o => o

def tristate? : Offer → Option Tristate
  | number n => if n < 0 then none else Tristate.ofNat? n.toNat
  | _ => none

def shown (o : Offer) : String :=
  match o.tristate? with
  | some t => t.letter
  | none =>
    match o with
    | text s => "'" ++ s ++ "'"
    | number n => "'" ++ Text.Integer.text n ++ "'"
    | nothing => "'None'"

def isSame (o : Offer) (u : Option UserValue) : Bool :=
  match o, u with
  | nothing, none => true
  | text s, some (.text t) => s = t
  | number n, some (.tristate t) => n = t.toNat
  | _, _ => false

def accepted? (kind : Kind) (o : Offer) : Option UserValue :=
  match kind with
  | .bool =>
    match o.tristate? with
    | some .mod => none
    | some t => some (.tristate t)
    | none => none
  | .tristate => o.tristate?.map .tristate
  | .string => match o with | text s => some (.text s) | _ => none
  | .int =>
    match o with
    | text s => if isLiteral 10 s then some (.text s) else none
    | _ => none
  | .hex =>
    match o with
    | text s =>
      match parse? 16 s with
      | some n => if n ≥ 0 then some (.text s) else none
      | none => none
    | _ => none
  | .unknown => none

end Offer

def invalidate (i : Item) : EvalM Unit := do
  let m ← read
  modify fun v => v.invalidate m i

/-- Invalidates a symbol if a prompt lets its value matter; otherwise `warns` says whether to warn. -/
def invalidatePrompted (warns : Bool) (i : SymbolId) : EvalM Unit := do
  let m ← read
  if (m.symbol i).entries.any fun k => (m.entry k).prompt.isSome then invalidate (.symbol i)
  else if warns then
    evalWarn (m.nameAndPlaces (.symbol i) ++
      " has no prompt, meaning user values have no effect on it")

def warnRefused (i : Item) (o : Offer) : EvalM Unit := do
  let m ← read
  evalWarn ("the value " ++ o.shown ++ " is invalid for " ++ m.nameAndPlaces i ++
    ", which has type " ++ (m.kindOf i).name ++ " -- assignment ignored")

def setSymbol (warns : Bool) (i : SymbolId) (o : Offer) : EvalM Bool := do
  let s := (← read).symbol i
  let o := if s.kind.isLogical then o.ranked else o
  if o.isSame (← symbolState i).user && s.choice.isNone then
    updateSymbol i fun x => { x with wasSet := true }
    return true
  match o.accepted? s.kind with
  | none =>
    warnRefused (.symbol i) o
    return false
  | some u =>
    updateSymbol i fun x => { x with user := some u, wasSet := true }
    match s.choice, u with
    | some c, .tristate .yes =>
      updateChoice c fun x => { x with userSelection := some i, wasSet := true }
      invalidate (.choice c)
    | _, _ => invalidatePrompted warns i
    return true

def unsetSymbol (warns : Bool) (i : SymbolId) : EvalM Unit := do
  if (← symbolState i).user.isSome then
    updateSymbol i fun x => { x with user := none }
    invalidatePrompted warns i

def setChoice (i : ChoiceId) (o : Offer) : EvalM Bool := do
  let c := (← read).choice i
  let o := o.ranked
  if o.isSame ((← choiceState i).user.map .tristate) then
    updateChoice i fun x => { x with wasSet := true }
    return true
  let mode := if c.kind.isLogical then o.accepted? c.kind else none
  match mode with
  | some (.tristate t) =>
    updateChoice i fun x => { x with user := some t, wasSet := true }
    invalidate (.choice i)
    return true
  | _ =>
    warnRefused (.choice i) o
    return false

def unsetChoice (i : ChoiceId) : EvalM Unit := do
  let x ← choiceState i
  if x.user.isSome || x.userSelection.isSome then
    updateChoice i fun x => { x with user := none, userSelection := none }
    invalidate (.choice i)

def unsetAll : EvalM Unit := do
  let m ← read
  for i in m.uniqueDefined do
    unsetSymbol false i
  for c in m.uniqueChoices do
    unsetChoice c

end Buildsmith.Kconfig
