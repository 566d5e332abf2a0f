import Buildsmith.Kconfig.Expr
import Buildsmith.Kconfig.Fault

/-!
# The configuration model

The model holds what the description files define: symbols, choices and menu entries, each in a
table of its own, and the menu tree over the entries.

Values that a user assigns, and values computed from them, are no part of it.
-/

namespace Buildsmith.Kconfig

/-- A symbol; properties are gathered from all its definitions. -/
structure Symbol where
  name : String
  isConstant : Bool := false
  kind : Kind := .unknown
  entries : List EntryId := []
  defaults : List (Expr × Expr) := []
  selects : List (SymbolId × Expr) := []
  implies : List (SymbolId × Expr) := []
  ranges : List (SymbolId × SymbolId × Expr) := []
  directDep : Expr := .no
  reverseDep : Expr := .no
  weakReverseDep : Expr := .no
  choice : Option ChoiceId := none
  envVar : Option String := none
  isAllnoconfigY : Bool := false
  deriving Inhabited

/-- A choice between symbols. -/
structure Choice where
  name : Option String := none
  kind : Kind := .unknown
  entries : List EntryId := []
  symbols : List SymbolId := []
  defaults : List (Expr × Expr) := []
  directDep : Expr := .no
  isOptional : Bool := false
  deriving Inhabited

/-- What a menu entry stands for. -/
inductive Subject where
  | symbol (i : SymbolId)
  | choice (i : ChoiceId)
  | menu
  | comment
  deriving DecidableEq, Repr, Inhabited

def Subject.item? : Subject → Option Item
  | symbol i => some (.symbol i)
  | choice i => some (.choice i)
  | _ => none

def Subject.symbol? : Subject → Option SymbolId
  | symbol i => some i
  | _ => none

/-- A menu entry: one place where a symbol, choice, menu or comment is defined. -/
structure Entry where
  subject : Subject
  isMenuconfig : Bool := false
  prompt : Option (String × Expr) := none
  help : Option String := none
  dep : Expr := .yes
  visibility : Expr := .yes
  defaults : List (Expr × Expr) := []
  selects : List (SymbolId × Expr) := []
  implies : List (SymbolId × Expr) := []
  ranges : List (SymbolId × SymbolId × Expr) := []
  file : String
  line : Nat
  includePath : List (String × Nat) := []
  deriving Inhabited

/-- The menu as it is written: entries, and blocks that share a condition. -/
inductive Outline where
  | entry (id : EntryId) (children : List Outline)
  | block (cond : Expr) (children : List Outline)
  deriving Inhabited

/-- The menu as it is shown. -/
inductive Menu where
  | entry (id : EntryId) (children : List Menu)
  deriving Inhabited

/-- All that the description files define. -/
structure Model where
  symbols : Array Symbol := #[]
  choices : Array Choice := #[]
  entries : Array Entry := #[]
  menu : List Menu := []
  children : Array (List EntryId) := #[]
  parents : Array (Option EntryId) := #[]
  defined : List SymbolId := []
  choiceUses : List ChoiceId := []
  uniqueDefined : List SymbolId := []
  uniqueChoices : List ChoiceId := []
  defconfigList : Option Subject := none
  symbolDependents : Array (List Item) := #[]
  choiceDependents : Array (List Item) := #[]
  deriving Inhabited

namespace Model

def symbol (m : Model) (i : SymbolId) : Symbol :=
  m.symbols.getD i { name := "" }

def choice (m : Model) (i : ChoiceId) : Choice :=
  m.choices.getD i {}

def entry (m : Model) (i : EntryId) : Entry :=
  m.entries.getD i { subject := .comment, file := "", line := 0 }

def top : EntryId := 0

def childrenOf (m : Model) (i : EntryId) : List EntryId :=
  m.children.getD i []

def parentOf (m : Model) (i : EntryId) : Option EntryId :=
  m.parents.getD i none

def modifySymbol (m : Model) (i : SymbolId) (f : Symbol → Symbol) : Model :=
  { m with symbols := m.symbols.modify i f }

def modifyChoice (m : Model) (i : ChoiceId) (f : Choice → Choice) : Model :=
  { m with choices := m.choices.modify i f }

def modifyEntry (m : Model) (i : EntryId) (f : Entry → Entry) : Model :=
  { m with entries := m.entries.modify i f }

/-- The number of the symbol with a name; quoted constants have a name space of their own. -/
def findSymbol? (m : Model) (isConstant : Bool) (name : String) : Option SymbolId :=
  m.symbols.findIdx? fun s => s.isConstant == isConstant && s.name == name

def findChoice? (m : Model) (name : String) : Option ChoiceId :=
  m.choices.findIdx? fun c => c.name == some name

def entriesOf (m : Model) : Item → List EntryId
  | .symbol i => (m.symbol i).entries
  | .choice i => (m.choice i).entries

def dependentsOf (m : Model) : Item → List Item
  | .symbol i => m.symbolDependents.getD i []
  | .choice i => m.choiceDependents.getD i []

def kindOf (m : Model) : Item → Kind
  | .symbol i => (m.symbol i).kind
  | .choice i => (m.choice i).kind

/-- Constant symbols that every model has, before the symbol for modules. -/
def initial : Model :=
  { symbols :=
      #[{ name := "n", isConstant := true, kind := .tristate },
        { name := "m", isConstant := true, kind := .tristate },
        { name := "y", isConstant := true, kind := .tristate },
        { name := "MODULES" }] }

def nextSibling? (m : Model) (i : EntryId) : Option EntryId :=
  (m.parentOf i).bind fun p => ((m.childrenOf p).dropWhile (· ≠ i)).tail.head?

/-- The entry that is met when all below an entry has been met: the one behind it, or behind the
nearest entry above it that has one.  The first argument bounds the number of levels. -/
def nextBehind? (m : Model) : Nat → EntryId → Option EntryId
  | 0, _ => none
  | fuel + 1, i =>
    match m.nextSibling? i with
    | some k => some k
    | none =>
      match m.parentOf i with
      | some p => m.nextBehind? fuel p
      | none => none

def nextEntry? (m : Model) (i : EntryId) : Option EntryId :=
  match (m.childrenOf i).head? with
  | some k => some k
  | none => m.nextBehind? m.entries.size i

def entriesAfter (m : Model) : Nat → EntryId → List EntryId
  | 0, _ => []
  | fuel + 1, i =>
    match m.nextEntry? i with
    | some k => k :: m.entriesAfter fuel k
    | none => []

def allEntries (m : Model) : List EntryId :=
  m.entriesAfter m.entries.size top

end Model

/-!
## Values

Beside the model stand the values that a user has assigned, and those that have been computed and
not been invalidated since.  Computing a value may give warnings; a value that is still known gives
none.
-/

/-- A value that a user assigns to a symbol. -/
inductive UserValue where
  | tristate (t : Tristate)
  | text (s : String)
  deriving DecidableEq, Repr

/-- What is assigned to and known of a symbol. -/
structure SymbolState where
  user : Option UserValue := none
  wasSet : Bool := false
  text : Option String := none
  tristate : Option Tristate := none
  visibility : Option Tristate := none
  assignable : Option (List Tristate) := none
  /-- Whether the symbol appears in configuration files; known together with its value. -/
  isWritten : Bool := false
  /-- The value that a previous build saw. -/
  oldText : Option String := none
  deriving Inhabited

/-- What is assigned to and known of a choice. -/
structure ChoiceState where
  user : Option Tristate := none
  userSelection : Option SymbolId := none
  wasSet : Bool := false
  visibility : Option Tristate := none
  assignable : Option (List Tristate) := none
  selection : Option (Option SymbolId) := none
  deriving Inhabited

/-- The states of all symbols and choices, and the warnings given so far. -/
structure Values where
  symbols : Array SymbolState := #[]
  choices : Array ChoiceState := #[]
  warnings : List String := []
  deriving Inhabited

namespace Values

def initial (m : Model) : Values :=
  let known (i : SymbolId) (t : Tristate) (a : Array SymbolState) : Array SymbolState :=
    a.modify i fun s => { s with tristate := some t }
  { symbols :=
      known SymbolId.no .no (known SymbolId.mod .mod (known SymbolId.yes .yes
        (Array.replicate m.symbols.size {})))
    choices := Array.replicate m.choices.size {} }

def symbol (v : Values) (i : SymbolId) : SymbolState :=
  v.symbols.getD i {}

def choice (v : Values) (i : ChoiceId) : ChoiceState :=
  v.choices.getD i {}

def modifySymbol (v : Values) (i : SymbolId) (f : SymbolState → SymbolState) : Values :=
  { v with symbols := v.symbols.modify i f }

def modifyChoice (v : Values) (i : ChoiceId) (f : ChoiceState → ChoiceState) : Values :=
  { v with choices := v.choices.modify i f }

def forget (v : Values) : Item → Values
  | .symbol i => v.modifySymbol i fun s =>
    { s with text := none, tristate := none, visibility := none, assignable := none }
  | .choice i => v.modifyChoice i fun c =>
    { c with visibility := none, assignable := none, selection := none }

def isKnown (v : Values) : Item → Bool
  | .symbol i => (v.symbol i).visibility.isSome
  | .choice i => (v.choice i).visibility.isSome

def forgetAll (m : Model) (v : Values) : Values :=
  let v := m.uniqueDefined.foldl (fun v i => v.forget (.symbol i)) v
  m.uniqueChoices.foldl (fun v i => v.forget (.choice i)) v

/-- Forgets an item and all known items that may depend on it; `fuel` bounds the chains. -/
def invalidateFrom (m : Model) : Nat → Values → Item → Values
  | 0, v, _ => v
  | fuel + 1, v, item =>
    if item = .symbol SymbolId.modules then v.forgetAll m
    else
      (m.dependentsOf item).foldl
        (fun v d => if v.isKnown d then invalidateFrom m fuel v d else v) (v.forget item)

def invalidate (m : Model) (v : Values) (item : Item) : Values :=
  invalidateFrom m (m.symbols.size + m.choices.size + 2) v item

end Values

abbrev EvalM := ReaderT Model (ExceptT Fault (StateM Values))

def evalWarn (text : String) : EvalM Unit :=
  modify fun v => { v with warnings := v.warnings ++ [text] }

def symbolState (i : SymbolId) : EvalM SymbolState := do
  return (← get).symbol i

def choiceState (i : ChoiceId) : EvalM ChoiceState := do
  return (← get).choice i

def updateSymbol (i : SymbolId) (f : SymbolState → SymbolState) : EvalM Unit :=
  modify (·.modifySymbol i f)

def updateChoice (i : ChoiceId) (f : ChoiceState → ChoiceState) : EvalM Unit :=
  modify (·.modifyChoice i f)

end Buildsmith.Kconfig
