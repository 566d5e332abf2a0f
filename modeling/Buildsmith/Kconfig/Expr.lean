/-!
# Conditions

A condition is built from symbols and choices by negation, conjunction, disjunction and six
relations between symbols.  Symbols and choices are referred to by number.

`Expr.both` and `Expr.either` join conditions and drop the constants that do not matter.
`Expr.render` writes a condition with the parentheses that a reader needs.
-/

namespace Buildsmith.Kconfig

/-! ## Values of conditions -/

/-- A truth value with a middle. -/
inductive Tristate where
  | no
  | mod
  | yes
  deriving DecidableEq, Repr, Inhabited

namespace Tristate

def toNat : Tristate → Nat
  | no => 0
  | mod => 1
  | yes => 2

def ofNat? : Nat → Option Tristate
  | 0 => some no
  | 1 => some mod
  | 2 => some yes
  | _ => none

def letter : Tristate → String
  | no => "n"
  | mod => "m"
  | yes => "y"

def ofLetter? (s : String) : Option Tristate :=
  if s = "n" then some no else if s = "m" then some mod else if s = "y" then some yes else none

instance : LE Tristate := ⟨fun a b => a.toNat ≤ b.toNat⟩

instance : LT Tristate := ⟨fun a b => a.toNat < b.toNat⟩

instance (a b : Tristate) : Decidable (a ≤ b) :=
  inferInstanceAs (Decidable (a.toNat ≤ b.toNat))

instance (a b : Tristate) : Decidable (a < b) :=
  inferInstanceAs (Decidable (a.toNat < b.toNat))

instance : Min Tristate := ⟨fun a b => if a ≤ b then a else b⟩

instance : Max Tristate := ⟨fun a b => if a ≤ b then b else a⟩

def complement : Tristate → Tristate
  | no => yes
  | mod => mod
  | yes => no

def ofBool (b : Bool) : Tristate :=
  if b then yes else no

end Tristate

/-! ## Kinds of symbols -/

/-- The kind of values that a symbol takes. -/
inductive Kind where
  | unknown
  | bool
  | tristate
  | string
  | int
  | hex
  deriving DecidableEq, Repr, Inhabited

namespace Kind

def name : Kind → String
  | unknown => "unknown"
  | bool => "bool"
  | tristate => "tristate"
  | string => "string"
  | int => "int"
  | hex => "hex"

def isLogical : Kind → Bool
  | bool | tristate => true
  | _ => false

def isNumeric : Kind → Bool
  | int | hex => true
  | _ => false

/-- The base in which a value of this kind is read as a number; zero takes it from the value. -/
def base : Kind → Nat
  | hex => 16
  | int => 10
  | _ => 0

end Kind

/-! ## Conditions -/

/-- Symbols are numbered in the order in which they are first mentioned. -/
abbrev SymbolId := Nat

abbrev ChoiceId := Nat

abbrev EntryId := Nat

def SymbolId.no : SymbolId := 0

def SymbolId.mod : SymbolId := 1

def SymbolId.yes : SymbolId := 2

def SymbolId.modules : SymbolId := 3

/-- What a condition can refer to. -/
inductive Item where
  | symbol (i : SymbolId)
  | choice (i : ChoiceId)
  deriving DecidableEq, Repr, Inhabited

/-- Relations between two symbols. -/
inductive Relation where
  | equal
  | unequal
  | less
  | lessEqual
  | greater
  | greaterEqual
  deriving DecidableEq, Repr

def Relation.sign : Relation → String
  | equal => "="
  | unequal => "!="
  | less => "<"
  | lessEqual => "<="
  | greater => ">"
  | greaterEqual => ">="

def Relation.holds : Relation → Ordering → Bool
  | equal, o => o == .eq
  | unequal, o => o != .eq
  | less, o => o == .lt
  | lessEqual, o => o != .gt
  | greater, o => o == .gt
  | greaterEqual, o => o != .lt

/-- Conditions. -/
inductive Expr where
  | item (i : Item)
  | not (e : Expr)
  | and (a b : Expr)
  | or (a b : Expr)
  | rel (r : Relation) (a b : SymbolId)
  deriving DecidableEq, Repr, Inhabited

namespace Expr

def symbol (i : SymbolId) : Expr :=
  .item (.symbol i)

def no : Expr := symbol SymbolId.no

def yes : Expr := symbol SymbolId.yes

def both (a b : Expr) : Expr :=
  if a = yes then b
  else if b = yes then a
  else if a = no || b = no then no
  else .and a b

def either (a b : Expr) : Expr :=
  if a = no then b
  else if b = no then a
  else if a = yes || b = yes then yes
  else .or a b

def items : Expr → List Item
  | .item i => [i]
  | .not e => e.items
  | .and a b => a.items ++ b.items
  | .or a b => a.items ++ b.items
  | .rel _ a b => [.symbol a, .symbol b]

def conjuncts : Expr → List Expr
  | .and a b => a.conjuncts ++ b.conjuncts
  | e => [e]

def disjuncts : Expr → List Expr
  | .or a b => a.disjuncts ++ b.disjuncts
  | e => [e]

def isAnd : Expr → Bool
  | .and _ _ => true
  | _ => false

def isOr : Expr → Bool
  | .or _ _ => true
  | _ => false

def parenthesize (b : Bool) (s : String) : String :=
  if b then "(" ++ s ++ ")" else s

def render (name : Item → String) : Expr → String
  | .item i => name i
  | .not (.item i) => "!" ++ name i
  | .not e => "!(" ++ e.render name ++ ")"
  | .and a b =>
    parenthesize a.isOr (a.render name) ++ " && " ++ parenthesize b.isOr (b.render name)
  | .or a b =>
    parenthesize a.isAnd (a.render name) ++ " || " ++ parenthesize b.isAnd (b.render name)
  | .rel r a b => name (.symbol a) ++ " " ++ r.sign ++ " " ++ name (.symbol b)

/-- Whether a comparison with `s` is one that an entry hangs under `s` for. -/
def relationNeeds (r : Relation) (other : SymbolId) : Bool :=
  (r = .equal && other = SymbolId.mod) || other = SymbolId.yes ||
    (r = .unequal && other = SymbolId.no)

def hangsUnder (target : Item) : Expr → Bool
  | .item i => i = target
  | .rel r a b =>
    if r = .equal || r = .unequal then
      if .symbol b = target then relationNeeds r a
      else if .symbol a = target then relationNeeds r b
      else false
    else false
  | .and a b => a.hangsUnder target || b.hangsUnder target
  | _ => false

/-- Takes the dependency `dep` off the end of a condition to which it was added. -/
def stripDep (e dep : Expr) : Expr :=
  if dep = e then yes
  else
    match e with
    | .and a b => if b = dep then a else e
    | _ => e

end Expr

end Buildsmith.Kconfig
