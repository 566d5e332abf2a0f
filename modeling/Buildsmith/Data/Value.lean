import Buildsmith.Text.Basic
import Buildsmith.Text.Literal

/-!
# Values

A value is a piece of structured data: a text, a number, a truth value, a list, or a record whose
fields have an order.  Records come from outside, so nothing is known about their shape: every
access can fail, and says how.
-/

namespace Buildsmith.Data

open Text.Integer String

/-!
## Numbers of 64 bits

A fraction is kept as a whole number below `2 ^ 53` times a power of two.  Reading a decimal takes
the nearest such number, and a half goes to the even neighbour.

Writing takes the fewest digits that read back, and of several the nearest.  All arithmetic is
exact.
-/

/-- A number of 64 bits: a whole number times a power of two, an infinity, or no number at all. -/
inductive Binary64 where
  | finite (isNegative : Bool) (mantissa : Nat) (exponent : Int)
  | infinite (isNegative : Bool)
  | undefined
  deriving DecidableEq, Repr

namespace Binary64

def leastExponent : Int := -1074

def largestExponent : Int := 971

/-- The quotient to the nearest whole number; a half goes to the even neighbour. -/
def nearest (a b : Nat) : Nat :=
  let q := a / b
  let twice := 2 * (a % b)
  if twice > b || (twice = b && q % 2 = 1) then q + 1 else q

def scale (base : Nat) (e : Int) (a b : Nat) : Nat × Nat :=
  if e < 0 then (a, b * base.pow e.natAbs) else (a * base.pow e.natAbs, b)

def ofQuotient (isNegative : Bool) (a b : Nat) : Binary64 :=
  let guess : Int := a.log2 - b.log2 - 52
  let (x, y) := scale 2 (-guess) a b
  let e := max leastExponent (if x < Nat.pow 2 52 * y then guess - 1 else guess)
  let (x, y) := scale 2 (-e) a b
  let m := nearest x y
  let (m, e) := if m = Nat.pow 2 53 then (Nat.pow 2 52, e + 1) else (m, e)
  if e > largestExponent then infinite isNegative else finite isNegative m e

def ofDecimal (isNegative : Bool) (digits : Nat) (exponent : Int) : Binary64 :=
  let size := (Nat.toDigits 10 digits).length + exponent
  if digits = 0 || size < -330 then finite isNegative 0 leastExponent
  else if size > 310 then infinite isNegative
  else
    let (a, b) := scale 10 exponent digits 1
    ofQuotient isNegative a b

def isZero : Binary64 → Bool
  | finite _ m _ => m = 0
  | _ => false

def same (x y : Binary64) : Bool := x = y || (x.isZero && y.isZero)

def sameInt (x : Binary64) (n : Int) : Bool :=
  match x with
  | finite isNegative m e =>
    let (a, b) := scale 2 e m 1
    (if isNegative then -(a : Int) else a) = n * b
  | _ => false

/-- The decimal on the grid of a power of ten that reads back as a number, the nearest of two. -/
def onGrid? (m : Nat) (e p : Int) : Option Nat :=
  let inGrid (quarters : Nat) : Nat × Nat :=
    let (a, b) := scale 2 (e - 2) quarters 1
    scale 10 (-p) a b
  let (a, b) := inGrid (4 * m)
  let (low, _) := inGrid (if m = Nat.pow 2 52 && e > leastExponent then 4 * m - 1 else 4 * m - 2)
  let (high, _) := inGrid (4 * m + 2)
  let isClosed := m % 2 = 0
  let readsBack (c : Nat) : Bool :=
    if isClosed then low ≤ c * b && c * b ≤ high else low < c * b && c * b < high
  let below := a / b
  match readsBack below, readsBack (below + 1) with
  | true, true => some (nearest a b)
  | true, false => some below
  | false, true => some (below + 1)
  | false, false => none

def shortestFrom (m : Nat) (e : Int) : Nat → Int → Nat × Int
  | 0, p => (m, p)
  | fuel + 1, p =>
    match onGrid? m e p with
    | some digits => (digits, p)
    | none => shortestFrom m e fuel (p - 1)

/-- The fewest digits that read back, and the power of ten of the last of them. -/
def shortest (m : Nat) (e : Int) : Nat × Int :=
  if m = 0 then (0, 0) else shortestFrom m e 680 309

/-- Digits with a point: positional from a ten-thousandth up to `10 ^ 16`, else with an exponent. -/
def decimalText (digits : Nat) (p : Int) : String :=
  let ds := Nat.toDigits 10 digits
  let point := ds.length + p
  if -4 < point && point ≤ 16 then
    if 0 ≤ p then ofList ds ++ Text.repeated p.toNat "0" ++ ".0"
    else if 0 < point then
      ofList (ds.take point.toNat) ++ "." ++ ofList (ds.drop point.toNat)
    else "0." ++ Text.repeated point.natAbs "0" ++ ofList ds
  else
    let e := point - 1
    let body := match ds with
      | [] => ""
      | [d] => ofList [d]
      | d :: rest => ofList (d :: '.' :: rest)
    body ++ (if e < 0 then "e-" else "e+") ++ (if e.natAbs < 10 then "0" else "") ++
      natText e.natAbs

def text (infinity noNumber : String) : Binary64 → String
  | finite isNegative m e =>
    let (digits, p) := shortest m e
    (if isNegative then "-" else "") ++ decimalText digits p
  | infinite isNegative => (if isNegative then "-" else "") ++ infinity
  | undefined => noNumber

end Binary64

/-! ## Values -/

/-- A piece of structured data. -/
inductive Value where
  | null
  | flag (b : Bool)
  | number (n : Int)
  | real (x : Binary64)
  | text (s : String)
  | list (items : List Value)
  | record (fields : List (String × Value))
  deriving Inhabited, Repr

/-- Why data is not as it should be. -/
inductive Fault where
  /-- A record lacks a field. -/
  | missing (key : String)
  /-- A record has no numbered fields. -/
  | missingAt (position : Nat)
  /-- A position lies outside a text. -/
  | textRange
  /-- A position lies outside a list. -/
  | listRange
  /-- A text does not hold another. -/
  | noSubstring
  /-- A list does not hold a text. -/
  | notListed (word : String)
  /-- Something has too few parts. -/
  | tooFew (expected got : Nat)
  /-- Something has too many parts. -/
  | tooMany (expected : Nat)
  /-- A value is of a kind that cannot be used in this way. -/
  | unsuited (text : String)
  /-- The kind of a value lacks an operation. -/
  | unsupported (kind operation : String)
  /-- The data breaks a rule. -/
  | rejected (text : String)
  deriving DecidableEq, Repr

def Fault.message : Fault → String
  | missing key => Text.Literal.render key
  | missingAt n => natText n
  | textRange => "string index out of range"
  | listRange => "list index out of range"
  | noSubstring => "substring not found"
  | notListed word => Text.Literal.render word ++ " is not in list"
  | tooFew expected got =>
    "not enough values to unpack (expected " ++ natText expected ++ ", got " ++
      natText got ++ ")"
  | tooMany expected =>
    "too many values to unpack (expected " ++ natText expected ++ ")"
  | unsuited text => text
  | unsupported kind operation => "'" ++ kind ++ "' object has no attribute '" ++ operation ++ "'"
  | rejected text => text

abbrev Fields := List (String × Value)

namespace Fields

def get? (fs : Fields) (key : String) : Option Value :=
  (fs.find? fun f => f.1 == key).map Prod.snd

def has (fs : Fields) (key : String) : Bool :=
  fs.any fun f => f.1 == key

def put (key : String) (value : Value) : Fields → Fields
  | [] => [(key, value)]
  | (k, v) :: rest => if k == key then (k, value) :: rest else (k, v) :: put key value rest

def erase (fs : Fields) (key : String) : Fields :=
  fs.filter fun f => f.1 != key

def putAll (fs more : Fields) : Fields :=
  more.foldl (fun fs f => put f.1 f.2 fs) fs

end Fields

namespace Value

def kindName : Value → String
  | null => "NoneType"
  | flag _ => "bool"
  | number _ => "int"
  | real _ => "float"
  | text _ => "str"
  | list _ => "list"
  | record _ => "dict"

def isTruthy : Value → Bool
  | null => false
  | flag b => b
  | number n => n != 0
  | real x => !x.isZero
  | text s => !s.isEmpty
  | list items => !items.isEmpty
  | record fields => !fields.isEmpty

def text? : Value → Option String
  | text s => some s
  | _ => none

def field (v : Value) (key : String) : Except Fault Value :=
  match v with
  | record fs =>
    match Fields.get? fs key with
    | some x => .ok x
    | none => .error (.missing key)
  | text _ => .error (.unsuited "string indices must be integers, not 'str'")
  | list _ => .error (.unsuited "list indices must be integers or slices, not str")
  | v => .error (.unsuited ("'" ++ v.kindName ++ "' object is not subscriptable"))

def item (v : Value) (i : Nat) : Except Fault Value :=
  match v with
  | list xs =>
    match xs[i]? with
    | some x => .ok x
    | none => .error .listRange
  | text s =>
    match s.toList[i]? with
    | some c => .ok (text (ofList [c]))
    | none => .error .textRange
  | record _ => .error (.missingAt i)
  | v => .error (.unsuited ("'" ++ v.kindName ++ "' object is not subscriptable"))

def fieldOr (v : Value) (key : String) (default : Value) : Except Fault Value :=
  match v with
  | record fs => .ok ((Fields.get? fs key).getD default)
  | v => .error (.unsupported v.kindName "get")

def fields (v : Value) : Except Fault Fields :=
  match v with
  | record fs => .ok fs
  | v => .error (.unsupported v.kindName "items")

def elements (v : Value) : Except Fault (List Value) :=
  match v with
  | list xs => .ok xs
  | record fs => .ok (fs.map fun f => text f.1)
  | text s => .ok (s.toList.map fun c => text (ofList [c]))
  | v => .error (.unsuited ("'" ++ v.kindName ++ "' object is not iterable"))

def size (v : Value) : Except Fault Nat :=
  match v with
  | list xs => .ok xs.length
  | record fs => .ok fs.length
  | text s => .ok s.length
  | v => .error (.unsuited ("object of type '" ++ v.kindName ++ "' has no len()"))

def textFor (operation : String) (v : Value) : Except Fault String :=
  match v with
  | text s => .ok s
  | v => .error (.unsupported v.kindName operation)

/-- Whether a value holds a text: as a field, as an element or as a part. -/
def holds (v : Value) (key : String) : Except Fault Bool :=
  match v with
  | record fs => .ok (Fields.has fs key)
  | list xs => .ok (xs.any fun x => x.text? == some key)
  | text s => .ok (Text.contains s key)
  | v => .error (.unsuited ("argument of type '" ++ v.kindName ++ "' is not iterable"))

def withField (v : Value) (key : String) (value : Value) : Except Fault Value :=
  match v with
  | record fs => .ok (record (Fields.put key value fs))
  | list _ => .error (.unsuited "list indices must be integers or slices, not str")
  | v => .error (.unsuited ("'" ++ v.kindName ++ "' object does not support item assignment"))

def append (v : Value) (s : String) : Except Fault String :=
  match v with
  | text t => .ok (t ++ s)
  | list _ => .error (.unsuited "can only concatenate list (not \"str\") to list")
  | v =>
    .error (.unsuited ("unsupported operand type(s) for +: '" ++ v.kindName ++ "' and 'str'"))

def join (separator : String) (vs : List Value) : Except Fault String := do
  let rec texts : Nat → List Value → Except Fault (List String)
    | _, [] => .ok []
    | n, v :: rest =>
      match v with
      | text s => do return s :: (← texts (n + 1) rest)
      | v => .error (.unsuited ("sequence item " ++ natText n ++
          ": expected str instance, " ++ v.kindName ++ " found"))
  return intercalate separator (← texts 0 vs)

end Value

mutual

/-- Whether two values are the same; a truth value is the same as the number that stands for it. -/
def Value.same : Value → Value → Bool
  | .null, .null => true
  | .flag a, .flag b => a == b
  | .flag a, .number n => n == if a then 1 else 0
  | .number n, .flag b => n == if b then 1 else 0
  | .number n, .number m => n == m
  | .real x, .real y => x.same y
  | .real x, .number n => x.sameInt n
  | .number n, .real x => x.sameInt n
  | .real x, .flag b => x.sameInt (if b then 1 else 0)
  | .flag b, .real x => x.sameInt (if b then 1 else 0)
  | .text s, .text t => s == t
  | .list xs, .list ys => sameItems xs ys
  | .record fs, .record gs => sameFields fs gs
  | _, _ => false

def sameItems : List Value → List Value → Bool
  | [], [] => true
  | x :: xs, y :: ys => x.same y && sameItems xs ys
  | _, _ => false

def sameFields : List (String × Value) → List (String × Value) → Bool
  | [], [] => true
  | (k, v) :: fs, (l, w) :: gs => k == l && v.same w && sameFields fs gs
  | _, _ => false

end

instance : BEq Value := ⟨Value.same⟩

def unpack (expected : Nat) (v : Value) : Except Fault (List Value) :=
  match v with
  | .null | .flag _ | .number _ | .real _ =>
    .error (.unsuited ("cannot unpack non-iterable " ++ v.kindName ++ " object"))
  | v => do
    let xs ← v.elements
    if xs.length < expected then .error (.tooFew expected xs.length)
    else if xs.length > expected then .error (.tooMany expected)
    else .ok xs

mutual

def Value.literal : Value → String
  | .null => "None"
  | .flag b => if b then "True" else "False"
  | .number n => text n
  | .real x => x.text "inf" "nan"
  | .text s => Text.Literal.render s
  | .list items => "[" ++ intercalate ", " (literals items) ++ "]"
  | .record fields => "\x7b" ++ intercalate ", " (fieldLiterals fields) ++ "\x7d"

def literals : List Value → List String
  | [] => []
  | v :: rest => v.literal :: literals rest

def fieldLiterals : List (String × Value) → List String
  | [] => []
  | (k, v) :: rest => (Text.Literal.render k ++ ": " ++ v.literal) :: fieldLiterals rest

end

def Value.display : Value → String
  | .text s => s
  | v => v.literal

end Buildsmith.Data
