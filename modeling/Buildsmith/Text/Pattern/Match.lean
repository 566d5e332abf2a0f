import Buildsmith.Text.Basic
import Buildsmith.Text.Printable

/-!
# Search patterns

A pattern is matched by trying its ways in order; what follows it is passed along as a
continuation, so that a later failure brings back an earlier choice.

A repetition stops behind a round that takes no character.
-/

namespace Buildsmith.Text.Pattern

/-! ## Patterns -/

/-- Named classes of characters. -/
inductive Category where
  | digit
  | blank
  | word
  deriving DecidableEq, Repr

/-- What a bracket expression can list. -/
inductive Member where
  | char (code : Nat)
  | range (low high : Nat)
  | category (c : Category) (negated : Bool)
  deriving DecidableEq, Repr

/-- Positions that match without taking a character. -/
inductive Anchor where
  | lineStart
  | lineEnd
  | textStart
  | textEnd
  | boundary
  | noBoundary
  deriving DecidableEq, Repr

/-- In which order numbers of repetitions are tried. -/
inductive Greed where
  | greedy
  | lazy
  | possessive
  deriving DecidableEq, Repr

/-- Patterns. -/
inductive Node where
  | empty
  | char (c : Char)
  | any
  | oneOf (negated : Bool) (members : List Member)
  | anchor (a : Anchor)
  | group (index : Nat) (body : Node)
  | bare (body : Node)
  /-- A part in which the letters of flags are turned on and off. -/
  | scoped (on off : List Char) (body : Node)
  | atomic (body : Node)
  /-- The text of a group again; the lengths are those that the group can have. -/
  | backReference (index least : Nat) (most : Option Nat)
  | look (ahead negated : Bool) (body : Node)
  | branch (index : Nat) (yes no : Node) (hasNo : Bool)
  | seq (a b : Node)
  | alt (a b : Node)
  | rep (least : Nat) (most : Option Nat) (greed : Greed) (body : Node)
  deriving DecidableEq, Repr, Inhabited

/-- How a pattern is read and matched. -/
structure Flags where
  /-- Classes hold ASCII characters only. -/
  ascii : Bool := false
  /-- Letters match in either case. -/
  ignoreCase : Bool := false
  /-- Anchors match at every line. -/
  multiline : Bool := false
  /-- A dot matches a line feed. -/
  dotAll : Bool := false
  /-- Blanks and comments are left out. -/
  verbose : Bool := false
  deriving DecidableEq, Repr

def Flags.turn (value : Bool) (f : Flags) (letter : Char) : Flags :=
  match letter with
  | 'i' => { f with ignoreCase := value }
  | 'm' => { f with multiline := value }
  | 's' => { f with dotAll := value }
  | 'x' => { f with verbose := value }
  | 'a' => { f with ascii := value }
  | 'u' => { f with ascii := !value }
  | _ => f

def Flags.change (f : Flags) (on off : List Char) : Flags :=
  off.foldl (Flags.turn false) (on.foldl (Flags.turn true) f)

def Category.holds (ascii : Bool) (k : Category) (c : Char) : Bool :=
  match k with
  | .digit => if ascii then c.isDigit else (decimalValue? c).isSome
  | .blank => if ascii then isAsciiBlank c else isBlank c
  | .word => if ascii then c.isAlphanum || c = '_' else isWordChar c

/-- The lengths of the texts that a pattern can match: the least, and the greatest if there is one. -/
def Node.width : Node → Nat × Option Nat
  | .empty => (0, some 0)
  | .char _ => (1, some 1)
  | .any => (1, some 1)
  | .oneOf _ _ => (1, some 1)
  | .anchor _ => (0, some 0)
  | .group _ body => body.width
  | .bare body => body.width
  | .scoped _ _ body => body.width
  | .atomic body => body.width
  | .backReference _ least most => (least, most)
  | .look _ _ _ => (0, some 0)
  | .branch _ a b hasNo =>
    let (x, y) := (a.width, b.width)
    if hasNo then (min x.1 y.1, (x.2.bind fun p => y.2.map fun q => max p q)) else (0, x.2)
  | .seq a b =>
    let (x, y) := (a.width, b.width)
    (x.1 + y.1, (x.2.bind fun p => y.2.map fun q => p + q))
  | .alt a b =>
    let (x, y) := (a.width, b.width)
    (min x.1 y.1, (x.2.bind fun p => y.2.map fun q => max p q))
  | .rep least most _ body =>
    let x := body.width
    (x.1 * least, (x.2.bind fun p => if p = 0 then some 0 else most.map fun q => p * q))

/-! ## Matching -/

abbrev Groups := List (Nat × Nat × Nat)

def groupSpan? (g : Groups) (i : Nat) : Option (Nat × Nat) :=
  (g.find? fun x => x.1 == i).map Prod.snd

abbrev Continuation := Nat → Groups → Option (Nat × Groups)

abbrev Matcher := Nat → Groups → Continuation → Option (Nat × Groups)

/-- The text that is searched, and the settings. -/
structure Subject where
  chars : Array Char
  flags : Flags

namespace Subject

def isWordAt (s : Subject) (i : Nat) : Bool :=
  match s.chars[i]? with
  | some c => Category.word.holds s.flags.ascii c
  | none => false

def holdsAt (s : Subject) (i : Nat) : Anchor → Bool
  | .lineStart =>
    i == 0 || (s.flags.multiline && i ≥ 1 && s.chars[i - 1]? == some '\n')
  | .lineEnd =>
    i == s.chars.size || (i + 1 == s.chars.size && s.chars[i]? == some '\n') ||
      (s.flags.multiline && s.chars[i]? == some '\n')
  | .textStart => i == 0
  | .textEnd => i == s.chars.size
  | .boundary => (i ≥ 1 && s.isWordAt (i - 1)) != s.isWordAt i
  | .noBoundary =>
    s.chars.size > 0 && !((i ≥ 1 && s.isWordAt (i - 1)) != s.isWordAt i)

def folded (s : Subject) (c : Char) : Char :=
  if !s.flags.ignoreCase then c else if s.flags.ascii then c.toLower else lowerLetter c

def variants (s : Subject) (c : Char) : List Char :=
  if !s.flags.ignoreCase then [c]
  else if s.flags.ascii then [c, c.toLower, c.toUpper]
  else caseVariants c

def sameChar (s : Subject) (wanted c : Char) : Bool :=
  wanted = c || (s.flags.ignoreCase && (s.variants c).contains wanted)

/-- Whether a member of a set holds for a character; a single member beyond the basic plane holds
for its own form only. -/
def holdsFor (s : Subject) (c : Char) : Member → Bool
  | .char code =>
    if code ≤ 0xFFFF then (s.variants c).any (·.toNat == code) else (s.folded c).toNat == code
  | .range low high => (s.variants c).any fun x => low ≤ x.toNat && x.toNat ≤ high
  | .category k negated => k.holds s.flags.ascii c != negated

def listed (s : Subject) (members : List Member) (c : Char) : Bool :=
  match members with
  | [.char code] => (s.variants c).any (·.toNat == code)
  | _ => members.any (s.holdsFor c)

def one (s : Subject) (p : Char → Bool) : Matcher := fun i g k =>
  match s.chars[i]? with
  | some c => if p c then k (i + 1) g else none
  | none => none

def again (s : Subject) (from_ to_ : Nat) : Matcher := fun i g k =>
  let n := to_ - from_
  let same := (List.range n).all fun d =>
    match s.chars[from_ + d]?, s.chars[i + d]? with
    | some a, some b => s.folded a = s.folded b
    | _, _ => false
  if same then k (i + n) g else none

end Subject

def allowsMore (most : Option Nat) (count : Nat) : Bool :=
  match most with
  | some m => count < m
  | none => true

/-- Repeats `body`, more rounds first; `last` is where the round before began, unless it had to
be made. -/
def repeatGreedy (body : Matcher) (least : Nat) (most : Option Nat) :
    Nat → Nat → Option Nat → Nat → Groups → Continuation → Option (Nat × Groups)
  | 0, _, _, i, g, k => k i g
  | fuel + 1, count, last, i, g, k =>
    if count < least then
      body i g fun j g' => repeatGreedy body least most fuel (count + 1) last j g' k
    else
      let more : Option (Nat × Groups) :=
        if allowsMore most count && last ≠ some i then
          body i g fun j g' => repeatGreedy body least most fuel (count + 1) (some i) j g' k
        else none
      match more with
      | some r => some r
      | none => k i g

/-- Repeats `body`, fewer rounds first; `last` is where the round before began, unless it had to be
made. -/
def repeatLazy (body : Matcher) (least : Nat) (most : Option Nat) :
    Nat → Nat → Option Nat → Nat → Groups → Continuation → Option (Nat × Groups)
  | 0, _, _, i, g, k => k i g
  | fuel + 1, count, last, i, g, k =>
    if count < least then
      body i g fun j g' => repeatLazy body least most fuel (count + 1) last j g' k
    else
      match k i g with
      | some r => some r
      | none =>
        if allowsMore most count && last ≠ some i then
          body i g fun j g' => repeatLazy body least most fuel (count + 1) (some i) j g' k
        else none

def Node.run (s : Subject) : Node → Matcher
  | .empty => fun i g k => k i g
  | .char c => s.one (s.sameChar c)
  | .any => s.one fun c => s.flags.dotAll || c ≠ '\n'
  | .oneOf negated members => s.one fun c => s.listed members c != negated
  | .anchor a => fun i g k => if s.holdsAt i a then k i g else none
  | .group index body => fun i g k =>
    body.run s i g fun j g' => k j ((index, i, j) :: g'.filter fun x => x.1 != index)
  | .bare body => body.run s
  | .scoped on off body => body.run { s with flags := s.flags.change on off }
  | .atomic body => fun i g k =>
    match body.run s i g fun j g' => some (j, g') with
    | some (j, g') => k j g'
    | none => none
  | .backReference index _ _ => fun i g k =>
    match groupSpan? g index with
    | some (a, b) => s.again a b i g k
    | none => none
  | .look true negated body => fun i g k =>
    match body.run s i g fun j g' => some (j, g') with
    | some (_, g') => if negated then none else k i g'
    | none => if negated then k i g else none
  | .look false negated body => fun i g k =>
    let w := body.width.1
    let found :=
      if w ≤ i then body.run s (i - w) g fun j g' => if j = i then some (j, g') else none
      else none
    match found with
    | some (_, g') => if negated then none else k i g'
    | none => if negated then k i g else none
  | .branch index yes no _ => fun i g k =>
    match groupSpan? g index with
    | some _ => yes.run s i g k
    | none => no.run s i g k
  | .seq a b => fun i g k => a.run s i g fun j g' => b.run s j g' k
  | .alt a b => fun i g k =>
    match a.run s i g k with
    | some r => some r
    | none => b.run s i g k
  | .rep least most .greedy body => fun i g k =>
    repeatGreedy (body.run s) least most (s.chars.size + least + 2) 0 none i g k
  | .rep least most .lazy body => fun i g k =>
    repeatLazy (body.run s) least most (s.chars.size + least + 2) 0 none i g k
  | .rep least most .possessive body => fun i g k =>
    match repeatGreedy (body.run s) least most (s.chars.size + least + 2) 0 none i g
        fun j g' => some (j, g') with
    | some (j, g') => k j g'
    | none => none

/-- A match: where it begins and ends, and its groups. -/
structure Found where
  start : Nat
  stop : Nat
  groups : Groups

def matchAt? (flags : Flags) (n : Node) (s : String) (i : Nat) : Option Found :=
  let subject : Subject := ⟨s.toList.toArray, flags⟩
  (n.run subject i [] fun j g => some (j, g)).map fun (j, g) => ⟨i, j, g⟩

def search? (flags : Flags) (n : Node) (s : String) (from_ : Nat) : Option Found :=
  let subject : Subject := ⟨s.toList.toArray, flags⟩
  (List.range (subject.chars.size + 1 - from_)).findSome? fun d =>
    (n.run subject (from_ + d) [] fun j g => some (j, g)).map fun (j, g) => ⟨from_ + d, j, g⟩

def Found.text? (f : Found) (s : String) (i : Nat) : Option String :=
  (groupSpan? f.groups i).map fun (a, b) => String.ofList ((s.toList.take b).drop a)

end Buildsmith.Text.Pattern
