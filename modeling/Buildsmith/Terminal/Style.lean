import Buildsmith.Terminal.Window

/-!
# Styles

A style says with which colours and attributes the parts of a display are drawn.  It is written as
words: a word with an equals sign assigns to a part, either a definition or the style of another
part; any other word names a template, which stands for the assignments in it.

What cannot be understood is left out with a warning.
-/

namespace Buildsmith.Terminal

open Text

/-!
## Colours

The first sixteen colours are the user's.  Behind them come a cube of six by six by six colours and
a scale of grays.
-/

/-- The parts of a colour: red, green and blue. -/
structure Rgb where
  red : Int
  green : Int
  blue : Int
  deriving DecidableEq, Repr

namespace Rgb

def map (f : Int → Int) (c : Rgb) : Rgb :=
  ⟨f c.red, f c.green, f c.blue⟩

def distance (a b : Rgb) : Int :=
  let square (x : Int) : Int := x * x
  square (a.red - b.red) + square (a.green - b.green) + square (a.blue - b.blue)

end Rgb

/-- The integer nearest to a quotient with a positive divisor; a half goes to the even neighbour. -/
def roundQuotient (n d : Int) : Int :=
  let q := n.fdiv d
  let r := n.fmod d
  if 2 * r < d then q else if 2 * r > d then q + 1 else if q % 2 = 0 then q else q + 1

def roundFloat (x : Float) : Int :=
  let low := x.floor
  let part := x - low
  let whole := if low < 0 then -((-low).toUInt64.toNat : Int) else (low.toUInt64.toNat : Int)
  if part < 0.5 then whole
  else if part > 0.5 then whole + 1
  else if whole % 2 = 0 then whole else whole + 1

def cubeOfRgb (c : Rgb) : Rgb :=
  c.map fun x => if x < 48 then 0 else max 1 (roundQuotient (x - 55) 40)

def rgbOfCube (c : Rgb) : Rgb :=
  c.map fun x => if x = 0 then 0 else 40 * x + 55

def grayOfRgb (c : Rgb) : Int :=
  let luma : Float :=
    0.299 * Float.ofInt c.red + 0.587 * Float.ofInt c.green + 0.114 * Float.ofInt c.blue
  max 0 (min (roundFloat ((luma - 8) / 10)) 23)

def rgbOfGray (i : Int) : Rgb :=
  ⟨10 * i + 8, 10 * i + 8, 10 * i + 8⟩

/-- The colours of a terminal, and what was made of them. -/
structure Palette where
  /-- The number of colours; none at all is no support for colours. -/
  colors : Nat := 8
  /-- Whether colours can be defined. -/
  canChange : Bool := false
  /-- The colours that were defined, with their numbers. -/
  defined : List (Rgb × Int) := []
  /-- The pairs of foreground and background that were made, in order. -/
  pairs : List (Int × Int) := []
  deriving Inhabited

namespace Palette

def hasColors (p : Palette) : Bool := p.colors > 0

def define (p : Palette) (c : Rgb) : Palette × Option Int :=
  match p.defined.find? fun d => d.1 = c with
  | some (_, i) => (p, some i)
  | none =>
    let i : Int := 16 + p.defined.length
    if i ≥ 256 then (p, none) else ({ p with defined := p.defined ++ [(c, i)] }, some i)

def thousandths (c : Rgb) : Rgb :=
  c.map fun x => roundQuotient (1000 * x) 255

def content (i : Nat) : Rgb :=
  let part (k : Nat) : Int := (if i.testBit k then 680 else 0) + (if i ≥ 8 then 320 else 0)
  ⟨part 0, part 1, part 2⟩

def nearest (p : Palette) (c : Rgb) : Int :=
  let step (best : Option (Int × Nat)) (i : Nat) : Option (Int × Nat) :=
    let d := c.distance ((content i).map fun x => roundQuotient (255 * x) 1000)
    match best with
    | some (least, _) => if d < least then some (d, i) else best
    | none => some (d, i)
  match (List.range p.colors).foldl step none with
  | some (_, i) => i
  | none => -1

def pair (p : Palette) (fg bg : Int) : Palette × Nat :=
  match p.pairs.findIdx? fun x => x = (fg, bg) with
  | some i => (p, i + 1)
  | none => ({ p with pairs := p.pairs ++ [(fg, bg)] }, p.pairs.length + 1)

end Palette

/-! ## Styles -/

/-- The styles of the parts of a display, and the colours made for them. -/
structure Styles where
  palette : Palette := {}
  parts : List (String × Attr) := []
  warnings : List String := []
  deriving Inhabited

abbrev StyleM := StateM Styles

namespace Style

def templates : List (String × String) :=
  [("default",
      "path=fg:black,bg:white,bold
       separator=fg:black,bg:yellow,bold
       list=fg:black,bg:white
       selection=fg:white,bg:blue,bold
       inv-list=fg:red,bg:white
       inv-selection=fg:red,bg:blue
       help=path
       show-help=list
       frame=fg:black,bg:yellow,bold
       body=fg:white,bg:black
       edit=fg:white,bg:blue
       jump-edit=edit
       text=list"),
    ("monochrome",
      "path=bold
       separator=bold,standout
       list=
       selection=bold,standout
       inv-list=bold
       inv-selection=bold,standout
       help=bold
       show-help=
       frame=bold,standout
       body=
       edit=standout
       jump-edit=
       text="),
    ("aquatic",
      "path=fg:cyan,bg:blue,bold
       separator=fg:white,bg:cyan,bold
       help=path
       frame=fg:white,bg:cyan,bold
       body=fg:brightwhite,bg:blue
       edit=fg:black,bg:white")]

def colorNumber? (name : String) : Option Int :=
  let basic := ["black", "red", "green", "yellow", "blue", "magenta", "cyan", "white"]
  let plain (s : String) : Option Int :=
    if s = "purple" then some 5 else (basic.findIdx? (· = s)).map fun (i : Nat) => (i : Int)
  match plain name with
  | some i => some i
  | none =>
    if startsWith name "bright" then (plain (dropFirst 6 name)).map (· + 8) else none

def warn (words : List String) : StyleM Unit :=
  modify fun s => { s with warnings := s.warnings ++ [String.intercalate " " words] }

def defineColor (c : Rgb) : StyleM Int := do
  let (p, i) := (← get).palette.define c
  modify fun s => { s with palette := p }
  match i with
  | some i => return i
  | none =>
    let part := Text.Integer.text
    warn ["Unable to allocate new RGB color ",
      "(" ++ part c.red ++ ", " ++ part c.green ++ ", " ++ part c.blue ++ ")",
      ". Too many colors allocated."]
    return 0

def colorOfNumber (n : Int) : StyleM Int := do
  let p := (← get).palette
  if n < 16 || n > 255 || !p.canChange || p.colors < 256 then return n
  else if n < 232 then
    let k := n - 16
    defineColor (rgbOfCube ⟨k / 36 % 6, k / 6 % 6, k % 6⟩)
  else defineColor (rgbOfGray (n - 232))

def colorOfRgb (c : Rgb) : StyleM Int := do
  let p := (← get).palette
  if p.colors ≥ 256 then
    if p.canChange then defineColor c
    else
      let cube := cubeOfRgb c
      let gray := grayOfRgb c
      if c.distance (rgbOfCube cube) < c.distance (rgbOfGray gray) then
        return 16 + 36 * cube.red + 6 * cube.green + cube.blue
      else return 232 + gray
  else return p.nearest c

def hexDigit? (c : Char) : Option Int :=
  if c.toNat < 128 then
    ((digitValue? c).filter fun d => d < 16).map fun (d : Nat) => (d : Int)
  else none

def htmlColor? (s : String) : Option Rgb :=
  match s.toList with
  | '#' :: rest =>
    let digits := (rest.take 6).map hexDigit?
    match digits with
    | [some a, some b, some c, some d, some e, some f] =>
      some ⟨16 * a + b, 16 * c + d, 16 * e + f⟩
    | _ => none
  | _ => none

def readColor (s : String) : StyleM Int := do
  match colorNumber? s with
  | some n => colorOfNumber n
  | none =>
    match htmlColor? s with
    | some c => colorOfRgb c
    | none =>
      match Text.Integer.parse? 0 s with
      | none =>
        warn ["Ignoring color ", s, "that's neither predefined nor a number"]
        return -1
      | some n =>
        let i ← colorOfNumber n
        let colors : Int := (← get).palette.colors
        if -1 ≤ i && i < colors then return i
        else
          warn ["Ignoring color " ++ s ++
            ", which is outside the range -1..curses.COLORS-1 (-1.." ++
            Text.Integer.text (colors - 1) ++ ")"]
          return -1

/-- A style while its fields are read. -/
structure Fields where
  fg : Int := -1
  bg : Int := -1
  attrs : Attr := 0

def readField (f : Fields) (field : String) : StyleM Fields := do
  if startsWith field "fg:" then return { f with fg := ← readColor (dropFirst 3 field) }
  if startsWith field "bg:" then return { f with bg := ← readColor (dropFirst 3 field) }
  if field = "bold" then return { f with attrs := f.attrs ||| Attr.bold }
  if field = "standout" then return { f with attrs := f.attrs ||| Attr.standout }
  if field = "underline" then return { f with attrs := f.attrs ||| Attr.underline }
  warn ["Ignoring unknown style attribute", field]
  return f

def attrOf (f : Fields) : StyleM Attr := do
  let p := (← get).palette
  if p.hasColors then
    let (p, n) := p.pair f.fg f.bg
    modify fun s => { s with palette := p }
    return Attr.pair n ||| f.attrs
  else return f.attrs

def readDefinition (s : String) : StyleM Attr := do
  let fields := if s.isEmpty then [] else splitOn s ","
  attrOf (← fields.foldlM readField {})

def find? (s : Styles) (part : String) : Option Attr :=
  (s.parts.find? fun p => p.1 = part).map Prod.snd

def setPart (part : String) (attr : Attr) : StyleM Unit :=
  modify fun s => { s with parts := (part, attr) :: s.parts.filter fun p => p.1 ≠ part }

def assign (isBase : Bool) (part data : String) : StyleM Unit := do
  if !isBase && (find? (← get) part).isNone then warn ["Ignoring non-existent style", part]
  match find? (← get) data with
  | some a => setPart part a
  | none => setPart part (← readDefinition data)

def assignAll (isBase : Bool) (s : String) : StyleM Unit :=
  (words s).forM fun word =>
    match cut? word "=" with
    | some (part, data) => assign isBase part data
    | none => return ()

/-- Reads a style; a base is a template that defines parts without being asked about them. -/
def read (isBase : Bool) (s : String) : StyleM Unit :=
  (words s).forM fun word =>
    match cut? word "=" with
    | some (part, data) => assign isBase part data
    | none =>
      match templates.lookup word with
      | some t => assignAll isBase t
      | none => warn ["Ignoring non-existent style template", word]

end Style

def Styles.make (p : Palette) (user : Option String) : Styles :=
  let reading : StyleM Unit := do
    Style.read true (if p.hasColors then "default" else "monochrome")
    match user with
    | some s => Style.read false s
    | none => return ()
  (reading.run { palette := p }).2

def Styles.attr (s : Styles) (part : String) : Attr :=
  (Style.find? s part).getD 0

end Buildsmith.Terminal
