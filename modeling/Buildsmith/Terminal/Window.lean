import Buildsmith.Text.Basic
import Buildsmith.Text.Printable

/-!
# Windows and screens

A window is a rectangle of cells with a cursor, a background and attributes that are switched on.
Text is written along a row and cut off at the right edge; what starts outside the window is not
written at all.

A cell that was not written since the window was erased shows the background.
-/

namespace Buildsmith.Terminal

abbrev Attr := Nat

namespace Attr

def pair (n : Nat) : Attr := n * 256

def standout : Attr := 65536

def underline : Attr := 131072

def bold : Attr := 2097152

end Attr

/-- A character on the screen. -/
structure Cell where
  char : Char
  attr : Attr
  deriving DecidableEq, Repr, Inhabited

/-- A window. -/
structure Window where
  height : Nat := 1
  width : Nat := 1
  /-- The row of the screen at which the window starts. -/
  row : Nat := 0
  /-- The column of the screen at which the window starts. -/
  col : Nat := 0
  cursorRow : Nat := 0
  cursorCol : Nat := 0
  background : Attr := 0
  /-- Attributes of text that is written without any of its own. -/
  active : Attr := 0
  cells : Array (Array (Option Cell)) := #[]
  deriving Inhabited

namespace Window

def erase (w : Window) : Window :=
  { w with
    cells := Array.replicate w.height (Array.replicate w.width none)
    cursorRow := 0
    cursorCol := 0 }

def resize (w : Window) (height width : Nat) : Window :=
  { w with
    height := height
    width := width
    cursorRow := min w.cursorRow (height - 1)
    cursorCol := min w.cursorCol (width - 1) }

def moveTo (w : Window) (row col : Nat) : Window :=
  { w with row := row, col := col }

def setBackground (w : Window) (attr : Attr) : Window :=
  { w with background := attr }

def attrOn (w : Window) (attr : Attr) : Window :=
  { w with active := w.active ||| attr }

def attrOff (w : Window) (attr : Attr) : Window :=
  { w with active := w.active ^^^ (w.active &&& attr) }

def isInside (w : Window) (row col : Nat) : Bool :=
  row < w.height && col < w.width

def cellFor (w : Window) (attr : Option Attr) (c : Char) : Cell :=
  { char := c, attr := attr.getD (w.background ||| w.active) }

def putRow (w : Window) (row col : Nat) (cs : List Cell) : Window :=
  { w with
    cells := w.cells.modify row fun line =>
      (cs.foldl (fun (l, k) c => (Array.setIfInBounds l k (some c), k + 1)) (line, col)).1 }

def addText (w : Window) (row col : Nat) (s : String) (attr : Option Attr := none) : Window :=
  if w.isInside row col then
    let shown := ((Text.expandTabs s).toList.take (w.width - col)).map (w.cellFor attr)
    { w.putRow row col shown with
      cursorRow := row
      cursorCol := min (col + shown.length) (w.width - 1) }
  else w

def addTextHere (w : Window) (s : String) : Window :=
  w.addText w.cursorRow w.cursorCol s

def addChar (w : Window) (c : Char) : Window :=
  { w.putRow w.cursorRow w.cursorCol [w.cellFor none c] with
    cursorCol := min (w.cursorCol + 1) (w.width - 1) }

def lineRight (w : Window) (row col : Nat) (c : Char) (n : Nat) (attr : Option Attr := none) :
    Window :=
  if w.isInside row col then
    { w.putRow row col (List.replicate (min n (w.width - col)) (w.cellFor attr c)) with
      cursorRow := row
      cursorCol := col }
  else w

def lineDown (w : Window) (row col : Nat) (c : Char) (n : Nat) : Window :=
  if w.isInside row col then
    let drawn := (List.range (min n (w.height - row))).foldl
      (fun v k => Window.putRow v (row + k) col [w.cellFor none c]) w
    { drawn with cursorRow := row, cursorCol := col }
  else w

def moveCursor (w : Window) (row col : Int) : Window :=
  if 0 ≤ row && row < w.height && 0 ≤ col && col < w.width then
    { w with cursorRow := row.toNat, cursorCol := col.toNat }
  else w

def cellAt (w : Window) (row col : Nat) : Cell :=
  ((w.cells.getD row #[]).getD col none).getD { char := ' ', attr := w.background }

end Window

/-! ## Screens -/

/-- A key. -/
inductive Key where
  | char (c : Char)
  | down
  | up
  | left
  | right
  | pageDown
  | pageUp
  | home
  | endKey
  | backspace
  | delete
  | function1
  | resize
  deriving DecidableEq, Repr

/-- What happens at the terminal. -/
inductive Input where
  | key (k : Key)
  | resized (height width : Nat)
  deriving DecidableEq, Repr

def eraseChar : Char := Char.ofNat 127

def escapeChar : Char := Char.ofNat 27

def control (letter : Char) : Char := Char.ofNat (letter.toNat - 64)

/-- What a user sees. -/
structure Frame where
  rows : Array (Array Cell)
  /-- The place of the cursor, if it is visible. -/
  cursor : Option (Nat × Nat)
  /-- Whether the screen was blank before it was drawn. -/
  isFresh : Bool
  deriving Inhabited

/-- The screen of a terminal. -/
structure Screen where
  height : Nat := 24
  width : Nat := 80
  rows : Array (Array Cell) := #[]
  cursorVisible : Bool := true
  cursorRow : Nat := 0
  cursorCol : Nat := 0
  isFresh : Bool := true
  deriving Inhabited

namespace Screen

def cleared (s : Screen) (height width : Nat) : Screen :=
  { s with
    height := height
    width := width
    rows := Array.replicate height (Array.replicate width { char := ' ', attr := 0 })
    isFresh := true }

def ofSize (height width : Nat) : Screen :=
  Screen.cleared {} height width

def put (s : Screen) (w : Window) : Screen :=
  { s with
    rows := s.rows.mapIdx fun y line =>
      if w.row ≤ y && y < w.row + w.height then
        line.mapIdx fun x cell =>
          if w.col ≤ x && x < w.col + w.width then w.cellAt (y - w.row) (x - w.col) else cell
      else line
    cursorRow := w.row + w.cursorRow
    cursorCol := w.col + w.cursorCol }

def frame (s : Screen) : Frame :=
  { rows := s.rows
    cursor := if s.cursorVisible then some (s.cursorRow, s.cursorCol) else none
    isFresh := s.isFresh }

end Screen

/-!
## Text boxes and lists

A text box holds a text, a position in it and the number of characters that are hidden at the left.
Keys edit the text.  Afterwards the text is shifted so that the position keeps its distance from
the edges of the box, as far as the ends of the text allow.
-/

def scrollOffset : Nat := 5

/-- A text that is being edited. -/
structure TextBox where
  text : List Char := []
  /-- The position of the cursor. -/
  position : Nat := 0
  /-- The number of characters that are hidden at the left. -/
  hidden : Nat := 0
  deriving DecidableEq, Repr, Inhabited

namespace TextBox

/-- Where the last word ends that blanks may follow: a run of word characters or a single other
character, and all blanks behind it, are left out. -/
def withoutLastWord (s : List Char) : List Char :=
  let s := s.reverse.dropWhile Text.isBlank
  match s with
  | [] => []
  | c :: rest =>
    if Text.isWordChar c then (s.dropWhile Text.isWordChar).reverse else rest.reverse

def edit (b : TextBox) (k : Key) : TextBox :=
  let before := b.text.take b.position
  let behind := b.text.drop b.position
  match k with
  | .left => { b with position := b.position - 1 }
  | .right => if b.position < b.text.length then { b with position := b.position + 1 } else b
  | .home => { b with position := 0 }
  | .endKey => { b with position := b.text.length }
  | .backspace => erase b behind
  | .delete => { b with text := before ++ behind.drop 1 }
  | .char c =>
    if c = control 'A' then { b with position := 0 }
    else if c = control 'E' then { b with position := b.text.length }
    else if c = eraseChar then erase b behind
    else if c = control 'W' then
      let kept := withoutLastWord before
      { b with text := kept ++ behind, position := kept.length }
    else if c = control 'K' then { b with text := before }
    else if c = control 'U' then { b with text := behind, position := 0 }
    else { b with text := before ++ c :: behind, position := b.position + 1 }
  | _ => b
where
  /-- Removes the character before the position. -/
  erase (b : TextBox) (behind : List Char) : TextBox :=
    if b.position > 0 then
      { b with text := b.text.take (b.position - 1) ++ behind, position := b.position - 1 }
    else b

def scroll (b : TextBox) (width : Int) : TextBox :=
  if b.position < b.hidden + scrollOffset then { b with hidden := b.position - scrollOffset }
  else if (b.position : Int) ≥ b.hidden + width - scrollOffset then
    let most := max (b.text.length - width + 1) 0
    { b with hidden := (min (b.position - width + scrollOffset + 1) most).toNat }
  else b

def press (b : TextBox) (k : Key) (width : Int) : TextBox :=
  (b.edit k).scroll width

def ofText (s : String) (width : Int) : TextBox :=
  let n := s.length
  { text := s.toList, position := n, hidden := (max (n - width + 1) 0).toNat }

/-- The part of the text that is shown; an end before the start of the text counts from its end. -/
def visible (b : TextBox) (width : Int) : String :=
  let n : Int := b.text.length
  let stop := b.hidden + width
  let stop := if stop < 0 then max (n + stop) 0 else stop
  String.ofList ((b.text.take stop.toNat).drop b.hidden)

def toString (b : TextBox) : String := String.ofList b.text

end TextBox

/-! ## Scrolling lists -/

/-- The selected item of a list and the one in the first row. -/
structure Scroller where
  selected : Int := 0
  top : Int := 0
  deriving DecidableEq, Repr, Inhabited

namespace Scroller

/-- The last item that can stand in the first row: the end of the list stays at the bottom. -/
def maxTop (count height : Nat) : Int :=
  max 0 ((count : Int) - height)

def next (s : Scroller) (count height : Nat) : Scroller :=
  let selected := s.selected + 1
  if selected ≥ s.top + height - scrollOffset && s.top < maxTop count height then
    { selected, top := s.top + 1 }
  else { s with selected }

def previous (s : Scroller) : Scroller :=
  let selected := s.selected - 1
  if selected < s.top + scrollOffset then { selected, top := max (s.top - 1) 0 }
  else { s with selected }

def last (count height : Nat) : Scroller :=
  { selected := (count : Int) - 1, top := maxTop count height }

def first : Scroller := {}

/-- Brings the selected item to the middle of the window, as far as the ends of the list allow. -/
def centered (s : Scroller) (count height : Nat) : Scroller :=
  { s with top := min (max (s.selected - (height / 2 : Nat)) 0) (maxTop count height) }

def row (s : Scroller) : Int :=
  s.selected - s.top

def inRow (selected row : Int) : Scroller :=
  { selected, top := max (selected - row) 0 }

def fitted (s : Scroller) (height : Nat) : Scroller :=
  if s.row ≥ height then { s with top := s.selected - height + 1 } else s

end Scroller

end Buildsmith.Terminal
