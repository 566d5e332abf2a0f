import Buildsmith.Terminal.Window
import Mathlib.Data.List.Basic

/-!
# The cursor of a text box

A key leaves the cursor in the text (`position_le_edit`), and the text is shifted behind it so that
the cursor is in the box (`shows_scroll`).  A box that gets another width is not shifted until the
next key, so the cursor is in it exactly if the box still reaches the cursor (`cursor_in_box`).
-/

namespace Buildsmith.Terminal.TextBox

variable {b : TextBox} {width : Int}

/-- Whether the cursor is in the text and in the part of it that a box shows. -/
structure Shows (b : TextBox) (width : Int) : Prop where
  inText : b.position ≤ b.text.length
  start : b.hidden ≤ b.position
  stop : b.position < b.hidden + width

theorem position_le_erase (h : b.position ≤ b.text.length) :
    let c := edit.erase b (b.text.drop b.position)
    c.position ≤ c.text.length := by
  unfold edit.erase
  split
  · simp
    omega
  · exact h

theorem position_le_edit (h : b.position ≤ b.text.length) (k : Key) :
    (b.edit k).position ≤ (b.edit k).text.length := by
  have herase := position_le_erase h
  cases k with
  | right =>
    simp only [edit]
    split
    · exact ‹_›
    · exact h
  | delete =>
    simp [edit]
    omega
  | char c =>
    simp only [edit]
    repeat' split
    all_goals simp <;> omega
  | backspace => exact herase
  | home => exact Nat.zero_le _
  | endKey => exact Nat.le_refl _
  | left => exact Nat.le_trans (Nat.sub_le ..) h
  | down | up | pageDown | pageUp | function1 | resize => exact h

/-- The integer that the number of hidden characters is given by; nothing is cut off. -/
theorem hidden_scroll (b : TextBox) (width : Int) : ((b.scroll width).hidden : Int) =
    if b.position < b.hidden + scrollOffset then max ((b.position : Int) - scrollOffset) 0
    else if b.position ≥ b.hidden + width - scrollOffset then
      min (b.position - width + scrollOffset + 1) (max (b.text.length - width + 1) 0)
    else b.hidden := by
  unfold scroll
  split
  · dsimp only
    omega
  · split
    · simp only [scrollOffset] at *
      omega
    · rfl

theorem shows_scroll (hwidth : scrollOffset < width) (h : b.position ≤ b.text.length) :
    (b.scroll width).Shows width := by
  have hhidden := hidden_scroll b width
  have hsame : (b.scroll width).text = b.text ∧ (b.scroll width).position = b.position := by
    unfold scroll
    repeat' split
    all_goals exact ⟨rfl, rfl⟩
  constructor
  · rwa [hsame.1, hsame.2]
  · rw [hsame.2]
    omega
  · rw [hsame.2]
    omega

/-! ## Runs -/

/-- What happens to a text box. -/
inductive Event where
  | key (k : Key)
  | resized (width : Int)

/-- A box and its width after an event.  The text is shifted by keys alone. -/
def handle (s : TextBox × Int) : Event → TextBox × Int
  | .key k => (s.1.press k s.2, s.2)
  | .resized width => (s.1, width)

variable {events : List Event}

theorem run_spec (hwidth : scrollOffset < width) (h : b.position ≤ b.text.length)
    (hevents : ∀ w : Int, .resized w ∈ events → scrollOffset < w) :
    let s := events.foldl handle (b, width)
    scrollOffset < s.2 ∧ s.1.position ≤ s.1.text.length := by
  induction events generalizing b width with
  | nil => exact ⟨hwidth, h⟩
  | cons e events ih =>
    have hrest := fun w hw => hevents w (List.mem_cons_of_mem _ hw)
    cases e with
    | key k => exact ih hwidth (shows_scroll hwidth (position_le_edit h k)).inText hrest
    | resized w => exact ih (hevents w List.mem_cons_self) h hrest

/-- Whatever happened to a box, after a key the cursor is in the text and in the box.  If the box
then gets another width, the cursor is in it exactly if the box still reaches that far. -/
theorem cursor_in_box (events : List Event) (hwidth : scrollOffset < width)
    (h : b.position ≤ b.text.length)
    (hevents : ∀ w : Int, .resized w ∈ events → scrollOffset < w) (k : Key) :
    let s := handle (events.foldl handle (b, width)) (.key k)
    s.1.Shows s.2 ∧ ∀ w, (handle s (.resized w)).1.Shows w ↔ s.1.position < s.1.hidden + w := by
  have hrun := run_spec hwidth h hevents
  have hshows := shows_scroll hrun.1 (position_le_edit hrun.2 k)
  exact ⟨hshows, fun w => ⟨fun h => h.stop, fun h => ⟨hshows.inText, hshows.start, h⟩⟩⟩

theorem cursor_in_box_shrunk :
    let s := handle ([.key (.char 'x'), .resized 16].foldl handle (ofText "abcdefghijklm" 26, 26))
      (.key .left)
    s.1.Shows s.2 ∧ ¬(handle s (.resized 6)).1.Shows 6 := by
  have hin := cursor_in_box [.key (.char 'x'), .resized 16] (b := ofText "abcdefghijklm" 26)
    (show (scrollOffset : Int) < 26 by decide) (by decide) (by simp; decide) .left
  exact ⟨hin.1, fun h => absurd ((hin.2 6).1 h) (by decide)⟩

end Buildsmith.Terminal.TextBox
