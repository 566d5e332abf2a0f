import Buildsmith.Proofs.Console.Navigation
import Buildsmith.Proofs.Evaluation.Listing
import Buildsmith.Proofs.Session.Loading

/-!
# Opening the display

A run opens the display and then goes from one of its states to the next (`Displays`).

What is to be shown is looked up twice before: once to find out whether there is anything, and once
for the display.  As reading finds the same both times, the display is opened on a menu that is not
empty, with its first entry selected (`leads_opening`).
-/

namespace Buildsmith.Terminal.Scroller

/-! ## Scrolling keeps the selected item in the window -/

variable {s : Scroller} {count height : Nat}

/-- Whether the selected item is in a list and stands in a row of a window. -/
structure Within (s : Scroller) (count height : Nat) : Prop where
  top_nonneg : 0 ≤ s.top
  top_le : s.top ≤ s.selected
  selected_lt : s.selected < count
  lt_bottom : s.selected < s.top + height

namespace Within

section

variable (h : s.Within count height)

include h

theorem height_pos : 1 ≤ height := by
  have hle := h.top_le
  have hlt := h.lt_bottom
  omega

theorem count_pos : 0 < count := by
  have hnonneg := h.top_nonneg
  have hle := h.top_le
  have hlt := h.selected_lt
  omega

theorem row_nonneg : 0 ≤ s.row :=
  Int.sub_nonneg_of_le h.top_le

theorem row_lt : s.row < height :=
  Int.sub_left_lt_of_lt_add h.lt_bottom

theorem next (hnext : s.selected < (count : Int) - 1) :
    (s.next count height).Within count height := by
  obtain ⟨hnonneg, hle, hlt, hbottom⟩ := h
  unfold Scroller.next
  dsimp only
  split
  · constructor <;> dsimp only <;> omega
  · -- the list is scrolled to its end, or the item is far from the bottom
    rename_i hstays
    simp only [Bool.and_eq_true, decide_eq_true_eq] at hstays
    unfold maxTop at hstays
    constructor <;> dsimp only <;> omega

theorem previous (hprevious : 0 < s.selected) : s.previous.Within count height := by
  obtain ⟨hnonneg, hle, hlt, hbottom⟩ := h
  unfold Scroller.previous
  dsimp only
  split
  · constructor <;> dsimp only <;> omega
  · constructor <;> dsimp only <;> omega

end

theorem last (hcount : 0 < count) (hheight : 1 ≤ height) :
    (last count height).Within count height := by
  constructor <;> dsimp only [Scroller.last, maxTop] <;> omega

theorem first (hcount : 0 < count) (hheight : 1 ≤ height) : first.Within count height := by
  constructor <;> dsimp only [Scroller.first] <;> omega

theorem centered (hnonneg : 0 ≤ s.selected) (hlt : s.selected < count) (hheight : 1 ≤ height) :
    (s.centered count height).Within count height := by
  constructor <;> dsimp only [Scroller.centered, maxTop] <;> omega

theorem inRow {position row : Int} (hnonneg : 0 ≤ position) (hlt : position < count)
    (hrow : 0 ≤ row) (hheight : row < height) : (inRow position row).Within count height := by
  constructor <;> dsimp only [Scroller.inRow] <;> omega

theorem fitted {height' : Nat} (h : s.Within count height) (hheight : 1 ≤ height') :
    (s.fitted height').Within count height' := by
  obtain ⟨hnonneg, hle, hlt, hbottom⟩ := h
  unfold Scroller.fitted Scroller.row
  split
  · constructor <;> dsimp only <;> omega
  · constructor <;> omega

end Within

end Buildsmith.Terminal.Scroller

/-! ## Runs -/

namespace Buildsmith.Console

open Kconfig Terminal

variable {α : Type} {E : Halt → Ui → Prop} {P : Ui → Prop} {R : α → Ui → Prop} {m : Model}
  {I : Values → Prop} {b : Bool} {rows : List EntryId}

/-- The states in which the display of a run stands before its steps. -/
inductive Displays (s : Session) (setting : Setting) : Ui → Prop
  | opened {u : Ui} : runFrom opening (setting.begin s) = (.ok true, u) → Displays s setting u
  | stepped {u v : Ui} : Displays s setting u → runFrom displayStep u = (.ok none, v) →
      Displays s setting v

theorem Leads.computing {x : EvalM α} {Q : α → Prop} (hE : ∀ f u, E (.fault f) u)
    (hwarned : ∀ v ws, I v → I { v with warnings := ws }) (hx : EvalM.Ensures m I x Q)
    (hP : ∀ u, P u → u.session.model = m ∧ I u.session.values)
    (hR : ∀ u a s, P u → s.model = m → I s.values → Q a → R a { u with session := s }) :
    Leads E P (computing x) R := by
  refine .onSession hE fun u a s hu hrun => ?_
  obtain ⟨hmodel, hvalues⟩ := hP u hu
  rw [evaluating, runFrom_bind_ok runFrom_get] at hrun
  rcases hxu : ((x.run u.session.model).run).run u.session.values with ⟨r, v⟩
  have hxu' : x.runOn m u.session.values = (r, v) := hmodel ▸ hxu
  simp only [hxu] at hrun
  cases r with
  | error f => cases hrun
  | ok b =>
    obtain ⟨hv, hb⟩ := hx _ b v hvalues hxu'
    cases hrun
    refine hR u a _ hu ?_ (hwarned v [] hv) hb
    exact (congrArg Session.model (Kept.setting_foldl_log v.warnings u.session)).trans hmodel

/-- A state in which nothing is shown so far, and the first entry is to be selected. -/
structure Unopened (m : Model) (I : Values → Prop) (b : Bool) (u : Ui) : Prop where
  model : u.session.model = m
  values : I u.session.values
  showAll : u.showAll = b
  scroller : u.scroller = .first
  rowsAbove : u.rowsAbove = []

theorem exists_resizeMain (u : Ui) :
    ∃ v : Ui, runFrom resizeMain u = (.ok (), v) ∧ 1 ≤ v.menuWindow.height ∧
      v.scroller = u.scroller.fitted v.menuWindow.height ∧
      v.core = { u with scroller := v.scroller, menuWindow := v.menuWindow }.core := by
  refine ⟨_, rfl, ?_⟩
  dsimp only
  generalize (if u.showHelp then helpHeight else mainHelp.length) = help
  split
  · rename_i hheight
    refine ⟨?_, rfl, rfl⟩
    show 1 ≤ u.screen.height - help - 3
    omega
  · exact ⟨Nat.le_refl 1, rfl, rfl⟩

/-- A state in which the selected entry is in the window, and no entry is above. -/
structure Opened (u : Ui) : Prop where
  within : u.scroller.Within u.shown.length u.menuWindow.height
  rowsAbove : u.rowsAbove = []

theorem leads_resizeMain_opened :
    Leads E (fun u => u.scroller = .first ∧ u.rowsAbove = [] ∧ u.shown ≠ []) resizeMain
      fun _ => Opened := by
  refine ⟨fun u hu => ?_⟩
  obtain ⟨v, hrun, hheight, hscroller, hcore⟩ := exists_resizeMain u
  rw [hrun]
  have hshown : v.shown = u.shown := congrArg (·.shown) hcore
  refine ⟨?_, (congrArg (·.rowsAbove) hcore).trans hu.2.1⟩
  rw [hscroller, hu.1, hshown]
  exact (Scroller.Within.first (List.length_pos_of_ne_nil hu.2.2) (Nat.le_refl 1)).fitted hheight

section

variable (hE : ∀ f u, E (.fault f) u) (hwarned : ∀ v ws, I v → I { v with warnings := ws })
  (hrows : EvalM.Ensures m I (shownIn b Model.top) (· = rows))

include hE hwarned hrows

theorem leads_shownNow :
    Leads E (Unopened m I b) (shownNow Model.top) fun shown u => Unopened m I b u ∧ shown = rows := by
  refine .get_bind fun u hu => Leads.computing hE hwarned (hu.showAll ▸ hrows) ?_ ?_
  · rintro _ rfl
    exact ⟨hu.model, hu.values⟩
  · rintro _ shown s rfl hmodel hvalues hshown
    exact ⟨⟨hmodel, hvalues, hu.showAll, hu.scroller, hu.rowsAbove⟩, hshown⟩

theorem leads_openDisplay (hne : rows ≠ []) :
    Leads E (Unopened m I b) openDisplay fun _ => Opened := by
  have hready : ∀ {g : Ui → Ui}, (∀ u, Unopened m I b u → Unopened m I b (g u)) →
      Keeps E (Unopened m I b) (modify g : UiM PUnit) := fun hg => .modify hg
  refine .get_bind' fun u => .bind (hready fun u hu => ?_) fun _ =>
    Leads.bind (hready fun u hu => ?_) fun _ =>
    .look_bind (looks_styledWindow _) fun path => .look_bind (looks_styledWindow _) fun separator =>
    .look_bind (looks_styledWindow _) fun menu => .look_bind (looks_styledWindow _) fun help => ?_
  · exact ⟨hu.model, hu.values, hu.showAll, hu.scroller, hu.rowsAbove⟩
  · exact ⟨hu.model, hu.values, hu.showAll, hu.scroller, hu.rowsAbove⟩
  · refine .bind (leads_shownNow hE hwarned hrows) fun shown => .bind (.modify ?_) fun _ =>
      leads_resizeMain_opened
    rintro u ⟨hu, rfl⟩
    exact ⟨hu.scroller, hu.rowsAbove, hne⟩

theorem leads_openOn :
    Leads E (Unopened m I b) (openOn rows) fun opened u => opened → Opened u := by
  unfold openOn
  split
  · refine .bind (R := fun _ _ => True) (.onSession hE fun _ _ _ _ _ => trivial) fun _ => ?_
    exact .pure fun _ _ => nofun
  · rename_i hne
    refine .bind (.modify fun u hu => ?_) fun _ =>
      (leads_openDisplay hE hwarned hrows (by simpa using hne)).bind fun _ => .pure fun _ hu _ => hu
    exact ⟨hu.model, hu.values, hu.showAll, hu.scroller, hu.rowsAbove⟩

end

/-- Once the configuration is loaded, the display is opened on what reading finds to be shown. -/
theorem leads_opening {s : Session} {setting : Setting} (hE : ∀ f u, E (.fault f) u) :
    Leads E (· = setting.begin s) opening fun opened u => opened → Opened u := by
  refine .bind (R := fun _ u => ∃ s', u = { setting.begin s with session := s' }) (.onSession hE ?_)
    fun outdated => .each fun u hu => ?_
  · rintro _ outdated s' rfl -
    exact ⟨s', rfl⟩
  · obtain ⟨s', rfl⟩ := hu
    have hwarned : ∀ v ws, s'.values.Extends s'.model v →
        s'.values.Extends s'.model { v with warnings := ws } := fun _ ws hv => hv.warned ws
    have hagrees := agrees_shownIn (agrees_exprValue s'.model s'.values)
    obtain ⟨visible, hvisible⟩ := hagrees false Model.top
    obtain ⟨all, hall⟩ := hagrees true Model.top
    refine .bind (.modify ?_) fun _ => (leads_shownNow hE hwarned hvisible).bind fun shown => ?_
    · rintro _ rfl
      exact ⟨rfl, .refl _ _, rfl, rfl, rfl⟩
    refine .and_right fun hshown => ?_
    subst hshown
    split
    · refine .bind (.modify fun u hu => ?_) fun _ => (leads_shownNow hE hwarned hall).bind fun shown =>
        .and_right fun hshown => hshown ▸ leads_openOn hE hwarned hall
      exact ⟨hu.model, hu.values, rfl, hu.scroller, hu.rowsAbove⟩
    · exact leads_openOn hE hwarned hvisible

end Buildsmith.Console
