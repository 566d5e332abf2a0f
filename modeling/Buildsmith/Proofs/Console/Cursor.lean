import Buildsmith.Proofs.Console.Opening

/-!
# The selected entry is on the screen

Whatever keys are pressed and whatever sizes the terminal gets, the selected entry is one of those
that are shown and stands in a row of the menu's window (`Ui.OnScreen`).  Each move re-establishes
this from the row in which the entry stood before, or brings the entry to the middle.
-/

namespace Buildsmith.Console

open Kconfig Terminal

variable {α : Type} {K : Ui → Prop}

/-- Whether the selected entry is shown and stands in a row of the menu's window. -/
def Ui.OnScreen (u : Ui) : Prop := u.scroller.Within u.shown.length u.menuWindow.height

/-- A state with the selected entry on the screen, in which the entries above were on it, too. -/
structure Ui.Tracked (u : Ui) : Prop where
  onScreen : u.OnScreen
  rowsAbove : ∀ row ∈ u.rowsAbove, 0 ≤ row

/-- Whenever a key is waited for, the selected entry is on the screen. -/
def HaltsOnScreen (e : Halt) (u : Ui) : Prop := e = .outOfKeys → u.OnScreen

theorem steady_tracked : Steady HaltsOnScreen Ui.Tracked where
  fault _ _ := nofun
  waiting _ hu _ := hu.onScreen
  drawn u v hcore hu := by
    have hscroller : v.scroller = u.scroller := congrArg (·.scroller) hcore
    have hshown : v.shown = u.shown := congrArg (·.shown) hcore
    have hheight : v.menuWindow.height = u.menuWindow.height := congrArg (·.menuWindow.height) hcore
    have habove : v.rowsAbove = u.rowsAbove := congrArg (·.rowsAbove) hcore
    refine ⟨?_, habove ▸ hu.rowsAbove⟩
    rw [Ui.OnScreen, hscroller, hshown, hheight]
    exact hu.onScreen
  resized u hu := by
    obtain ⟨v, hrun, hheight, hscroller, hcore⟩ := exists_resizeMain u
    have hshown : v.shown = u.shown := congrArg (·.shown) hcore
    have habove : v.rowsAbove = u.rowsAbove := congrArg (·.rowsAbove) hcore
    rw [hrun]
    refine ⟨?_, habove ▸ hu.rowsAbove⟩
    rw [Ui.OnScreen, hscroller, hshown]
    exact hu.onScreen.fitted hheight
  session _ _ hu := ⟨hu.onScreen, hu.rowsAbove⟩

/-! ## Parts of moves -/

theorem keeps_onSession {x : SessionM α} (hK : ∀ (u : Ui) s, K u → K { u with session := s }) :
    Keeps HaltsOnScreen K (onSession x) :=
  Leads.onSession (fun _ _ => nofun) fun u _ s hu _ => hK u s hu

variable (i : EntryId) (s : Session) (setting : Setting) (x : Item)

theorem keeps_shownNow (hK : ∀ (u : Ui) s, K u → K { u with session := s }) :
    Keeps HaltsOnScreen K (shownNow i) :=
  .get_bind' fun _ => keeps_onSession hK

theorem keeps_selectedEntry : Keeps HaltsOnScreen K selectedEntry := by
  refine .get_bind' fun u => ?_
  split
  · exact .keep
  · exact .throw fun _ _ => nofun

theorem leads_positionIn (shown : List EntryId) (i : EntryId) :
    Leads HaltsOnScreen K (positionIn shown i) fun k u => (0 ≤ k ∧ k < shown.length) ∧ K u := by
  unfold positionIn
  split
  · rename_i k hk
    obtain ⟨hlt, -⟩ := List.findIdx?_eq_some_iff_getElem.1 hk
    exact .pure fun _ hu => ⟨⟨Int.natCast_nonneg k, Int.ofNat_lt.2 hlt⟩, hu⟩
  · exact .throw fun _ _ => nofun

/-- A state in which the menu's window has a row, and the entries above were on the screen. -/
structure Ui.HasRow (u : Ui) : Prop where
  height_pos : 1 ≤ u.menuWindow.height
  rowsAbove : ∀ row ∈ u.rowsAbove, 0 ≤ row

/-- A state whose selected entry is shown, although perhaps in none of the rows. -/
structure Ui.InList (u : Ui) : Prop extends u.HasRow where
  selected_nonneg : 0 ≤ u.scroller.selected
  selected_lt : u.scroller.selected < u.shown.length

theorem Ui.Tracked.hasRow {u : Ui} (h : u.Tracked) : u.HasRow :=
  ⟨h.onScreen.height_pos, h.rowsAbove⟩

theorem leads_centerSelected : Leads HaltsOnScreen Ui.InList centerSelected fun _ => Ui.Tracked :=
  .modify fun _ hu => ⟨.centered hu.selected_nonneg hu.selected_lt hu.height_pos, hu.rowsAbove⟩

theorem tracked_selectChosen : Keeps HaltsOnScreen Ui.Tracked selectChosen := by
  refine .get_bind fun u hu => ?_
  have hdone : Leads HaltsOnScreen (fun v => v.Tracked ∧ v.shown = u.shown) (pure ())
      fun _ => Ui.Tracked := .pure fun _ hv => hv.1
  refine .mono (P := fun v => v.Tracked ∧ v.shown = u.shown) ?_ ?_ fun _ _ hv => hv
  · dsimp only
    split
    · refine (keeps_onSession fun v s hv => ⟨steady_tracked.session v s hv.1, hv.2⟩).bind fun chosen => ?_
      split
      · exact hdone
      · split
        · exact hdone
        · refine (leads_positionIn _ _).bind fun k => .bind (.modify ?_) fun _ =>
            leads_centerSelected
          rintro v ⟨⟨hnonneg, hlt⟩, hv, hshown⟩
          exact ⟨⟨hv.onScreen.height_pos, hv.rowsAbove⟩, hnonneg, by rwa [hshown]⟩
    · exact hdone
  · rintro _ rfl
    exact ⟨hu, rfl⟩

/-! ## Moves -/

theorem tracked_enterMenu : Keeps HaltsOnScreen Ui.Tracked (enterMenu i) := by
  refine .look_bind looks_theModel fun m => ?_
  have hdone : ∀ b : Bool, Keeps HaltsOnScreen Ui.Tracked (pure b) := fun _ => .keep
  dsimp only
  split
  · exact hdone _
  · refine (keeps_shownNow i steady_tracked.session).bind fun below => ?_
    split
    · exact hdone _
    · rename_i hbelow
      refine .bind (.modify fun u hu => ?_) fun _ => tracked_selectChosen.bind fun _ => hdone _
      have hcount : 0 < below.length := List.length_pos_iff.2 (by simpa using hbelow)
      refine ⟨.first hcount hu.onScreen.height_pos, ?_⟩
      rintro row (_ | ⟨_, hrow⟩)
      · exact hu.onScreen.row_nonneg
      · exact hu.rowsAbove row hrow

theorem tracked_leaveMenu : Keeps HaltsOnScreen Ui.Tracked leaveMenu := by
  refine .get_bind fun u hu => ?_
  split
  · refine .pure ?_
    rintro _ rfl
    exact hu
  refine .mono (P := Ui.HasRow) ?_ (fun v hv => hv ▸ hu.hasRow) fun _ _ hv => hv
  refine (keeps_shownNow _ fun _ _ hv => ⟨hv.height_pos, hv.rowsAbove⟩).bind fun shown =>
    Leads.bind (.modify (R := fun _ v => v.shown = shown ∧ v.HasRow)
      fun v hv => ⟨rfl, hv.height_pos, hv.rowsAbove⟩) fun _ =>
    (leads_positionIn shown _).bind fun k => .bind (.modify (R := fun _ v =>
      v.scroller.selected = k ∧ v.InList) ?_) fun _ => ?_
  · rintro v ⟨⟨hnonneg, hlt⟩, rfl, hv⟩
    exact ⟨rfl, ⟨hv.height_pos, hv.rowsAbove⟩, hnonneg, hlt⟩
  · split
    · rename_i row rest hrows
      have hrow : 0 ≤ row := hu.rowsAbove row (hrows ▸ List.mem_cons_self)
      refine .modify ?_
      rintro v ⟨rfl, hv⟩
      have hheight := hv.height_pos
      refine ⟨.inRow hv.selected_nonneg hv.selected_lt (by omega) ?_, fun r hr => ?_⟩
      · show min row ((v.menuWindow.height : Int) - 1) < (v.menuWindow.height : Int)
        omega
      · exact hu.rowsAbove r (hrows ▸ List.mem_cons_of_mem _ hr)
    · exact leads_centerSelected.mono (fun _ hv => hv.2) fun _ _ hv => hv

/-- Toggling whether all entries are shown keeps what does not depend on it, if it is kept when the
selected entry is one of a new list and its row is the old one. -/
theorem keeps_toggleShowAll (hsession : ∀ (u : Ui) s, K u → K { u with session := s })
    (hall : ∀ (u : Ui) b, K u → K { u with showAll := b })
    (hmove : ∀ (u : Ui) shown (k : Int), K u → 0 ≤ k → k < shown.length →
      K { u with shown, scroller := .inRow k u.scroller.row }) :
    Keeps HaltsOnScreen K toggleShowAll := by
  refine .get_bind fun u hu => ?_
  refine .mono (P := fun v => K v ∧ v.scroller = u.scroller) ?_ ?_ fun _ _ hv => hv
  · refine .bind (.modify (R := fun _ v => K v ∧ v.scroller = u.scroller) fun v hv =>
      ⟨hall v _ hv.1, hv.2⟩) fun _ => .get_bind' fun w => ?_
    refine (keeps_shownNow _ fun v s hv => ⟨hsession v s hv.1, hv.2⟩).bind fun shown => ?_
    dsimp only
    split
    · exact .modify fun v hv => hall v _ hv.1
    · refine (leads_positionIn shown _).bind fun k => .modify ?_
      rintro v ⟨⟨hnonneg, hlt⟩, hv, hscroller⟩
      exact hscroller ▸ hmove v shown k hv hnonneg hlt
  · rintro _ rfl
    exact ⟨hu, rfl⟩

theorem tracked_toggleShowAll : Keeps HaltsOnScreen Ui.Tracked toggleShowAll :=
  keeps_toggleShowAll steady_tracked.session (fun _ _ hu => ⟨hu.onScreen, hu.rowsAbove⟩)
    fun _ _ _ hu hnonneg hlt =>
      ⟨.inRow hnonneg hlt hu.onScreen.row_nonneg hu.onScreen.row_lt, hu.rowsAbove⟩

theorem inList_toggleShowAll : Keeps HaltsOnScreen Ui.InList toggleShowAll :=
  keeps_toggleShowAll
    (fun _ _ hu => ⟨⟨hu.height_pos, hu.rowsAbove⟩, hu.selected_nonneg, hu.selected_lt⟩)
    (fun _ _ hu => ⟨⟨hu.height_pos, hu.rowsAbove⟩, hu.selected_nonneg, hu.selected_lt⟩)
    fun _ _ _ hu hnonneg hlt => ⟨⟨hu.height_pos, hu.rowsAbove⟩, hnonneg, hlt⟩

theorem tracked_arriveAt (isInside wasAll : Bool) :
    Leads HaltsOnScreen Ui.HasRow (arriveAt isInside wasAll i) fun _ => Ui.Tracked := by
  have hcentered : Leads HaltsOnScreen Ui.InList (do
      centerSelected
      if isInside then selectChosen) fun _ => Ui.Tracked := by
    refine leads_centerSelected.bind fun _ => ?_
    cases isInside with
    | false => exact .keep
    | true => exact tracked_selectChosen
  refine .get_bind fun w hw => (leads_positionIn w.shown i).bind fun k => ?_
  refine .bind (.modify (R := fun _ => Ui.InList) ?_) fun _ => .get_bind' fun v => ?_
  · rintro _ ⟨⟨hnonneg, hlt⟩, rfl⟩
    exact ⟨⟨hw.height_pos, hw.rowsAbove⟩, hnonneg, hlt⟩
  · dsimp only
    by_cases htoggles : (isInside && !wasAll && v.showAll)
    · rw [if_pos htoggles]
      exact inList_toggleShowAll.bind fun _ => hcentered
    · rw [if_neg htoggles]
      exact hcentered

theorem tracked_jumpTo : Keeps HaltsOnScreen Ui.Tracked (jumpTo i) := by
  have hset : ∀ {β : Type} {g : Ui → Ui} {f : PUnit → UiM β} {R : β → Ui → Prop},
      (∀ u : Ui, (g u).menuWindow = u.menuWindow ∧ (g u).rowsAbove = u.rowsAbove) →
      (∀ a, Leads HaltsOnScreen Ui.HasRow (f a) R) →
      Leads HaltsOnScreen Ui.HasRow (modify g >>= f) R := fun hg hf =>
    Leads.bind (.modify fun u hu => ⟨(hg u).1 ▸ hu.height_pos, (hg u).2 ▸ hu.rowsAbove⟩) hf
  have hshows := fun menu => keeps_shownNow (K := Ui.HasRow) menu fun _ _ hv =>
    ⟨hv.height_pos, hv.rowsAbove⟩
  refine .bind (.modify (R := fun _ => Ui.HasRow) fun u hu => ⟨hu.onScreen.height_pos, nofun⟩)
    fun _ => .get_bind' fun u => hset (fun _ => ⟨rfl, rfl⟩) fun _ => (hshows _).bind fun shown =>
    hset (fun _ => ⟨rfl, rfl⟩) fun _ => ?_
  split
  · exact hset (fun _ => ⟨rfl, rfl⟩) fun _ => (hshows _).bind fun shown =>
      hset (fun _ => ⟨rfl, rfl⟩) fun _ => tracked_arriveAt _ _ _
  · exact tracked_arriveAt _ _ _

theorem tracked_updateMenu : Keeps HaltsOnScreen Ui.Tracked updateMenu := by
  refine .get_bind fun u hu => ?_
  refine .mono (P := fun v => u.scroller.row < v.menuWindow.height ∧
    ∀ row ∈ v.rowsAbove, 0 ≤ row) ?_ ?_ fun _ _ hv => hv
  · refine keeps_selectedEntry.bind fun i => .get_bind' fun w =>
      (keeps_shownNow _ fun _ _ hv => hv).bind fun shown => .bind (.modify
        (R := fun _ v => v.shown = shown ∧ u.scroller.row < v.menuWindow.height ∧
          ∀ row ∈ v.rowsAbove, 0 ≤ row) fun v hv => ⟨rfl, hv⟩) fun _ =>
      (leads_positionIn shown i).bind fun k => .modify ?_
    rintro v ⟨⟨hnonneg, hlt⟩, rfl, hrow, habove⟩
    exact ⟨.inRow hnonneg hlt hu.onScreen.row_nonneg hrow, habove⟩
  · rintro _ rfl
    exact ⟨hu.onScreen.row_lt, hu.rowsAbove⟩

theorem tracked_assignValue (text : String) :
    Keeps HaltsOnScreen Ui.Tracked (assignValue x text) := by
  have hupdate : Keeps HaltsOnScreen Ui.Tracked (do
      modify fun u => { u with isChanged := true }
      updateMenu) :=
    steady_tracked.change_bind (fun _ => rfl) fun _ => tracked_updateMenu
  have hset : ∀ {α : Type} (y : EvalM α), Keeps HaltsOnScreen Ui.Tracked (discard (computing y)) :=
    fun y => .discard (steady_tracked.onSession)
  refine steady_tracked.onSession.bind fun value => ?_
  split
  · cases x with
    | symbol s | choice c => exact (hset _).bind fun _ => hupdate
  · exact .keep

theorem tracked_assignNext : Keeps HaltsOnScreen Ui.Tracked (assignNext x) := by
  refine steady_tracked.onSession.bind fun assignable => ?_
  split
  · exact tracked_assignValue x _
  · refine steady_tracked.onSession.bind fun present => ?_
    split
    · exact .throw fun _ _ => nofun
    · split
      · exact tracked_assignValue x _
      · exact .throw fun _ _ => nofun

theorem tracked_assignSelected (t : Tristate) :
    Keeps HaltsOnScreen Ui.Tracked (assignSelected t) := by
  refine .look_bind looks_theModel fun m => keeps_selectedEntry.bind fun i => ?_
  split
  · exact .keep
  · refine steady_tracked.onSession.bind fun assignable => ?_
    split
    · exact tracked_assignValue _ _
    · exact .keep

theorem tracked_loadFrom (path : String) : Keeps HaltsOnScreen Ui.Tracked (loadFrom path) := by
  have hupdate : Keeps HaltsOnScreen Ui.Tracked (do
      updateMenu
      return (.ok () : Except FileCause Unit)) :=
    tracked_updateMenu.bind fun _ => .keep
  refine steady_tracked.onSession.bind fun loaded => ?_
  cases loaded with
  | error cause => exact .keep
  | ok text =>
    refine steady_tracked.change_bind (fun _ => rfl) fun _ =>
      steady_tracked.onSession.bind fun outdated =>
      steady_tracked.change_bind (fun _ => rfl) fun _ => keeps_selectedEntry.bind fun i =>
      .get_bind' fun u => (keeps_shownNow _ steady_tracked.session).bind fun shown => ?_
    split
    · exact .bind (.modify fun _ hu => ⟨hu.onScreen, hu.rowsAbove⟩) fun _ => hupdate
    · exact hupdate

theorem moves_tracked : Moves HaltsOnScreen Ui.Tracked where
  steady := steady_tracked
  selected := keeps_selectedEntry
  assigned := tracked_assignValue
  assignedNext := tracked_assignNext
  assignedSelected := tracked_assignSelected
  entered := tracked_enterMenu
  left := tracked_leaveMenu
  toggled := tracked_toggleShowAll
  searched box := by
    unfold searchFor
    split
    · exact .get_bind' fun _ => .keep
    · split
      · exact .keep
      · exact .throw fun _ _ => nofun
  jumped := tracked_jumpTo
  loaded := tracked_loadFrom
  next := .modify fun u hu => by
    split
    · rename_i hlt
      exact ⟨hu.onScreen.next hlt, hu.rowsAbove⟩
    · exact hu
  previous := .modify fun u hu => by
    split
    · rename_i hpos
      exact ⟨hu.onScreen.previous hpos, hu.rowsAbove⟩
    · exact hu
  last u hu := ⟨.last hu.onScreen.count_pos hu.onScreen.height_pos, hu.rowsAbove⟩
  first u hu := ⟨.first hu.onScreen.count_pos hu.onScreen.height_pos, hu.rowsAbove⟩

/-! ## Runs -/

theorem leads_opening_tracked :
    Leads HaltsOnScreen (· = setting.begin s) opening fun b u => b → u.Tracked := by
  refine (leads_opening fun _ _ => nofun).mono (fun _ hu => hu) fun b u hu hb => ?_
  exact ⟨(hu hb).within, (hu hb).rowsAbove ▸ nofun⟩

theorem Displays.tracked {s : Session} {setting : Setting} {u : Ui} (h : Displays s setting u) :
    u.Tracked := by
  induction h with
  | opened hrun => exact (leads_opening_tracked s setting).apply rfl hrun rfl
  | stepped _ hrun hu => exact moves_tracked.displayStep.apply hu hrun

theorem leads_runUi : Leads HaltsOnScreen (· = setting.begin s) runUi fun _ _ => True := by
  refine (leads_opening_tracked s setting).bind fun opened => ?_
  cases opened with
  | false => exact .pure fun _ _ => trivial
  | true =>
    refine .look_bind looks_keysLeft fun fuel => ?_
    refine ((moves_tracked.mainLoop fuel).mono (fun _ hu => hu rfl) fun _ _ hu => hu).bind fun text => ?_
    exact .onSession (fun _ _ => nofun) fun _ _ _ _ _ => trivial

/-- Before each step of the display, and wherever a key is waited for, the selected entry is one of
those that are shown and stands in a row of the window. -/
theorem selected_entry_on_screen {s : Session} {setting : Setting} {u : Ui}
    (h : Displays s setting u ∨ run s setting = (.error .outOfKeys, u)) :
    0 ≤ u.scroller.top ∧ u.scroller.top ≤ u.scroller.selected ∧
      u.scroller.selected < u.shown.length ∧
      u.scroller.selected < u.scroller.top + u.menuWindow.height ∧ 1 ≤ u.menuWindow.height := by
  have hu : u.OnScreen := by
    rcases h with hdisplays | hrun
    · exact hdisplays.tracked.onScreen
    · have hhalts := (leads_runUi s setting).run _ rfl
      have hrun' : runFrom runUi (setting.begin s) = (.error .outOfKeys, u) := hrun
      rw [hrun'] at hhalts
      exact hhalts rfl
  exact ⟨hu.top_nonneg, hu.top_le, hu.selected_lt, hu.lt_bottom, hu.height_pos⟩

/-- A menu of three symbols. -/
def listWorkspace : Workspace :=
  { files := { entries := [(["Kconfig"],
      .file "config A\n\tbool \"a\"\nconfig B\n\tbool \"b\"\nconfig C\n\tbool \"c\"\n".toUTF8)] } }

/-- The terminal grows from one row to nine and shrinks again, after the last entry is selected. -/
def resizing : Setting :=
  { height := 1
    width := 1
    inputs := [.key .down, .resized 9 1, .key .endKey, .resized 1 1] }

def isOutOfKeys {α : Type} : Except Halt α → Bool
  | .error .outOfKeys => true
  | _ => false

theorem eq_of_isOutOfKeys {α : Type} {x : Except Halt α} (h : isOutOfKeys x) :
    x = .error .outOfKeys := by
  unfold isOutOfKeys at h
  split at h
  · rfl
  · cases h

/-- When the terminal has shrunk, the last entry stands in the only row. -/
theorem selected_entry_on_screen_resizing :
    ∃ s r u, openSession listWorkspace {} = (.ok s, r) ∧ run s resizing = (.error .outOfKeys, u) ∧
      u.scroller = { selected := 2, top := 2 } ∧ u.menuWindow.height = 1 ∧
      0 ≤ u.scroller.top ∧ u.scroller.top ≤ u.scroller.selected ∧
      u.scroller.selected < u.shown.length ∧
      u.scroller.selected < u.scroller.top + u.menuWindow.height ∧ 1 ≤ u.menuWindow.height := by
  obtain ⟨s, r, hopen, hrun⟩ := exists_of_opensTo listWorkspace (fun s =>
      isOutOfKeys (run s resizing).1 &&
      decide ((run s resizing).2.scroller = { selected := 2, top := 2 }) &&
      decide ((run s resizing).2.menuWindow.height = 1))
    (by decide +kernel)
  simp only [Bool.and_eq_true, decide_eq_true_eq] at hrun
  obtain ⟨⟨hkeys, hscroller⟩, hheight⟩ := hrun
  have hkeys : run s resizing = (.error .outOfKeys, _) := Prod.ext (eq_of_isOutOfKeys hkeys) rfl
  exact ⟨s, r, _, hopen, hkeys, hscroller, hheight, selected_entry_on_screen (.inr hkeys)⟩

end Buildsmith.Console
