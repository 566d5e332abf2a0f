import Buildsmith.Console.Run
import Buildsmith.Proofs.Session.Preservation

/-!
# Steps of the main display

The main display is drawn, a key is waited for, and the action of the key is carried out.  What the
basic moves keep (`Moves`) is kept by every action, whatever dialogs it goes through
(`Moves.perform`), by every step of the display (`Moves.displayStep`), and so by every run
(`Moves.mainLoop`).
-/

namespace Buildsmith.Console

open Kconfig Terminal

/-!
## What drawing and dialogs keep

Drawing, waiting for keys and dialogs change neither the menu that is shown nor what is selected in
it.  A property of the interface that depends on no more than that, and survives that the session
goes on and that the display is fitted to the screen, is steady (`Steady`).  All drawing and all
dialogs that do not assign or jump keep steady properties, also while they wait for a key.
-/

variable {α : Type}

/-- Whether each run from a state with a property leads to such a state, or halts as is allowed. -/
abbrev Keeps (E : Halt → Ui → Prop) (P : Ui → Prop) (x : UiM α) : Prop :=
  Leads E P x fun _ => P

/-- Whether a computation gives a result and leaves the state as it is. -/
def Looks (x : UiM α) : Prop := ∀ u, ∃ a, runFrom x u = (.ok a, u)

end Buildsmith.Console

namespace Buildsmith.Kconfig.Leads

open Console

variable {α β : Type} {E : Halt → Ui → Prop} {P : Ui → Prop} {R : α → Ui → Prop}
  {S : β → Ui → Prop}

theorem look_bind {x : UiM α} {f : α → UiM β} (hx : Looks x) (hf : ∀ a, Leads E P (f a) S) :
    Leads E P (x >>= f) S := by
  refine ⟨fun u hu => ?_⟩
  obtain ⟨a, ha⟩ := hx u
  rw [runFrom_bind_ok ha]
  exact (hf a).run u hu

theorem onSession {x : SessionM α} (hE : ∀ f u, E (.fault f) u)
    (h : ∀ u a s, P u → runFrom x u.session = (.ok a, s) → R a { u with session := s }) :
    Leads E P (Console.onSession x) R := by
  refine ⟨fun u hu => ?_⟩
  rw [Console.onSession, runFrom_bind_ok runFrom_get]
  rcases hx : runFrom x u.session with ⟨r, s⟩
  have hx' : x.run.run u.session = (r, s) := hx
  rw [hx']
  cases r with
  | ok a => exact h u a s hu hx
  | error f => exact hE f _

end Buildsmith.Kconfig.Leads

namespace Buildsmith.Console

open Kconfig Terminal

variable {α β : Type} {E : Halt → Ui → Prop} {P K : Ui → Prop} {R : α → Ui → Prop}
  {S : β → Ui → Prop}

section Looking

theorem looks_keysLeft : Looks keysLeft := fun _ => ⟨_, rfl⟩

theorem looks_styledWindow (part : String) : Looks (styledWindow part) := fun _ => ⟨_, rfl⟩

theorem looks_theModel : Looks theModel := fun _ => ⟨_, rfl⟩

theorem looks_placed (w : Window) (height width : Nat) : Looks (placed w height width) :=
  fun _ => ⟨_, rfl⟩

theorem looks_pathInfo : Looks pathInfo := fun _ => ⟨_, rfl⟩

theorem runFrom_screenSize (u : Ui) :
    runFrom screenSize u = (.ok (u.screen.height, u.screen.width), u) := rfl

theorem looks_fitInfo (p : Panes) : Looks p.fitInfo := by
  intro u
  rw [Panes.fitInfo, runFrom_bind_ok (runFrom_screenSize u)]
  dsimp only
  split <;> exact ⟨_, rfl⟩

theorem looks_fitSearch (p : Panes) (s : Scroller) : Looks (p.fitSearch s) := by
  intro u
  rw [Panes.fitSearch, runFrom_bind_ok (runFrom_screenSize u)]
  dsimp only
  split <;> exact ⟨_, rfl⟩

end Looking

/-- What drawing and dialogs leave as it is: the session, the menu with what is shown and selected
in it, and the height of its window. -/
def Ui.core (u : Ui) : Ui :=
  { u with
    screen := {}, styles := {}, inputs := [], frames := #[]
    pathWindow := {}, topWindow := {}, bottomWindow := {}, helpWindow := {}
    menuWindow := { height := u.menuWindow.height }
    showHelp := false, showName := false
    configName := "", minimalName := "", isChanged := false }

/-- A property that does not depend on the session and on what is drawn, and survives what is fitted
to the screen.  Where it holds, a key may be waited for. -/
structure Steady (E : Halt → Ui → Prop) (P : Ui → Prop) : Prop where
  fault : ∀ f u, E (.fault f) u
  waiting : ∀ u, P u → E .outOfKeys u
  drawn : ∀ u v : Ui, v.core = u.core → P u → P v
  resized : ∀ u, P u → P (runFrom resizeMain u).2
  session : ∀ (u : Ui) s, P u → P { u with session := s }

namespace Steady

variable (h : Steady E P)

include h

variable {search : Option (UiM Bool)} {x : SessionM α} {g : Ui → Ui}

theorem onSession : Keeps E P (onSession x) :=
  .onSession h.fault fun u _ s hu _ => h.session u s hu

/-! ## Keys and windows -/

theorem change (hg : ∀ u : Ui, (g u).core = u.core) : Keeps E P (modify g : UiM PUnit) :=
  .modify fun u hu => h.drawn u _ (hg u) hu

theorem change_bind {f : PUnit → UiM β} (hg : ∀ u : Ui, (g u).core = u.core)
    (hf : ∀ a, Leads E P (f a) S) : Leads E P (modify g >>= f) S :=
  (h.change hg).bind hf

theorem nextKey : Keeps E P nextKey := by
  refine h.change_bind (fun _ => rfl) fun _ => .get_bind' fun u => ?_
  split
  · exact .throw h.waiting
  · exact h.change_bind (fun _ => rfl) fun _ => .keep
  · exact h.change_bind (fun _ => rfl) fun _ => .keep

theorem showWindow (w : Window) : Keeps E P (showWindow w) := h.change fun _ => rfl

theorem setCursor (visible : Bool) : Keeps E P (setCursor visible) := h.change fun _ => rfl

theorem resizeMain : Keeps E P resizeMain := ⟨h.resized⟩

/-! ## The main display -/

theorem drawTop : Keeps E P drawTop :=
  .get_bind' fun _ => h.change_bind (fun _ => rfl) fun _ => h.showWindow _

theorem drawEntries (n : Nat) (is : List EntryId) (k : Int) (w : Window) :
    Leads E (fun u => P u ∧ u.menuWindow.height = n) (drawEntries k is w)
      fun w' u => w'.height = w.height ∧ P u ∧ u.menuWindow.height = n := by
  induction is generalizing k w with
  | nil => exact .pure fun _ hu => ⟨rfl, hu⟩
  | cons i is ih =>
    have hreads : ∀ {β : Type} {x : SessionM β},
        Keeps E (fun u => P u ∧ u.menuWindow.height = n) (Console.onSession x) :=
      .onSession h.fault fun u _ s hu _ => ⟨h.session u s hu.1, hu.2⟩
    refine .get_bind' fun u => hreads.bind fun _ => hreads.bind fun line => ?_
    refine (ih _ _).mono (fun _ hu => hu) fun w' v hv => ⟨hv.1.trans ?_, hv.2⟩
    unfold Window.addText
    split <;> rfl

theorem drawMenu : Keeps E P drawMenu := by
  refine .get_bind fun u hu => ?_
  have hentries := h.drawEntries u.menuWindow.height
    ((u.shown.drop u.scroller.top.toNat).take u.menuWindow.height) u.scroller.top
    u.menuWindow.erase
  refine (hentries.mono (fun v hv => ?_) fun _ _ hv => hv).bind fun w => ?_
  · rw [hv]
    exact ⟨hu, rfl⟩
  · refine .bind (.modify fun v hv => ?_) fun _ => h.showWindow w
    refine h.drawn v _ ?_ hv.2.1
    have hheight : w.height = v.menuWindow.height := hv.1.trans hv.2.2.symm
    simp only [Ui.core, hheight]

theorem drawBottom : Keeps E P drawBottom :=
  .get_bind' fun _ => h.change_bind (fun _ => rfl) fun _ => h.showWindow _

theorem helpLines : Keeps E P helpLines := by
  refine .get_bind' fun u => ?_
  have hpure : ∀ lines : List String, Keeps E P (pure lines : UiM (List String)) :=
    fun _ => .keep
  split
  · refine .bind (R := fun _ => P) (.get_bind' fun v => ?_) fun i => ?_
    · split
      · exact .keep
      · exact .throw fun v _ => h.fault _ v
    · dsimp only
      split
      · split
        · exact hpure _
        · exact hpure _
      · exact hpure _
  · exact hpure _

theorem drawHelp : Keeps E P drawHelp :=
  h.helpLines.bind fun _ => .get_bind' fun _ => h.change_bind (fun _ => rfl) fun _ => h.showWindow _

theorem drawPath : Keeps E P drawPath :=
  .get_bind' fun _ => h.change_bind (fun _ => rfl) fun _ => h.showWindow _

theorem drawMain : Keeps E P drawMain :=
  h.drawTop.bind fun _ => h.drawMenu.bind fun _ => h.drawBottom.bind fun _ =>
    h.drawHelp.bind fun _ => h.drawPath

/-! ## Dialogs -/

theorem keyDialogLoop (d : KeyDialog) (fuel : Nat) (w : Window) : Keeps E P (d.loop fuel w) := by
  induction fuel generalizing w with
  | zero => exact .throw h.waiting
  | succ fuel ih =>
    refine h.drawMain.bind fun _ => .get_bind' fun u => (h.showWindow _).bind fun _ => ?_
    refine h.nextKey.bind fun k => ?_
    split
    · exact h.resizeMain.bind fun _ => .look_bind (looks_placed _ _ _) fun w => ih w
    · split
      · exact .keep
      · split
        · split
          · exact .keep
          · exact ih _
        · exact ih _
    · exact ih _

theorem keyDialog (d : KeyDialog) : Keeps E P d.run :=
  .look_bind (looks_styledWindow _) fun _ => .look_bind (looks_placed _ _ _) fun w =>
    .look_bind looks_keysLeft fun fuel => h.keyDialogLoop d fuel w

theorem showMessage (title text : String) : Keeps E P (showMessage title text) :=
  (h.keyDialog _).discard

variable (d : InputDialog) (kind : Saving) (fuel : Nat) (path : String) (b : TextBox)

theorem inputDialogDraw (w : Window) : Keeps E P (d.draw b w) :=
  .get_bind' fun _ => (h.showWindow _).bind fun _ => .keep

theorem inputDialogLoop (w : Window) : Keeps E P (d.loop fuel b w) := by
  induction fuel generalizing b w with
  | zero => exact .throw h.waiting
  | succ fuel ih =>
    refine h.drawMain.bind fun _ => (h.inputDialogDraw d b w).bind fun w => ?_
    refine h.nextKey.bind fun k => ?_
    split
    · exact h.resizeMain.bind fun _ => .look_bind (looks_placed _ _ _) fun w => ih b w
    · split
      · exact (h.setCursor false).bind fun _ => .keep
      · split
        · exact (h.setCursor false).bind fun _ => .keep
        · exact ih _ _

theorem inputDialog (initial : String) : Keeps E P (d.run initial) :=
  .look_bind (looks_styledWindow _) fun _ => .look_bind (looks_placed _ _ _) fun w =>
    (h.setCursor true).bind fun _ => .look_bind looks_keysLeft fun fuel =>
      h.inputDialogLoop d fuel _ w

/-! ## Saving and quitting -/

theorem saveTo : Keeps E P (saveTo kind path) := by
  refine h.onSession.bind fun saved => ?_
  cases saved with
  | ok text => exact .keep
  | error failed => exact (h.showMessage _ _).bind fun _ => .keep

theorem saveDialog : Keeps E P (saveDialog kind fuel path) := by
  induction fuel generalizing path with
  | zero => exact .throw h.waiting
  | succ fuel ih =>
    refine .look_bind looks_pathInfo fun info => (h.inputDialog _ path).bind fun answer => ?_
    cases answer with
    | none => exact .keep
    | some answer =>
      refine .get_bind' fun u => (h.saveTo kind _).bind fun saved => ?_
      cases saved with
      | some text => exact (h.showMessage _ text).bind fun _ => .keep
      | none => exact ih _

theorem saveAction : Keeps E P (saveAction kind) := by
  refine .get_bind' fun u => .look_bind looks_keysLeft fun fuel => ?_
  refine (h.saveDialog kind fuel _).bind fun saved => ?_
  cases saved with
  | none => exact .keep
  | some path => cases kind <;> exact h.change fun _ => rfl

theorem quitLoop : Keeps E P (quitLoop fuel) := by
  induction fuel with
  | zero => exact .throw h.waiting
  | succ fuel ih =>
    refine (h.keyDialog _).bind fun answer => .get_bind' fun u => ?_
    split
    · refine (h.saveTo .full _).bind fun saved => ?_
      cases saved with
      | some text => exact .keep
      | none => exact ih
    · exact .keep
    · exact .keep

theorem quitDialog : Keeps E P quitDialog := by
  refine .get_bind' fun u => ?_
  split
  · exact .keep
  · exact .look_bind looks_keysLeft fun fuel => h.quitLoop fuel

theorem toggleHelp : Keeps E P toggleHelp :=
  h.change_bind (fun _ => rfl) fun _ => h.resizeMain

/-! ## Information -/

theorem drawLower (p : Panes) (isScrolled : Bool) (lines : List String) :
    Keeps E P (p.drawLower isScrolled lines) :=
  (h.showWindow _).bind fun _ => h.showWindow _

theorem drawInfo (title : String) (lines : List String) (top : Nat) (p : Panes) :
    Keeps E P (drawInfo title lines top p) :=
  (h.showWindow _).bind fun _ => (h.drawLower p _ _).bind fun _ => h.showWindow _

theorem infoLoop (hsearch : ∀ x, search = some x → Keeps E P x)
    (title : String) (lines : List String) (fuel top : Nat) (p : Panes) :
    Keeps E P (infoLoop search title lines fuel top p) := by
  induction fuel generalizing top p with
  | zero => exact .throw h.waiting
  | succ fuel ih =>
    refine (h.drawInfo title lines top p).bind fun _ => h.nextKey.bind fun k => ?_
    split
    · exact ih _ p
    · exact .look_bind (looks_fitInfo p) fun p => ih top p
    · exact ih top p
    · exact .keep
    · cases search with
      | none => exact .keep
      | some x =>
        refine (hsearch x rfl).bind fun jumped => ?_
        split
        · exact .keep
        · exact .look_bind (looks_fitInfo p) fun p => ih top p

theorem infoDialog (hsearch : ∀ x, search = some x → Keeps E P x)
    (i : EntryId) : Keeps E P (infoDialog search i) :=
  .look_bind (looks_styledWindow _) fun _ => .look_bind (looks_styledWindow _) fun _ =>
    .look_bind (looks_styledWindow _) fun _ => .look_bind (looks_styledWindow _) fun _ =>
    .look_bind (looks_fitInfo _) fun p => h.onSession.bind fun _ =>
    .look_bind looks_theModel fun _ => .look_bind looks_keysLeft fun fuel =>
    h.infoLoop hsearch _ _ fuel 0 p

/-! ## Searches -/

theorem drawMatches (s : Scroller) (is : List EntryId) (k : Int) (w : Window) :
    Keeps E P (drawMatches s k is w) := by
  induction is generalizing k w with
  | nil => exact .keep
  | cons i is ih =>
    exact h.onSession.bind fun _ => .get_bind' fun _ => ih _ _

theorem drawSearch (s : Search) (p : Panes) : Keeps E P (drawSearch s p) := by
  have hrest : ∀ body : Window, Keeps E P (do Console.showWindow body; drawSearchFrame s p) :=
    fun body => (h.showWindow body).bind fun _ => (h.drawLower p _ _).bind fun _ =>
      .get_bind' fun _ => h.showWindow _
  unfold Console.drawSearch
  split
  · exact .bind .keep hrest
  · exact (h.drawMatches _ _ _ _).bind hrest

/-! ## Values -/

theorem rangeInfo (x : Item) : Keeps E P (rangeInfo x) := by
  cases x with
  | symbol s => exact h.onSession (x := evaluating (rangeText? s))
  | choice c =>
    refine .look_bind looks_theModel fun m => ?_
    split
    · exact .throw fun u _ => h.fault _ u
    · exact .keep

theorem problemWith? (x : Item) (text : String) : Keeps E P (problemWith? x text) := by
  cases x with
  | symbol s => exact h.onSession (x := evaluating (inputProblem? s text))
  | choice c => exact .keep

end Steady

/-! ## Steps -/

theorem keeps_times (n : Nat) {x : UiM Unit} (hx : Keeps E P x) : Keeps E P (times n x) := by
  unfold times
  generalize List.range n = ks
  induction ks with
  | nil => exact .keep
  | cons k ks ih => exact hx.bind fun _ => ih

/-! ## Moves -/

/-- A property of the states of the display that its basic moves keep. -/
structure Moves (E : Halt → Ui → Prop) (P : Ui → Prop) : Prop where
  steady : Steady E P
  selected : Keeps E P selectedEntry
  assigned : ∀ x text, Keeps E P (assignValue x text)
  assignedNext : ∀ x, Keeps E P (assignNext x)
  assignedSelected : ∀ t, Keeps E P (assignSelected t)
  entered : ∀ i, Keeps E P (enterMenu i)
  left : Keeps E P leaveMenu
  toggled : Keeps E P toggleShowAll
  searched : ∀ box, Keeps E P (searchFor box)
  jumped : ∀ i, Keeps E P (jumpTo i)
  loaded : ∀ path, Keeps E P (loadFrom path)
  next : Keeps E P selectNext
  previous : Keeps E P selectPrevious
  last : ∀ u, P u → P { u with scroller := .last u.shown.length u.menuWindow.height }
  first : ∀ u, P u → P { u with scroller := .first }

namespace Moves

variable (h : Moves E P)

include h

/-! ## Loading -/

theorem loadLoop (fuel : Nat) (path : String) : Keeps E P (loadLoop fuel path) := by
  induction fuel generalizing path with
  | zero => exact .throw h.steady.waiting
  | succ fuel ih =>
    refine .look_bind looks_pathInfo fun info => (h.steady.inputDialog _ path).bind fun answer => ?_
    cases answer with
    | none => exact .keep
    | some answer =>
      refine .get_bind' fun u => (h.loaded _).bind fun loaded => ?_
      cases loaded with
      | error cause => exact (h.steady.showMessage _ _).bind fun _ => ih _
      | ok _ => exact h.steady.showMessage _ _

theorem loadDialog : Keeps E P loadDialog := by
  have hload : ∀ goesOn : Bool, Keeps E P (do
      if goesOn then Console.loadLoop (← keysLeft) (← get).configName) := by
    intro goesOn
    split
    · exact .look_bind looks_keysLeft fun fuel => .get_bind' fun u => h.loadLoop fuel _
    · exact .keep
  refine .get_bind' fun u => ?_
  split
  · exact (h.steady.keyDialog _).bind fun answer => .bind .keep hload
  · exact .bind .keep hload

/-! ## Changing values -/

theorem valueLoop (x : Item) (title : String) (fuel : Nat) (text : String) :
    Keeps E P (valueLoop x title fuel text) := by
  induction fuel generalizing text with
  | zero => exact .throw h.steady.waiting
  | succ fuel ih =>
    refine .look_bind looks_theModel fun m => (h.steady.rangeInfo x).bind fun range => ?_
    refine (h.steady.inputDialog _ text).bind fun answer => ?_
    cases answer with
    | none => exact .keep
    | some answer =>
      refine (h.steady.problemWith? x _).bind fun problem => ?_
      cases problem with
      | none => exact h.assigned x _
      | some p => exact (h.steady.showMessage _ _).bind fun _ => ih _

theorem changeEntry (i : EntryId) : Keeps E P (changeEntry i) := by
  refine h.steady.onSession.bind fun changeable => ?_
  split
  · exact .keep
  · refine .look_bind looks_theModel fun m => ?_
    dsimp only
    cases (m.entry i).subject.item? with
    | none => exact .keep
    | some x =>
      have hrest : Keeps E P (do
          if ← computing (isSelectable x) then
            if (m.childrenOf i).isEmpty then leaveMenu
          return true) := by
        refine h.steady.onSession.bind fun selectable => ?_
        split
        · split
          · exact h.left.bind fun _ => .keep
          · exact .keep
        · exact .keep
      dsimp only
      split
      · refine h.steady.onSession.bind fun value => ?_
        exact .look_bind looks_keysLeft fun fuel => (h.valueLoop x _ fuel value).bind fun _ => hrest
      · exact (h.assignedNext x).bind fun _ => hrest

/-! ## Searches -/

theorem searchLoop (fuel : Nat) (s : Search) (p : Panes) : Keeps E P (searchLoop fuel s p) := by
  induction fuel generalizing s p with
  | zero => exact .throw h.steady.waiting
  | succ fuel ih =>
    have hrefit : Keeps E P (p.fitSearch s.scroller >>= fun fitted =>
        Console.searchLoop fuel { s with scroller := fitted.2 } fitted.1) :=
      .look_bind (looks_fitSearch p _) fun fitted => ih _ fitted.1
    refine (h.steady.drawSearch s p).bind fun _ => h.steady.nextKey.bind fun k => ?_
    dsimp only
    split
    · exact hrefit
    · exact ih _ p
    · exact ih _ p
    · exact ih _ p
    · exact ih _ p
    · exact ih _ p
    · exact ih _ p
    · split
      · -- a match that is chosen is jumped to
        split
        · exact (h.jumped _).bind fun _ => (h.steady.setCursor false).bind fun _ => .keep
        · exact ih s p
      · split
        · exact (h.steady.setCursor false).bind fun _ => .keep
        · split
          · split
            · have hinfo : ∀ i, Keeps E P (infoDialog none i) := h.steady.infoDialog (by simp)
              exact (h.steady.setCursor false).bind fun _ => (hinfo _).bind fun _ =>
                (h.steady.setCursor true).bind fun _ => hrefit
            · exact ih s p
          · split
            · exact ih _ p
            · split
              · exact ih { s with box := _ } p
              · exact (h.searched (s.box.press k (searchWidth p))).bind fun found => ih found p

theorem searchDialog : Keeps E P searchDialog := by
  refine .look_bind (looks_styledWindow _) fun _ => .look_bind (looks_styledWindow _) fun _ =>
    .look_bind (looks_styledWindow _) fun _ => .look_bind (looks_styledWindow _) fun _ =>
    .look_bind (looks_fitSearch _ _) fun fitted => (h.steady.setCursor true).bind fun _ =>
    .look_bind looks_keysLeft fun fuel => ?_
  exact (h.searched {}).bind fun found => h.searchLoop fuel found fitted.1

/-! ## Actions -/

/-- Every action keeps what the basic moves keep. -/
theorem perform (a : Action) : Keeps E P (perform a) := by
  have hdone : ∀ {x : UiM Unit}, Keeps E P x → Keeps E P (do x; return (none : Option String)) :=
    fun hx => hx.bind fun _ => .keep
  cases a with
  | resize => exact hdone h.steady.resizeMain
  | next => exact hdone h.next
  | previous => exact hdone h.previous
  | pageDown => exact hdone (keeps_times _ h.next)
  | pageUp => exact hdone (keeps_times _ h.previous)
  | last => exact hdone (.modify h.last)
  | first => exact hdone (.modify h.first)
  | toggle =>
    refine h.selected.bind fun i => (h.changeEntry i).bind fun changed => ?_
    cases changed with
    | false => exact hdone (h.entered i).discard
    | true => exact .keep
  | enter =>
    refine h.selected.bind fun i => (h.entered i).bind fun entered => ?_
    cases entered with
    | false => exact hdone (h.changeEntry i).discard
    | true => exact .keep
  | assign t => exact hdone (h.assignedSelected t)
  | leave => exact hdone h.left
  | escape =>
    refine .get_bind' fun u => ?_
    split
    · exact h.steady.quitDialog
    · exact hdone h.left
  | load => exact hdone h.loadDialog
  | save => exact hdone (h.steady.saveAction .full)
  | saveMinimal => exact hdone (h.steady.saveAction .minimal)
  | search => exact h.searchDialog.discard.bind fun _ => hdone h.steady.resizeMain
  | info =>
    refine h.selected.bind fun i => (h.steady.infoDialog ?_ i).bind fun _ =>
      hdone h.steady.resizeMain
    rintro x ⟨⟩
    exact h.searchDialog
  | toggleHelp => exact hdone h.steady.toggleHelp
  | toggleName => exact hdone (h.steady.change fun _ => rfl)
  | toggleAll => exact hdone h.toggled
  | quit => exact h.steady.quitDialog

/-- Every step of the display keeps what the basic moves keep. -/
theorem displayStep : Keeps E P displayStep := by
  refine h.steady.drawMain.bind fun _ => h.steady.nextKey.bind fun k => ?_
  cases action? k with
  | none => exact .keep
  | some a => exact h.perform a

/-- Every run of the display keeps what the basic moves keep. -/
theorem mainLoop (fuel : Nat) : Keeps E P (mainLoop fuel) := by
  induction fuel with
  | zero => exact .throw h.steady.waiting
  | succ fuel ih =>
    refine h.displayStep.bind fun message => ?_
    cases message with
    | some text => exact .keep
    | none => exact ih

end Moves

end Buildsmith.Console
