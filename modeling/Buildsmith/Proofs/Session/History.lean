import Buildsmith.Proofs.Assignment.Wiring
import Buildsmith.Proofs.Session.Loading

/-!
# Histories of sessions

After a description is opened, values are assigned, taken back, loaded from files and read, in any
order.  Whatever has happened, reading gives what it would give if all that was computed before had
been cleared (`read_after_of_read_cleared`).
-/

namespace Buildsmith.Kconfig

/-- What can be read in a session: the answer to a query, or the line of a symbol in configuration
files. -/
inductive Observation where
  | ask (q : Query)
  | line (i : SymbolId)

abbrev Observation.Answer : Observation → Type
  | ask q => q.Answer
  | line _ => String

def Observation.read : (x : Observation) → SessionM x.Answer
  | ask q => evaluating (answerTo q)
  | line i => do evaluating (configLine (← get).reading.symbolLead i)

inductive Action where
  | setSymbol (warns : Bool) (i : SymbolId) (o : Offer)
  | unsetSymbol (warns : Bool) (i : SymbolId)
  | setChoice (c : ChoiceId) (o : Offer)
  | unsetChoice (c : ChoiceId)
  | unsetAll
  | load (path : Option String) (replaces : Bool)
  | read (x : Observation)

def Action.run : Action → SessionM Unit
  | setSymbol warns i o => discard (evaluating (Kconfig.setSymbol warns i o))
  | unsetSymbol warns i => evaluating (Kconfig.unsetSymbol warns i)
  | setChoice c o => discard (evaluating (Kconfig.setChoice c o))
  | unsetChoice c => evaluating (Kconfig.unsetChoice c)
  | unsetAll => evaluating Kconfig.unsetAll
  | load path replaces => discard (loadConfig path replaces)
  | read x => discard x.read

/-- The session after some actions, each of which may have failed. -/
def Session.after (s : Session) (actions : List Action) : Session :=
  actions.foldl (fun s a => (runFrom a.run s).2) s

theorem Session.after_append (s : Session) (actions : List Action) (a : Action) :
    s.after (actions ++ [a]) = (runFrom a.run (s.after actions)).2 := by
  simp [Session.after]

def Session.cleared (s : Session) : Session := { s with values := s.values.cleared }

variable {m : Model} {P : Values → Prop} {S s : Session}

/-! ## What actions keep -/

namespace KeptByLoading

theorem configLine (h : KeptByLoading m P) (lead : String) (i : SymbolId) :
    EvalM.Keeps m P (configLine lead i) := by
  refine .bind (fun _ hv => hv) fun m' => ?_
  refine .bind (h.answerTo (.text i)) fun val => ?_
  refine .bind (fun _ hv => hv) fun state => ?_
  split
  · exact .pure _
  · split
    · split <;> exact .pure _
    · split <;> exact .pure _

theorem read (h : KeptByLoading S.model P) (x : Observation) :
    Preserves (Session.Over S P) x.read := by
  cases x with
  | ask q =>
    have hanswer : EvalM.Keeps S.model P (Kconfig.answerTo q) := h.answerTo q
    rw [Observation.read]
    exact h.evaluating hanswer
  | line i =>
    exact .get_bind' fun s => h.evaluating (h.configLine _ i)

end KeptByLoading

namespace Kept

theorem run (h : Kept S.model P) (a : Action) : Preserves (Session.Over S P) a.run := by
  cases a <;> rw [Action.run]
  case setSymbol warns i o => exact (h.evaluating (h.setSymbol warns i o)).discard
  case unsetSymbol warns i => exact h.evaluating (h.unsetSymbol warns i)
  case setChoice c o => exact (h.evaluating (h.setChoice c o)).discard
  case unsetChoice c => exact h.evaluating (h.unsetChoice c)
  case unsetAll => exact h.evaluating h.unsetAll
  case load path replaces => exact (h.loadConfig path replaces).discard
  case read x => exact (h.byLoading.read x).discard

theorem after (h : Kept S.model P) (hs : S.Over P s) (actions : List Action) :
    S.Over P (s.after actions) :=
  List.foldlRecOn actions _ (motive := Session.Over S P) hs fun s hs a _ => preserves_iff.1 (h.run a) s hs

end Kept

theorem Sound.kept (hm : m.Wired) : Kept m (Sound m) where
  warned _ ws h := h.warned ws
  same _ _ hsame hassigned h := h.of_same hsame hassigned
  answerTo q _ h := h.answerTo q
  setSymbol warns i o _ h := h.setSymbol hm warns i o
  setChoice c o _ h := h.setChoice hm c o
  unsetSymbol warns i _ h := h.unsetSymbol hm warns i
  unsetChoice c _ h := h.unsetChoice hm c

theorem sound_initial (hm : SymbolId.yes < m.symbols.size) : Sound m (.initial m) := by
  refine ⟨(blank_initial hm).coherent, fun c i hi => ?_⟩
  simp only [Values.assigned, Values.choice_initial] at hi
  cases hi

/-! ## Reading -/

theorem runFrom_evaluating {α : Type} (x : EvalM α) (s : Session) :
    (runFrom (evaluating x) s).1 = (x.runOn s.model s.values).1 := by
  rw [runFrom_evaluating_eq]

theorem Blank.outcome_of_configLine {v : Values} (hv : Blank m v) {lead : String} {i : SymbolId}
    {a : String} (h : ((configLine lead i).runOn m v).1 = .ok a) :
    ∃ b, m.outcome v.assigned (.text i) = .ok b := by
  rw [← hv.witnessed.runOn_answerTo]
  simp only [configLine, EvalM.runOn_bind, EvalM.runOn_read] at h
  rcases hrun : (symbolText i).runOn m v with ⟨r, v'⟩
  rw [hrun] at h
  have hrun' : ((answerTo (.text i)).runOn m v).1 = r := congrArg Prod.fst hrun
  cases r with
  | error e => cases h
  | ok b => exact ⟨b, hrun'⟩

theorem Sound.read_of_cleared (h : S.Over (Sound S.model) s) (x : Observation) {a : x.Answer}
    (hcleared : (runFrom x.read s.cleared).1 = .ok a) : (runFrom x.read s).1 = .ok a := by
  have hmodel : s.cleared.model = S.model := h.model
  have hcoherent := h.values.coherent
  have hblank : Blank S.model s.cleared.values := hcoherent.blank_cleared
  have hassigned : s.cleared.values.assigned = s.values.assigned := s.values.assigned_cleared
  cases x with
  | ask q =>
    rw [Observation.read, runFrom_evaluating] at hcleared ⊢
    rw [hmodel, hblank.witnessed.runOn_answerTo, hassigned] at hcleared
    obtain ⟨v, hrun, -⟩ := hcoherent.runOn_answerTo hcleared
    rw [h.model, hrun]
  | line i =>
    have hread : ∀ t : Session, (runFrom (Observation.line i).read t).1 =
        ((configLine t.reading.symbolLead i).runOn t.model t.values).1 :=
      fun t => runFrom_evaluating (configLine t.reading.symbolLead i) t
    rw [hread, hmodel] at hcleared
    rw [hread, h.model]
    obtain ⟨b, hb⟩ := hblank.outcome_of_configLine hcleared
    have hcoherent' := hassigned ▸ hblank.coherent
    rw [hassigned] at hb
    rw [← hcleared]
    exact hcoherent.runOn_configLine hcoherent' hb _

theorem sound_after {w : Workspace} {o : LoadOptions} {s : Session} {r : Reading}
    (hopen : openSession w o = (.ok s, r)) (hsane : s.model.ChoicesSane) (actions : List Action) :
    s.Over (Sound s.model) (s.after actions) := by
  obtain ⟨hloaded, hvalues⟩ := loaded_of_openSession hopen
  have hstart : s.Over (Sound s.model) s :=
    ⟨rfl, hvalues ▸ sound_initial hloaded.wellFormed.lt_size⟩
  exact (Sound.kept (hloaded.wired hsane)).after hstart actions

/-- After any actions on a session whose choices are sane, reading gives what it gives once all that
was computed is cleared. -/
theorem read_after_of_read_cleared {w : Workspace} {o : LoadOptions} {s : Session} {r : Reading}
    (hopen : openSession w o = (.ok s, r)) (hsane : s.model.ChoicesSane) (actions : List Action)
    (x : Observation) {a : x.Answer}
    (hcleared : (runFrom x.read (s.after actions).cleared).1 = .ok a) :
    (runFrom x.read (s.after actions)).1 = .ok a :=
  Sound.read_of_cleared (sound_after hopen hsane actions) x hcleared

/-- A choice between two symbols. -/
def choiceWorkspace : Workspace :=
  { files := { entries := [(["Kconfig"],
      .file "choice\n\tprompt \"c\"\nconfig A\n\tbool \"a\"\nconfig B\n\tbool \"b\"\nendchoice\n".toUTF8)] } }

/-- The first symbol of the choice is read, and then the second one is selected. -/
def selectSecond : List Action := [.read (.ask (.tristate 4)), .setSymbol true 5 (.number 2)]

/-- After the second symbol is selected, reading the first one gives `n` instead of `y`. -/
theorem read_after_selectSecond :
    ∃ s r, openSession choiceWorkspace {} = (.ok s, r) ∧ s.model.ChoicesSane ∧
      (runFrom (Observation.ask (.tristate 4)).read s).1 = .ok .yes ∧
      (runFrom (Observation.ask (.tristate 4)).read (s.after selectSecond)).1 = .ok .no := by
  obtain ⟨s, r, hopen, hrun⟩ := exists_of_opensTo choiceWorkspace (fun s =>
      decide s.model.ChoicesSane &&
      (runFrom (Observation.ask (.tristate 4)).read s).1.toOption == some .yes &&
      (runFrom (Observation.ask (.tristate 4)).read
        (s.after selectSecond).cleared).1.toOption == some .no)
    (by decide +kernel)
  simp only [Bool.and_eq_true, decide_eq_true_eq, beq_iff_eq] at hrun
  obtain ⟨⟨hsane, hfirst⟩, hcleared⟩ := hrun
  exact ⟨s, r, hopen, hsane, eq_ok_of_toOption hfirst, read_after_of_read_cleared hopen hsane
    selectSecond (.ask (.tristate 4)) (eq_ok_of_toOption hcleared)⟩

end Buildsmith.Kconfig
