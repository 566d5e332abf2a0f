import Buildsmith.Proofs.Evaluation.Members
import Buildsmith.Proofs.Session.History

/-!
# Choices are exclusive

Whatever has happened in a session, the symbols of a choice exclude each other as its mode demands
(`choice_exclusive`).  Reads in a session give the outcomes of evaluation from scratch, and these
balance, so that the rules of the choice and of its symbols can be combined.
-/

namespace Buildsmith.Kconfig

def Session.Reads (s : Session) (q : Query) (a : q.Answer) : Prop :=
  (runFrom (Observation.ask q).read s).1 = .ok a

def Session.Finds {α : Type} (s : Session) (x : EvalM α) (a : α) : Prop :=
  (runFrom (evaluating x) s).1 = .ok a

/-- Whether evaluation from scratch answers every query. -/
def Session.Evaluates (s : Session) : Prop :=
  ∀ q, ∃ a, s.cleared.Reads q a

variable {S s : Session} {q : Query}

theorem reads_cleared_iff (h : S.Over (Sound S.model) s) {a : q.Answer} :
    s.cleared.Reads q a ↔ S.model.outcome s.values.assigned q = .ok a := by
  have hmodel : s.cleared.model = S.model := h.model
  have hblank : Blank S.model s.cleared.values := h.values.coherent.blank_cleared
  have hassigned : s.cleared.values.assigned = s.values.assigned := s.values.assigned_cleared
  rw [Session.Reads, Observation.read, runFrom_evaluating, hmodel,
    hblank.witnessed.runOn_answerTo, hassigned]

theorem reads_of_outcome (h : S.Over (Sound S.model) s) {a : q.Answer}
    (ha : S.model.outcome s.values.assigned q = .ok a) : s.Reads q a :=
  Sound.read_of_cleared h (.ask q) ((reads_cleared_iff h).2 ha)

theorem exists_outcome (h : S.Over (Sound S.model) s) (hs : s.Evaluates) (q : Query) :
    ∃ a, S.model.outcome s.values.assigned q = .ok a := by
  obtain ⟨a, ha⟩ := hs q
  exact ⟨a, (reads_cleared_iff h).1 ha⟩

theorem Session.Reads.eq_of_outcome (h : S.Over (Sound S.model) s) {a b : q.Answer}
    (ha : s.Reads q a) (hb : S.model.outcome s.values.assigned q = .ok b) : a = b :=
  Except.ok.inj (ha.symm.trans (reads_of_outcome h hb))

theorem evaluates_of_queries
    (h : S.Over (Sound S.model) s) (hs : ∀ q ∈ S.model.queries, ∃ a, s.cleared.Reads q a) : s.Evaluates := by
  intro q
  by_cases hq : S.model.Has q.item
  · exact hs q (Model.mem_queries hq)
  · have hbare := Model.bare_of_not_has hq
    have hfound : ∃ n ≤ 3, ∃ a, S.model.outcomeWithin s.values.assigned n q = .ok a := by
      cases hitem : q.item with
      | symbol i => exact Model.exists_outcome_of_bare_symbol hitem (hitem ▸ hbare)
      | choice c => exact Model.exists_outcome_of_bare_choice hitem (hitem ▸ hbare)
    obtain ⟨n, -, a, ha⟩ := hfound
    refine ⟨a, (reads_cleared_iff h).2 ?_⟩
    rw [Model.outcome_of_decided (by rw [ha]; exact decided_ok a), ha]

theorem chooses_outcome (hm : S.model.Loaded) (hsane : S.model.ChoicesSane) {c : ChoiceId}
    (hc : c ∈ S.model.uniqueChoices) (hsymbols : ∀ i ∈ (S.model.choice c).symbols,
      (S.model.symbol i).kind.isLogical ∧ (S.model.symbol i).choice = some c)
    (h : S.Over (Sound S.model) s) (hs : s.Evaluates) :
    S.model.Chooses s.values.assigned (S.model.outcome s.values.assigned) c where
  toBalanced := Model.balanced_outcome S.model _
  answers := exists_outcome h hs
  symbols i hi := by
    have hdefined := hm.wellFormed.membersDefined c i hi
    exact ⟨hm.wellFormed.yes_lt_of_defined hdefined, hsymbols i hi⟩
  prompts i hi := hm.under_choice hsane (hsymbols i hi).2
  users i hi := (hm.wellFormed.members i c (h.values.members c i hi)).2
  defaults d hd i hi := by
    have hmember := hsane.defaults c hc d hd
    rw [hi] at hmember
    exact (hm.wellFormed.members i c (of_decide_eq_true hmember)).2

/-- The symbols of a choice exclude each other.  With mode `y` exactly one of them is `y`, the
selection, if any is visible, and all are `n` otherwise; with mode `m` none is `y`; with mode `n` all
are `n`. -/
theorem choice_exclusive
    {w : Workspace} {o : LoadOptions} {s : Session} {r : Reading}
    (hopen : openSession w o = (.ok s, r)) (hsane : s.model.ChoicesSane)
    {c : ChoiceId} (hc : c ∈ s.model.uniqueChoices)
    (hsymbols : ∀ i ∈ (s.model.choice c).symbols,
      (s.model.symbol i).kind.isLogical = true ∧ (s.model.symbol i).choice = some c)
    (actions : List Action) (hevaluates : (s.after actions).Evaluates) :
    ∃ mode, (s.after actions).Reads (.mode c) mode ∧
      (mode = .yes →
        (∃ i ∈ (s.model.choice c).symbols, ∃ vis, (s.after actions).Reads (.visibility i) vis ∧
          vis ≠ .no) →
        ∃ i ∈ (s.model.choice c).symbols,
          (s.after actions).Reads (.selection c) (some i) ∧
          (s.after actions).Reads (.tristate i) .yes ∧
          ∀ j ∈ (s.model.choice c).symbols, j ≠ i → (s.after actions).Reads (.tristate j) .no) ∧
      (mode = .yes →
        (∀ i ∈ (s.model.choice c).symbols, (s.after actions).Reads (.visibility i) .no) →
        (s.after actions).Reads (.selection c) none ∧
          ∀ i ∈ (s.model.choice c).symbols, (s.after actions).Reads (.tristate i) .no) ∧
      (mode = .mod →
        ∀ i ∈ (s.model.choice c).symbols, ∃ x, (s.after actions).Reads (.tristate i) x ∧ x ≠ .yes) ∧
      (mode = .no → ∀ i ∈ (s.model.choice c).symbols, (s.after actions).Reads (.tristate i) .no) := by
  obtain ⟨hloaded, -⟩ := loaded_of_openSession hopen
  have hsound := sound_after hopen hsane actions
  have hchooses := chooses_outcome hloaded hsane hc hsymbols hsound hevaluates
  have hread : ∀ {q} {a : q.Answer},
      s.model.outcome (s.after actions).values.assigned q = .ok a → (s.after actions).Reads q a :=
    reads_of_outcome hsound
  obtain ⟨mode, hmode⟩ := hchooses.answers (.mode c)
  obtain ⟨a, ha⟩ := hchooses.answers (.selection c)
  refine ⟨mode, hread hmode, ?_, ?_, ?_, ?_⟩
  · rintro rfl ⟨i, hi, vis, hvis, hne⟩
    obtain ⟨hsome, hnone⟩ :=
      hchooses.selection_of_on hmode hchooses.users hchooses.defaults ha
    cases a with
    | none => exact absurd (hvis.eq_of_outcome hsound (hnone rfl i hi)) hne
    | some j =>
      obtain ⟨hj, -⟩ := hsome j rfl
      refine ⟨j, hj, hread ha, hread ?_, fun l hl hlj => hread ?_⟩
      · rw [hchooses.tristate_of_on hmode ha hj, if_pos rfl]
      · rw [hchooses.tristate_of_on hmode ha hl, if_neg fun h => hlj (Option.some.inj h).symm]
  · rintro rfl hhidden
    obtain ⟨hsome, -⟩ := hchooses.selection_of_on hmode hchooses.users hchooses.defaults ha
    cases a with
    | none =>
      refine ⟨hread ha, fun i hi => hread ?_⟩
      rw [hchooses.tristate_of_on hmode ha hi, if_neg nofun]
    | some j =>
      obtain ⟨hj, vis, hvis, hne⟩ := hsome j rfl
      exact absurd ((hhidden j hj).eq_of_outcome hsound hvis).symm hne
  · rintro rfl i hi
    obtain ⟨x, hx, hne⟩ := hchooses.tristate_of_mod hmode hi
    exact ⟨x, hread hx, hne⟩
  · rintro rfl i hi
    exact hread (hchooses.tristate_of_off hmode hi)

/-- In the choice of which the second symbol is selected, that symbol is `y` and the other is `n`. -/
theorem choice_exclusive_selectSecond :
    ∃ s r, openSession choiceWorkspace {} = (.ok s, r) ∧
      (s.after selectSecond).Reads (.mode 0) .yes ∧
      ∃ i ∈ (s.model.choice 0).symbols,
        (s.after selectSecond).Reads (.selection 0) (some i) ∧
        (s.after selectSecond).Reads (.tristate i) .yes ∧
        ∀ j ∈ (s.model.choice 0).symbols, j ≠ i → (s.after selectSecond).Reads (.tristate j) .no := by
  obtain ⟨s, r, hopen, hrun⟩ := exists_of_opensTo choiceWorkspace (fun s =>
      decide s.model.ChoicesSane && decide (0 ∈ s.model.uniqueChoices) &&
      decide (4 ∈ (s.model.choice 0).symbols) &&
      (s.model.choice 0).symbols.all (fun i => (s.model.symbol i).kind.isLogical &&
        (s.model.symbol i).choice == some 0) &&
      s.model.queries.all (fun q =>
        (runFrom (Observation.ask q).read (s.after selectSecond).cleared).1.isOk) &&
      (runFrom (Observation.ask (.mode 0)).read (s.after selectSecond)).1.toOption == some .yes &&
      (runFrom (Observation.ask (.visibility 4)).read (s.after selectSecond)).1.toOption ==
        some .yes)
    (by decide +kernel)
  simp only [Bool.and_eq_true, decide_eq_true_eq, List.all_eq_true, beq_iff_eq] at hrun
  obtain ⟨⟨⟨⟨⟨⟨hsane, hc⟩, hfirst⟩, hsymbols⟩, hqueries⟩, hmode⟩, hvis⟩ := hrun
  have hevaluates : (s.after selectSecond).Evaluates := by
    refine evaluates_of_queries (sound_after hopen hsane selectSecond) fun q hq => ?_
    exact exists_eq_ok_of_isOk (hqueries q hq)
  obtain ⟨mode, hread, hyes, -⟩ :=
    choice_exclusive hopen hsane hc hsymbols selectSecond hevaluates
  have hon : mode = .yes := Except.ok.inj (hread.symm.trans (eq_ok_of_toOption hmode))
  have hvisible : (s.after selectSecond).Reads (.visibility 4) .yes := eq_ok_of_toOption hvis
  exact ⟨s, r, hopen, hon ▸ hread, hyes hon ⟨4, hfirst, .yes, hvisible, by simp⟩⟩

end Buildsmith.Kconfig
