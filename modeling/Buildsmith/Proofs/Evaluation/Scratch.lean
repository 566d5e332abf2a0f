import Buildsmith.Kconfig.ConfigText
import Buildsmith.Proofs.Evaluation.Coherence
import Mathlib.Data.Finset.Card

/-!
# Evaluation from scratch

Evaluation that starts without memory gives a decided outcome only if it is found at some depth.  As
a model has finitely many queries, every outcome that is found at all is found within
`Model.readDepth`.  So evaluation from scratch does not end exactly if no depth suffices.
-/

namespace Buildsmith.Kconfig

open Values Readers Array SymbolId Option

variable {m : Model} {u : Assigned} {q : Query}

/-- States that remember only answers that are found at some depth. -/
structure Witnessed (m : Model) (u : Assigned) (v : Values) : Prop where
  assigned : v.assigned = u
  constants : ∀ q, Model.asksConstant q → (v.recalled? q).isSome
  outcome : ∀ q a, v.recalled? q = some a → ∃ n, m.outcomeWithin u n q = .ok a

variable {v : Values} {a : q.Answer} {n : Nat}

theorem Witnessed.remember (hv : Witnessed m u v)
    (h : m.outcomeWithin u n q = .ok a) (w : Option Bool) : Witnessed m u (v.remember w q a) where
  assigned := by rw [assigned_remember, hv.assigned]
  constants p hp := isSome_recalled?_remember a (hv.constants p hp)
  outcome p b hp := by
    obtain hp | hp := recalled?_remember hp
    · exact hv.outcome p b hp
    · cases hp
      exact ⟨n, h⟩

theorem Witnessed.warned (hv : Witnessed m u v) (ws : List String) :
    Witnessed m u { v with warnings := ws } :=
  ⟨hv.assigned, hv.constants, hv.outcome⟩

/-- States with witnessed memory, and the outcomes at every sufficient depth. -/
def Witnessed.memory (m : Model) (u : Assigned) : Memory u where
  Holds := Witnessed m u
  tables _ := Filter.atTop.map (m.outcomeWithin u)
  Finds e := e ≠ .unbounded
  assigned h := h.assigned
  warned ws h := ⟨h.warned ws, rfl⟩

theorem Witnessed.found_iff {α : Type} {r : Except Fault α} :
    (Witnessed.memory m u).Found r ↔ Decided r := by
  constructor
  · rintro h rfl
    exact h _ rfl rfl
  · rintro h e rfl
    exact decided_error.1 h

theorem eventually_outcomeWithin {r : Except Fault q.Answer} (hr : Decided r)
    (h : m.outcomeWithin u n q = r) : ∀ᶠ k in .atTop, m.outcomeWithin u k q = r := by
  subst h
  exact Filter.eventually_atTop.2 ⟨n, fun k hk => Model.outcomeWithin_le hk hr⟩

theorem exists_outcomeWithin
    (hq : Model.asksConstant q = false) {r : Except Fault (q.Answer × Option Bool)}
    (h : ∀ᶠ k in .atTop, m.infer u true (m.outcomeWithin u k) q = r) :
    ∃ n, m.outcomeWithin u n q = r.map (·.1) := by
  obtain ⟨n, hn⟩ := Filter.eventually_atTop.1 h
  exact ⟨n + 1, by rw [Model.outcomeWithin_eq_infer hq, hn n (Nat.le_refl n)]⟩

theorem answers_outcomeWithin (n : Nat) :
    (Witnessed.memory m u).Answers {m.outcomeWithin u n} m (answerWithin m n) := by
  induction n with
  | zero =>
    refine fun q v hv => ⟨.error .unbounded, v, rfl, hv, le_rfl, fun h => (h _ rfl rfl).elim, ?_⟩
    rintro _ rfl -
    rfl
  | succ n ih =>
    have hconstant : ∀ {v q}, Witnessed m u v → v.recalled? q = none →
        Model.asksConstant q = false := fun hv => asksConstant_eq_false hv.constants
    refine ih.recalling (fun {v q a} hv hq => ?_) (fun {v v' q p} hv hq hv' _ hgives => ?_)
      (fun {v v' q e} hv hq he hgives => ?_) fun {v q} hv hq => ?_
    · obtain ⟨k, hk⟩ := Witnessed.outcome hv q a hq
      refine ⟨eventually_outcomeWithin (decided_ok a) hk, ?_⟩
      rintro _ rfl hfound
      have hn := Model.outcomeWithin_le (Nat.le_max_left (n + 1) k) (Witnessed.found_iff.1 hfound)
      have hk' := Model.outcomeWithin_le (Nat.le_max_right (n + 1) k) (by rw [hk]; exact decided_ok a)
      exact hn.symm.trans (hk'.trans hk)
    · obtain ⟨k, hk⟩ := exists_outcomeWithin (hconstant hv hq) hgives
      exact ⟨Witnessed.remember hv' hk p.2, le_rfl, eventually_outcomeWithin (decided_ok _) hk⟩
    · obtain ⟨k, hk⟩ := exists_outcomeWithin (hconstant hv hq) hgives
      exact eventually_outcomeWithin (decided_error.2 he) hk
    · rintro _ rfl
      exact ⟨_, rfl, Model.outcomeWithin_eq_infer (hconstant hv hq) n⟩

/-! ## Finitely many queries -/

namespace Model

def queries (m : Model) : List Query :=
  (List.range m.symbols.size).flatMap
    (fun i => [.tristate i, .text i, .visibility i, .assignable i]) ++
  (List.range m.choices.size).flatMap
    (fun c => [.mode c, .choiceVisibility c, .selection c, .choiceAssignable c])

theorem mem_queries (h : m.Has q.item) : q ∈ m.queries := by
  simp only [queries, List.mem_append, List.mem_flatMap, List.mem_range]
  cases q with
  | tristate i | text i | visibility i | assignable i => exact .inl ⟨i, h, by simp⟩
  | mode c | choiceVisibility c | selection c | choiceAssignable c => exact .inr ⟨c, h, by simp⟩

theorem length_queries : m.queries.length = 4 * (m.symbols.size + m.choices.size) := by
  simp [queries]
  omega

variable {t : Table}

/-- Whether nothing is said of an item: it is not defined, or not even in the model. -/
def Bare (m : Model) : Item → Prop
  | .symbol i => (m.symbol i).entries = [] ∧ (m.symbol i).choice = none ∧
    ((m.symbol i).kind = .unknown ∨ i ≤ yes ∧ (m.symbol i).kind.isLogical = true)
  | .choice c => (m.choice c).entries = []

theorem bare_of_not_has {x : Item} (h : ¬m.Has x) : m.Bare x := by
  cases x with
  | symbol i =>
    rw [Bare, symbol_of_not_has h]
    exact ⟨rfl, rfl, .inl rfl⟩
  | choice c =>
    rw [Bare, choice_of_not_has h]

variable {c : ChoiceId} {i : SymbolId} {n : Nat}

theorem infer_visibility_of_bare
    (hentries : (m.symbol i).entries = []) (hchoice : (m.symbol i).choice = none) :
    m.infer u true t (.visibility i) = .ok (.no, none) := by
  simp only [infer, answer, freshVisibility, plain_model, hentries, hchoice]
  rfl

theorem infer_tristate_of_unknown (hkind : (m.symbol i).kind = .unknown) :
    m.infer u true t (.tristate i) = .ok (.no, none) := by
  simp only [infer, answer, freshTristate, plain_model, hkind]
  rfl

theorem infer_choiceVisibility_of_bare (hc : (m.choice c).entries = []) :
    m.infer u true t (.choiceVisibility c) = .ok (.no, none) := by
  simp only [infer, answer, freshChoiceVisibility, plain_model, hc]
  rfl

theorem infer_mode_of_invisible (ht : t (.choiceVisibility c) = .ok .no) :
    m.infer u true t (.mode c) = .ok (.no, none) := by
  have hmin : ∀ a : Tristate, min a .no = .no := by
    intro a
    cases a <;> rfl
  refine PlainM.bind_ok_iff.2 ⟨u.mode c, none, rfl, PlainM.bind_ok_iff.2 ⟨.no, none, ?_, ?_⟩⟩
  · exact plain_ask_eq_ok.2 ⟨ht, rfl⟩
  · simp only [hmin]
    rfl

theorem infer_choiceAssignable_of_invisible (ht : t (.choiceVisibility c) = .ok .no) :
    m.infer u true t (.choiceAssignable c) = .ok ([], none) :=
  ask_bind_eq_ok.2 ⟨.no, ht, rfl⟩

theorem outcomeWithin_of_infer (hq : asksConstant q = false) {a : q.Answer} {w : Option Bool}
    (h : m.infer u true (m.outcomeWithin u n) q = .ok (a, w)) :
    m.outcomeWithin u (n + 1) q = .ok a := by
  rw [outcomeWithin_eq_infer hq, h]
  rfl

theorem outcomeWithin_constant
    (hq : asksConstant q) (n : Nat) : ∃ a, m.outcomeWithin u (n + 1) q = .ok a := by
  obtain ⟨a, ha⟩ := isSome_iff_exists.1 (isSome_constant? (m := m) hq)
  exact ⟨a, by simp only [outcomeWithin, deepen, ha]⟩

theorem exists_outcome_of_bare_symbol (hitem : q.item = .symbol i) (h : m.Bare (.symbol i)) :
    ∃ n ≤ 3, ∃ a, m.outcomeWithin u n q = .ok a := by
  obtain ⟨hentries, hchoice, hkind⟩ := h
  have hvis : m.outcomeWithin u 1 (.visibility i) = .ok .no :=
    outcomeWithin_of_infer rfl (infer_visibility_of_bare hentries hchoice)
  have htristate : ∃ x, m.outcomeWithin u 1 (.tristate i) = .ok x := by
    cases hconstant : asksConstant (.tristate i) with
    | true => exact outcomeWithin_constant hconstant 0
    | false =>
      have hlt : ¬i ≤ yes := of_decide_eq_false hconstant
      have hunknown := hkind.resolve_right fun hle => hlt hle.1
      exact ⟨_, outcomeWithin_of_infer hconstant (infer_tristate_of_unknown hunknown)⟩
  cases q <;> cases hitem
  case tristate => exact ⟨1, by decide, htristate⟩
  case text =>
    obtain ⟨x, hx⟩ := htristate
    obtain hunknown | ⟨-, hlogical⟩ := hkind
    · exact ⟨2, by decide, _, outcomeWithin_of_infer rfl (infer_text_of_unknown hunknown)⟩
    · exact ⟨2, by decide, _, outcomeWithin_of_infer rfl
        ((infer_text_of_logical hlogical).2 ⟨_, hx, rfl⟩)⟩
  case visibility => exact ⟨1, by decide, .no, hvis⟩
  case assignable =>
    exact ⟨2, by decide, [], outcomeWithin_of_infer rfl (infer_assignable_of_invisible hvis)⟩

theorem exists_outcome_of_bare_choice (hitem : q.item = .choice c) (h : m.Bare (.choice c)) :
    ∃ n ≤ 3, ∃ a, m.outcomeWithin u n q = .ok a := by
  have hvis : m.outcomeWithin u 1 (.choiceVisibility c) = .ok .no :=
    outcomeWithin_of_infer rfl (infer_choiceVisibility_of_bare h)
  have hmode : m.outcomeWithin u 2 (.mode c) = .ok .no :=
    outcomeWithin_of_infer rfl (infer_mode_of_invisible hvis)
  cases q <;> cases hitem
  case mode => exact ⟨2, by decide, .no, hmode⟩
  case choiceVisibility => exact ⟨1, by decide, .no, hvis⟩
  case selection =>
    exact ⟨3, by decide, none, outcomeWithin_of_infer rfl (infer_selection_of_not_on hmode nofun)⟩
  case choiceAssignable =>
    exact ⟨2, by decide, [], outcomeWithin_of_infer rfl (infer_choiceAssignable_of_invisible hvis)⟩

theorem decided_of_bare (h : m.Bare q.item) : Decided (m.outcomeWithin u 3 q) := by
  have hq : ∃ n ≤ 3, ∃ a, m.outcomeWithin u n q = .ok a := by
    cases hitem : q.item with
    | symbol i => exact exists_outcome_of_bare_symbol hitem (hitem ▸ h)
    | choice c => exact exists_outcome_of_bare_choice hitem (hitem ▸ h)
  obtain ⟨n, hn, a, ha⟩ := hq
  rw [outcomeWithin_le hn (by rw [ha]; exact decided_ok a), ha]
  exact decided_ok a

/-! ## Tables stop growing -/

theorem outcomeWithin_stable {k : Nat} (h : m.outcomeWithin u (n + 1) = m.outcomeWithin u n)
    (hk : n ≤ k) : m.outcomeWithin u k = m.outcomeWithin u n := by
  induction hk with
  | refl => rfl
  | step _ ih =>
    rw [outcomeWithin, ih, ← outcomeWithin, h]

open Classical in
noncomputable def decidedWithin (m : Model) (u : Assigned) (n : Nat) : Finset Query :=
  m.queries.toFinset.filter fun q => Decided (m.outcomeWithin u n q)

theorem decidedWithin_ssubset (hn : 3 ≤ n) (h : m.outcomeWithin u (n + 1) ≠ m.outcomeWithin u n) :
    m.decidedWithin u n ⊂ m.decidedWithin u (n + 1) := by
  obtain ⟨q, hq⟩ : ∃ q, m.outcomeWithin u (n + 1) q ≠ m.outcomeWithin u n q :=
    Function.ne_iff.1 h
  have hundecided : ¬Decided (m.outcomeWithin u n q) :=
    fun hd => hq (outcomeWithin_succ n q hd)
  have hdecided : Decided (m.outcomeWithin u (n + 1) q) := by
    intro hd
    apply hq
    rw [hd]
    exact (not_not.1 hundecided).symm
  have hhas : m.Has q.item := by
    by_contra hhas
    have hthree := decided_of_bare (u := u) (bare_of_not_has hhas)
    exact hundecided (by rwa [outcomeWithin_le hn hthree])
  rw [Finset.ssubset_iff_of_subset]
  · refine ⟨q, ?_, ?_⟩
    · simp [decidedWithin, mem_queries hhas, hdecided]
    · simp [decidedWithin, hundecided]
  · intro p hp
    simp only [decidedWithin, Finset.mem_filter] at hp ⊢
    exact ⟨hp.1, by rw [outcomeWithin_succ n p hp.2]; exact hp.2⟩

theorem card_decidedWithin_le (n : Nat) :
    (m.decidedWithin u n).card ≤ 4 * (m.symbols.size + m.choices.size) := by
  classical
  calc
    (m.decidedWithin u n).card ≤ m.queries.toFinset.card :=
      Finset.card_le_card (Finset.filter_subset _ _)
    _ ≤ m.queries.length := List.toFinset_card_le _
    _ = 4 * (m.symbols.size + m.choices.size) := length_queries

theorem stable_or_le_card (n : Nat) :
    (∃ k ≤ n, m.outcomeWithin u (k + 4) = m.outcomeWithin u (k + 3)) ∨
      n + 1 ≤ (m.decidedWithin u (n + 4)).card := by
  induction n with
  | zero =>
    by_cases h : m.outcomeWithin u 4 = m.outcomeWithin u 3
    · exact .inl ⟨0, Nat.le_refl 0, h⟩
    · have hcard := Finset.card_lt_card (decidedWithin_ssubset (Nat.le_refl 3) h)
      exact .inr (Nat.lt_of_le_of_lt (Nat.zero_le _) hcard)
  | succ n ih =>
    obtain ⟨k, hk, hstable⟩ | hcard := ih
    · exact .inl ⟨k, Nat.le_succ_of_le hk, hstable⟩
    · by_cases h : m.outcomeWithin u (n + 1 + 4) = m.outcomeWithin u (n + 1 + 3)
      · exact .inl ⟨n + 1, Nat.le_refl _, h⟩
      · have hlt := Finset.card_lt_card (decidedWithin_ssubset (by omega) h)
        exact .inr (Nat.lt_of_le_of_lt hcard hlt)

theorem outcomeWithin_readDepth (h : Decided (m.outcomeWithin u n q)) :
    m.outcomeWithin u m.readDepth q = m.outcomeWithin u n q := by
  obtain ⟨k, hk, hstable⟩ | hcard :=
    stable_or_le_card (m := m) (u := u) (4 * (m.symbols.size + m.choices.size))
  · by_cases hn : n ≤ m.readDepth
    · exact outcomeWithin_le hn h
    · have hdepth : k + 3 ≤ m.readDepth := by
        unfold readDepth
        omega
      have hn' : k + 3 ≤ n := by omega
      rw [outcomeWithin_stable hstable hdepth, ← outcomeWithin_stable hstable hn']
  · have hle := card_decidedWithin_le (m := m) (u := u) (4 * (m.symbols.size + m.choices.size) + 4)
    omega

/-- The outcome of a query, if any depth suffices to find it. -/
def outcome (m : Model) (u : Assigned) : Table := m.outcomeWithin u m.readDepth

end Model

theorem runOn_answerTo (q : Query) (v : Values) :
    (answerTo q).runOn m v = (answerWithin m m.readDepth q).runOn m v := by
  rw [answerTo, EvalM.runOn_bind, EvalM.runOn_read]

theorem Witnessed.runOn_answerTo (hv : Witnessed m u v) (q : Query) :
    ((answerTo q).runOn m v).1 = m.outcome u q := by
  obtain ⟨r, v', hrun, -, -, hgives, hbelow⟩ := answers_outcomeWithin m.readDepth q v hv
  rw [Kconfig.runOn_answerTo, hrun]
  by_cases hr : Decided r
  · obtain ⟨n, hn⟩ := Filter.eventually_atTop.1 (hgives (Witnessed.found_iff.2 hr))
    have hn : m.outcomeWithin u n q = r := hn n (Nat.le_refl n)
    rw [Model.outcome, Model.outcomeWithin_readDepth (by rwa [hn]), hn]
  · by_cases ho : Decided (m.outcome u q)
    · exact (hbelow _ rfl (Witnessed.found_iff.2 ho)).symm
    · exact (not_not.1 hr).trans (not_not.1 ho).symm

theorem Coherent.runOn_answerTo (hv : Coherent m u v) (h : m.outcome u q = .ok a) :
    ∃ v', (answerTo q).runOn m v = (.ok a, v') ∧ Coherent m u v' := by
  obtain ⟨r, v', hrun, hv', -, -, hbelow⟩ := answers_settled m.readDepth q v hv
  have hr := hbelow _ rfl (by rintro e he; cases h.symm.trans he)
  rw [Kconfig.runOn_answerTo, hrun, ← hr]
  exact ⟨v', Prod.ext h rfl, hv'⟩

/-!
## Clearing the memory

The rule for the value of a symbol also says whether the symbol is written; in a coherent state its
line is the same whatever else is remembered (`Coherent.runOn_configLine`).

A state is blank if nothing but the constants is remembered in it, as at the start and after all
that was computed has been cleared.  Blank states are coherent, and reading from them is evaluation
from scratch (`Blank.witnessed`).
-/

/-! ## Whether a symbol is written -/

variable {K : Item → Prop} {warns : Bool} {t : Table}

namespace Model

theorem isSome_written_of_infer (hq : m.TellsWritten q) {r : q.Answer × Option Bool}
    (h : m.infer u warns t q = .ok r) : r.2.isSome := by
  have hlinked := @linked_keepsWritten m u warns t (·.isSome)
  cases q with
  | tristate i =>
    obtain ⟨vis, hvis⟩ := tristate_asks_visibility hq h
    rw [infer_tristate_eq hq hvis] at h
    cases hc : (m.symbol i).choice with
    | none =>
      rw [hc] at h
      exact hlinked.plainValue rfl (fun _ _ => trivial) (fun hf => hf.elim) trivial vis _ r rfl h
    | some c =>
      rw [hc] at h
      exact hlinked.memberValue trivial trivial vis _ r rfl h
  | text i =>
    obtain ⟨hl, hk⟩ := hq
    obtain ⟨vis, hvis⟩ := text_asks_visibility hl hk h
    rw [infer_text_eq hl hk hvis] at h
    obtain ⟨text, s, htext, hlast⟩ := PlainM.bind_ok_iff.1 h
    split at hlast
    · cases hlast
      rfl
    · cases hlast
      exact hlinked.plainText rfl (fun _ _ _ _ => trivial) (fun _ _ _ _ => trivial) trivial vis _ _
        rfl htext
  | _ => exact hq.elim

theorem Means.isSome_written (hq : m.TellsWritten q) (hc : asksConstant q = false) {a : q.Answer}
    {w : Option Bool} (h : m.Means u K q a w) : w.isSome := by
  cases h with
  | rule t ws _ _ _ hinfer => exact isSome_written_of_infer hq hinfer
  | fixed hf =>
    cases q with
    | tristate i =>
      have hl : (m.symbol i).kind.isLogical := hq
      simp only [fixed?, fixedTristate?] at hf
      simp only [asksConstant] at hc
      grind [no, mod, yes]
    | text i =>
      obtain ⟨hl, hk⟩ := hq
      simp [fixed?, hl, hk] at hf
    | _ => exact hq.elim

end Model

variable {i : SymbolId} {v' : Values} {a : String}

theorem Coherent.isWritten_eq (hv : Coherent m u v) (hv' : Coherent m u v')
    (hi : m.Has (.symbol i) → (v.recalled? (.text i)).isSome)
    (hi' : m.Has (.symbol i) → (v'.recalled? (.text i)).isSome) :
    (v.symbol i).isWritten = (v'.symbol i).isWritten := by
  cases hn : m.asksNothing (.text i) with
  | true => rw [hv.unwritten i hn, hv'.unwritten i hn]
  | false =>
    have hhas : m.Has (.symbol i) := by
      by_contra hhas
      rw [Model.asksNothing, Model.symbol_of_not_has hhas] at hn
      cases hn
    -- the query that tells of being written is remembered in both states
    obtain ⟨q, hitem, htells, hconstant, hq, hq'⟩ : ∃ q : Query, q.item = .symbol i ∧
        m.TellsWritten q ∧ Model.asksConstant q = false ∧ (v.recalled? q).isSome ∧
        (v'.recalled? q).isSome := by
      cases hl : (m.symbol i).kind.isLogical with
      | true =>
        refine ⟨.tristate i, rfl, hl, ?_, hv.paired i hl (hi hhas), hv'.paired i hl (hi' hhas)⟩
        simpa [Model.asksNothing, Model.asksConstant, hl] using (Bool.or_eq_false_iff.1 hn).2
      | false =>
        refine ⟨.text i, rfl, ⟨hl, ?_⟩, rfl, hi hhas, hi' hhas⟩
        simpa using (Bool.or_eq_false_iff.1 hn).1
    obtain ⟨a, ha⟩ := isSome_iff_exists.1 hq
    obtain ⟨a', ha'⟩ := isSome_iff_exists.1 hq'
    obtain ⟨w, hw, hwritten⟩ := hv.means q a ha
    obtain ⟨w', hw', hwritten'⟩ := hv'.means q a' ha'
    obtain ⟨b, hb⟩ := isSome_iff_exists.1 (hw.isSome_written htells hconstant)
    have hb' : w' = some b := (hw.unique hw').2 ▸ hb
    have hleft := hwritten b hb
    have hright := hwritten' b hb'
    rw [hitem] at hleft hright
    exact hleft.trans hright.symm

theorem Coherent.runOn_symbolText (hv : Coherent m u v) (h : m.outcome u (.text i) = .ok a) :
    ∃ v', (symbolText i).runOn m v = (.ok a, v') ∧ Coherent m u v' ∧
      (m.Has (.symbol i) → (v'.recalled? (.text i)).isSome) := by
  obtain ⟨v', hrun, hv'⟩ := hv.runOn_answerTo h
  refine ⟨v', hrun, hv', fun hi => ?_⟩
  obtain ⟨r, v'', hrun', -, hfound⟩ := answers_answerWithin m.readDepth (.text i) v hv
  rw [Kconfig.runOn_answerTo, hrun'] at hrun
  cases hrun
  exact (hfound a rfl).recalled ((hv'.has_iff _).2 hi) fun c => by simp

/-- The line of a symbol is the same in all coherent states in which its text can be read. -/
theorem Coherent.runOn_configLine (hv : Coherent m u v) (hv' : Coherent m u v')
    (h : m.outcome u (.text i) = .ok a) (lead : String) :
    ((configLine lead i).runOn m v).1 = ((configLine lead i).runOn m v').1 := by
  obtain ⟨x, hrun, hx, hrecall⟩ := hv.runOn_symbolText h
  obtain ⟨x', hrun', hx', hrecall'⟩ := hv'.runOn_symbolText h
  have hwritten := hx.isWritten_eq hx' hrecall hrecall'
  simp only [configLine, EvalM.runOn_bind, EvalM.runOn_read, hrun, hrun',
    EvalM.runOn_symbolState, hwritten]
  split
  · rfl
  · split
    · split <;> rfl
    · split <;> rfl

/-! ## Blank states -/

/-- The state with all that was computed cleared; the values of constants are not computed. -/
def Values.cleared (v : Values) : Values :=
  { v with
    symbols := v.symbols.mapIdx fun i x =>
      { x with
        text := none, tristate := if i ≤ yes then x.tristate else none
        visibility := none, assignable := none, isWritten := false }
    choices := v.choices.map fun x =>
      { x with visibility := none, assignable := none, selection := none } }

/-- A state in which only the constants are remembered. -/
structure Blank (m : Model) (v : Values) : Prop where
  symbols_size : v.symbols.size = m.symbols.size
  choices_size : v.choices.size = m.choices.size
  recalled? : ∀ q, v.recalled? q = m.constant? q
  unwritten : ∀ i, (v.symbol i).isWritten = false

theorem Model.fixed?_of_constant? {q : Query} {a : q.Answer} (h : m.constant? q = some a) :
    m.fixed? q = some (a, none) ∧ m.asksNothing q := by
  have hq : asksConstant q := by
    by_contra hq
    rw [constant?_eq_none (by simpa using hq)] at h
    cases h
  cases q with
  | tristate i =>
    have hi : i ≤ 2 := of_decide_eq_true hq
    match i, hi with
    | 0, _ | 1, _ | 2, _ =>
      cases h
      exact ⟨rfl, rfl⟩
  | _ => cases hq

namespace Blank

theorem coherent (h : Blank m v) : Coherent m v.assigned v where
  assigned := rfl
  symbols_size := h.symbols_size
  choices_size := h.choices_size
  constants q hq := by
    rw [h.recalled?]
    exact Model.isSome_constant? hq
  isOpen q a hq := by
    rw [h.recalled?] at hq
    exact .inr (.inr (Model.fixed?_of_constant? hq).2)
  means q a hq := by
    rw [h.recalled?] at hq
    exact ⟨none, .fixed (Model.fixed?_of_constant? hq).1, nofun⟩
  paired i _ hi := by
    rw [h.recalled?] at hi
    cases hi
  unwritten i _ := h.unwritten i

theorem witnessed (h : Blank m v) : Witnessed m v.assigned v where
  assigned := rfl
  constants := h.coherent.constants
  outcome q a hq := by
    refine ⟨1, ?_⟩
    rw [h.recalled?] at hq
    simp only [Model.outcomeWithin, Model.deepen, hq]

end Blank

theorem Values.symbol_initial (hm : yes < m.symbols.size) (i : SymbolId) :
    (initial m).symbol i = { tristate := m.constant? (.tristate i) } := by
  have hnew : (replicate m.symbols.size ({} : SymbolState)).getD i {} = {} := by
    rw [getD_eq_getD_getElem?, getElem?_replicate]
    split <;> rfl
  have hsize : 0 < m.symbols.size ∧ 1 < m.symbols.size ∧ 2 < m.symbols.size :=
    ⟨Nat.lt_trans (by decide) hm, Nat.lt_trans (by decide) hm, hm⟩
  simp only [symbol, initial, getD_modify, hnew]
  match i with
  | 0 | 1 | 2 | i + 3 =>
    simp [Model.constant?, Model.asksConstant, Model.fixed?, Model.fixedTristate?, no,
      mod, yes, hsize]

theorem Values.choice_initial (c : ChoiceId) : (initial m).choice c = {} := by
  simp only [choice, initial, getD_eq_getD_getElem?, getElem?_replicate]
  split <;> rfl

theorem blank_initial (hm : yes < m.symbols.size) : Blank m (.initial m) where
  symbols_size := by simp [initial]
  choices_size := by simp [initial]
  recalled? q := by
    cases q <;>
      simp only [recalled?, symbol_initial hm, choice_initial] <;> rfl
  unwritten i := by rw [symbol_initial hm]

theorem Values.symbol_cleared (v : Values) (i : SymbolId) :
    v.cleared.symbol i = { v.symbol i with
        text := none, tristate := if i ≤ yes then (v.symbol i).tristate else none
        visibility := none, assignable := none, isWritten := false } := by
  simp only [cleared, symbol, getD_eq_getD_getElem?, getElem?_mapIdx]
  cases v.symbols[i]? with
  | none => simp
  | some x => rfl

theorem Values.choice_cleared (v : Values) (c : ChoiceId) : v.cleared.choice c =
      { v.choice c with visibility := none, assignable := none, selection := none } := by
  simp only [cleared, choice, getD_eq_getD_getElem?, getElem?_map]
  cases v.choices[c]? with
  | none | some x => rfl

theorem Values.assigned_cleared (v : Values) : v.cleared.assigned = v.assigned := by
  simp [assigned, symbol_cleared, choice_cleared]

theorem Coherent.blank_cleared (h : Coherent m u v) : Blank m v.cleared where
  symbols_size := by simp [cleared, h.symbols_size]
  choices_size := by simp [cleared, h.choices_size]
  recalled? q := by
    cases q with
    | tristate i =>
      simp only [recalled?, symbol_cleared]
      split
      · rename_i hi
        have hconstant : Model.asksConstant (.tristate i) := decide_eq_true hi
        obtain ⟨a, ha⟩ := isSome_iff_exists.1 (h.constants _ hconstant)
        obtain ⟨b, hb⟩ := isSome_iff_exists.1 (Model.isSome_constant? (m := m) hconstant)
        obtain ⟨w, hw, -⟩ := h.means _ a ha
        cases hw.eq_fixed (Model.fixed?_of_constant? hb).1
        rw [hb]
        exact ha
      · rename_i hi
        exact (Model.constant?_eq_none (q := .tristate i) (decide_eq_false hi)).symm
    | _ =>
      simp only [recalled?, symbol_cleared, choice_cleared]
      rfl
  unwritten i := by rw [symbol_cleared]

end Buildsmith.Kconfig
