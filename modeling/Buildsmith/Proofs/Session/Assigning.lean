import Buildsmith.Proofs.Session.Replacing

/-!
# Assigning and taking back

A value that is assigned to a symbol without one, and taken back again, leaves no trace in what is
assigned, with one exception: a symbol of a choice that is set to `y` becomes the user's selection
there, and taking its value back does not undo that (`unset_after_set`).
-/

namespace Buildsmith.Kconfig

/-- The choice in which a symbol is selected by a value. -/
def Symbol.pickedBy (x : Symbol) (val : Option UserValue) : Option ChoiceId :=
  if val = some (.tristate .yes) then x.choice else none

namespace Assigned

def having (u : Assigned) (i : SymbolId) (val : Option UserValue) : Assigned :=
  { u with user := Function.update u.user i val }

def picking (u : Assigned) (i : SymbolId) (picked : Option ChoiceId) : Assigned :=
  { u with selection := fun c => if picked = some c then some i else u.selection c }

def offered (m : Model) (u : Assigned) (i : SymbolId) (o : Offer) : Assigned :=
  match (m.symbol i).takes? o with
  | some val => (u.having i (some val)).picking i ((m.symbol i).pickedBy (some val))
  | none => u

variable {u : Assigned} {i : SymbolId}

theorem picking_none (u : Assigned) (i : SymbolId) : u.picking i none = u := by
  simp [picking]

theorem having_having (u : Assigned) (i : SymbolId) (x y : Option UserValue) :
    (u.having i x).having i y = u.having i y := by
  simp [having]

theorem having_self {x : Option UserValue} (h : u.user i = x) : u.having i x = u := by
  subst h
  simp [having]

theorem having_offered (m : Model) (h : u.user i = none) (o : Offer) :
    (offered m u i o).having i none =
      u.picking i ((m.symbol i).pickedBy ((m.symbol i).takes? o)) := by
  unfold offered
  cases (m.symbol i).takes? o with
  | none => exact (having_self h).trans (picking_none u i).symm
  | some val =>
    show ((u.having i _).having i none).picking i _ = _
    rw [having_having, having_self h]

end Assigned

/-! ## What operations do to what is assigned -/

section Steps

variable {m : Model} {v : Values} {i : SymbolId}

theorem assigned_modifySymbol {f : SymbolState → SymbolState}
    (hi : i < v.symbols.size ∨ (f {}).user = none ∧ (f {}).wasSet = false) :
    (v.modifySymbol i f).assigned = v.assigned.having i (f (v.symbol i)).user := by
  injection ledger_modifySymbol hi with huser _ hmode hselection _
  simp only [Values.assigned, huser]
  rfl

theorem Ledger.assigned_put (L : Ledger) (i : SymbolId) (x : UserValue) :
    (⟨(L.put m i x).user, (L.put m i x).mode, (L.put m i x).selection⟩ : Assigned) =
      ((⟨L.user, L.mode, L.selection⟩ : Assigned).having i (some x)).picking i
        ((m.symbol i).pickedBy (some x)) := by
  unfold Ledger.put Symbol.pickedBy
  split
  · rename_i c hchoice
    rw [hchoice]
    simp [Assigned.having, Assigned.picking, Function.update_apply, funext_iff, eq_comm]
  · rename_i x _ _ hother
    have hpicked : (if some x = some (.tristate .yes) then (m.symbol i).choice else none) =
        none := by
      split
      · rename_i hx
        exact Option.eq_none_iff_forall_ne_some.2 fun c hchoice =>
          hother c hchoice (Option.some.inj hx)
      · rfl
    rw [hpicked]
    rfl

theorem assigned_setSymbol (h : Valid m v) (hi : i < m.symbols.size)
    (hc : ∀ c, (m.symbol i).choice = some c → c < m.choices.size) (warns : Bool) (o : Offer) :
    ((setSymbol warns i o).runOn m v).2.assigned = v.assigned.offered m i o := by
  obtain ⟨b, v', hrun, hcases⟩ := runOn_offer h hi hc warns o
  rw [hrun, Assigned.offered]
  obtain hledger | ⟨hnothing, rfl⟩ := hcases
  · have hassigned : v'.assigned = ⟨v'.ledger.user, v'.ledger.mode, v'.ledger.selection⟩ := rfl
    rw [hassigned, hledger]
    cases (m.symbol i).takes? o with
    | none => rfl
    | some x => exact Ledger.assigned_put v.ledger i x
  · have hrefused : (m.symbol i).takes? o = none := by
      rw [Symbol.takes?, hnothing]
      cases (m.symbol i).kind <;> rfl
    simp only [hrefused, assigned_modifySymbol (.inl (h.symbols_size ▸ hi))]
    exact Assigned.having_self rfl

theorem assigned_unsetSymbol (warns : Bool) (i : SymbolId) (v : Values) :
    ((unsetSymbol warns i).runOn m v).2.assigned = v.assigned.having i none := by
  obtain ⟨v', hrun, hsame⟩ := unsetSymbol_cases (m := m) warns i v
  rw [hrun, assigned_eq_of_ledger hsame.ledger, assigned_modifySymbol (.inr ⟨rfl, rfl⟩)]

theorem assigned_evaluating {α : Type} (x : EvalM α) (s : Session) :
    (runFrom (evaluating x) s).2.values.assigned = (x.runOn s.model s.values).2.assigned := by
  rw [runFrom_evaluating_eq]
  rfl

end Steps

/-! ## In sessions -/

variable {w : Workspace} {p : LoadOptions} {s : Session} {r : Reading} {i : SymbolId}

theorem assigned_after_setSymbol
    (hopen : openSession w p = (.ok s, r)) (actions : List Action) (hi : i < s.model.symbols.size)
    (warns : Bool) (o : Offer) : (s.after (actions ++ [.setSymbol warns i o])).values.assigned =
      (s.after actions).values.assigned.offered s.model i o := by
  obtain ⟨hloaded, -⟩ := loaded_of_openSession hopen
  have hvalid := valid_after hopen actions
  rw [Session.after_append, Action.run, runFrom_discard_snd, assigned_evaluating, hvalid.model,
    assigned_setSymbol hvalid.values hi fun _ => hloaded.wellFormed.choice_lt]

/-- A value that is assigned to a symbol without one and taken back leaves the values, modes and
selections of users as they were, except that a symbol of a choice that was set to `y` stays selected
there.  With sane choices all that evaluation can answer is then answered as before, unless this is so
and the mode of the choice is `y`; in that case the symbol, if visible, is the selection. -/
theorem unset_after_set (hopen : openSession w p = (.ok s, r)) (actions : List Action)
    (hi : i < s.model.symbols.size) (hnone : (s.after actions).values.assigned.user i = none)
    (warns warns' : Bool) (o : Offer) : let before := s.after actions
    let back := s.after (actions ++ [.setSymbol warns i o, .unsetSymbol warns' i])
    let picked := (s.model.symbol i).pickedBy ((s.model.symbol i).takes? o)
    back.values.assigned = before.values.assigned.picking i picked ∧
    (s.model.ChoicesSane →
      ((∀ c, picked = some c → ¬before.cleared.Reads (.mode c) .yes) →
        ∀ q a, before.cleared.Reads q a → before.Reads q a ∧ back.Reads q a) ∧
      ∀ c, picked = some c → back.cleared.Reads (.mode c) .yes →
        ∀ vis, back.cleared.Reads (.visibility i) vis → vis ≠ .no →
          back.Reads (.selection c) (some i)) := by
  intro before back picked
  have hback : back = (runFrom (Action.unsetSymbol warns' i).run
      (s.after (actions ++ [.setSymbol warns i o]))).2 := by
    show s.after (actions ++ ([_] ++ [_])) = _
    rw [← List.append_assoc, Session.after_append]
  have hassigned : back.values.assigned = before.values.assigned.picking i picked := by
    rw [hback, Action.run, assigned_evaluating, assigned_unsetSymbol,
      assigned_after_setSymbol hopen actions hi, Assigned.having_offered s.model hnone]
  refine ⟨hassigned, fun hsane => ?_⟩
  have hbefore : s.Over (Sound s.model) before := sound_after hopen hsane actions
  have hafter : s.Over (Sound s.model) back := sound_after hopen hsane _
  refine ⟨fun hoff q a ha => ?_, fun c hc hmode vis hvis hne => ?_⟩
  · have houtcome := (reads_cleared_iff hbefore).1 ha
    refine ⟨reads_of_outcome hbefore houtcome, reads_of_outcome hafter ?_⟩
    rw [hassigned]
    refine Model.outcome_of_agrees (fun x => ?_) houtcome
    cases x with
    | symbol j => exact .inr (.inl rfl)
    | choice c =>
      by_cases hc : picked = some c
      · exact .inr (.inr ⟨c, rfl, rfl, fun hmode => hoff c hc ((reads_cleared_iff hbefore).2 hmode)⟩)
      · exact .inr (.inl ⟨rfl, (if_neg hc).symm⟩)
  · have hselected : back.values.assigned.selection c = some i := by
      rw [hassigned]
      exact if_pos hc
    have hinfer := Model.infer_selection_of_user (m := s.model)
      ((reads_cleared_iff hafter).1 hmode) hselected ((reads_cleared_iff hafter).1 hvis) hne
    refine reads_of_outcome hafter ?_
    rw [Model.outcome_eq_infer (Model.constant?_eq_none rfl), hinfer]
    rfl

/-- The second symbol of a choice is set to `y` and the value is taken back. -/
def tryOutSecond : List Action := [.setSymbol true 5 (.number 2), .unsetSymbol true 5]

/-- The second symbol stays selected, where the first one was before. -/
theorem unset_after_set_second :
    ∃ s r, openSession choiceWorkspace {} = (.ok s, r) ∧ s.Reads (.selection 0) (some 4) ∧
      (s.after tryOutSecond).values.assigned = s.values.assigned.picking 5 (some 0) ∧
      (s.after tryOutSecond).Reads (.selection 0) (some 5) := by
  obtain ⟨s, r, hopen, hrun⟩ := exists_of_opensTo choiceWorkspace (fun s =>
      decide s.model.ChoicesSane && decide (5 < s.model.symbols.size) &&
      decide (s.values.assigned.user 5 = none) &&
      decide ((s.model.symbol 5).pickedBy ((s.model.symbol 5).takes? (.number 2)) = some 0) &&
      (runFrom (Observation.ask (.selection 0)).read s).1.toOption == some (some 4) &&
      (runFrom (Observation.ask (.mode 0)).read (s.after tryOutSecond).cleared).1.toOption ==
        some .yes &&
      (runFrom (Observation.ask (.visibility 5)).read (s.after tryOutSecond).cleared).1.toOption ==
        some .yes)
    (by decide +kernel)
  simp only [Bool.and_eq_true, decide_eq_true_eq, beq_iff_eq] at hrun
  obtain ⟨⟨⟨⟨⟨⟨hsane, hi⟩, hnone⟩, hpicked⟩, hbefore⟩, hmode⟩, hvis⟩ := hrun
  obtain ⟨hassigned, hreads⟩ := unset_after_set hopen [] hi hnone true true (.number 2)
  rw [hpicked] at hassigned hreads
  exact ⟨s, r, hopen, eq_ok_of_toOption hbefore, hassigned, (hreads hsane).2 0 rfl
    (eq_ok_of_toOption hmode) .yes (eq_ok_of_toOption hvis) (by simp)⟩

end Buildsmith.Kconfig
