import Buildsmith.Proofs.Evaluation.Meaning

/-!
# Running computations of values

What a computation of values does to a state: the outcome and the state that is reached.  The state
of an item is read back after each of the changes that evaluation and assignment make.
-/

namespace Buildsmith.Kconfig

variable {α β : Type} {m : Model} {v : Values}

def EvalM.runOn (x : EvalM α) (m : Model) (v : Values) : Except Fault α × Values :=
  ((x.run m).run).run v

namespace EvalM

@[simp]
theorem runOn_pure (a : α) : (pure a : EvalM α).runOn m v = (.ok a, v) := rfl

@[simp]
theorem runOn_throw (e : Fault) : (throw e : EvalM α).runOn m v = (.error e, v) := rfl

@[simp]
theorem runOn_modify (f : Values → Values) :
    (modify f : EvalM Unit).runOn m v = (.ok (), f v) := rfl

@[simp]
theorem runOn_get : (get : EvalM Values).runOn m v = (.ok v, v) := rfl

@[simp]
theorem runOn_read : (read : EvalM Model).runOn m v = (.ok m, v) := rfl

theorem runOn_bind (x : EvalM α) (f : α → EvalM β) :
    (x >>= f).runOn m v = match x.runOn m v with
      | (.ok a, v') => (f a).runOn m v'
      | (.error e, v') => (.error e, v') := by
  simp only [runOn, ReaderT.run_bind, ExceptT.run_bind, StateT.run_bind]
  rcases ((x.run m).run).run v with ⟨r, v'⟩
  cases r <;> rfl

variable {f : α → EvalM β} {x : EvalM α} {v' : Values}

theorem runOn_bind_ok {a : α} (h : x.runOn m v = (.ok a, v')) :
    (x >>= f).runOn m v = (f a).runOn m v' := by
  rw [runOn_bind, h]

theorem runOn_bind_error {e : Fault} (h : x.runOn m v = (.error e, v')) :
    (x >>= f).runOn m v = (.error e, v') := by
  rw [runOn_bind, h]

@[simp]
theorem runOn_symbolState (i : SymbolId) : (symbolState i).runOn m v = (.ok (v.symbol i), v) := rfl

@[simp]
theorem runOn_choiceState (c : ChoiceId) : (choiceState c).runOn m v = (.ok (v.choice c), v) := rfl

@[simp]
theorem runOn_updateSymbol (i : SymbolId) (f : SymbolState → SymbolState) :
    (updateSymbol i f).runOn m v = (.ok (), v.modifySymbol i f) := rfl

@[simp]
theorem runOn_updateChoice (c : ChoiceId) (f : ChoiceState → ChoiceState) :
    (updateChoice c f).runOn m v = (.ok (), v.modifyChoice c f) := rfl

@[simp]
theorem runOn_evalWarn (text : String) :
    (evalWarn text).runOn m v = (.ok (), { v with warnings := v.warnings ++ [text] }) := rfl

@[simp]
theorem runOn_invalidate (x : Item) : (invalidate x).runOn m v = (.ok (), v.invalidate m x) := rfl

end EvalM

/-! ## States of items -/

theorem getD_modify {σ : Type} (a : Array σ) (i j : Nat) (f : σ → σ) (d : σ) :
    (a.modify i f).getD j d = if i = j ∧ j < a.size then f (a.getD j d) else a.getD j d := by
  simp only [Array.getD_eq_getD_getElem?, Array.getElem?_modify]
  by_cases hij : i = j
  · by_cases hj : j < a.size
    · simp [hij, hj]
    · simp [hj]
  · simp [hij]

namespace Values

theorem symbol_modifySymbol (i j : SymbolId) (f : SymbolState → SymbolState) :
    (v.modifySymbol i f).symbol j =
      if i = j ∧ j < v.symbols.size then f (v.symbol j) else v.symbol j :=
  getD_modify ..

theorem choice_modifyChoice (c d : ChoiceId) (f : ChoiceState → ChoiceState) :
    (v.modifyChoice c f).choice d =
      if c = d ∧ d < v.choices.size then f (v.choice d) else v.choice d :=
  getD_modify ..

@[simp]
theorem choice_modifySymbol (i : SymbolId) (c : ChoiceId) (f : SymbolState → SymbolState) :
    (v.modifySymbol i f).choice c = v.choice c := rfl

@[simp]
theorem symbol_modifyChoice (c : ChoiceId) (i : SymbolId) (f : ChoiceState → ChoiceState) :
    (v.modifyChoice c f).symbol i = v.symbol i := rfl

def assigned (v : Values) : Assigned where
  user i := (v.symbol i).user
  mode c := (v.choice c).user
  selection c := (v.choice c).userSelection

def written (v : Values) : Item → Bool
  | .symbol i => (v.symbol i).isWritten
  | .choice _ => false

def Has (v : Values) : Item → Prop
  | .symbol i => i < v.symbols.size
  | .choice c => c < v.choices.size

/-! ## Remembering -/

variable {q p : Query} {w : Option Bool}

@[simp]
theorem symbols_size_remember (a : q.Answer) :
    (v.remember w q a).symbols.size = v.symbols.size := by
  cases q <;> simp [remember, modifySymbol, modifyChoice]

@[simp]
theorem choices_size_remember (a : q.Answer) :
    (v.remember w q a).choices.size = v.choices.size := by
  cases q <;> simp [remember, modifySymbol, modifyChoice]

@[simp]
theorem assigned_remember (a : q.Answer) : (v.remember w q a).assigned = v.assigned := by
  cases q <;>
    simp [remember, assigned, symbol_modifySymbol, choice_modifyChoice,
      apply_ite SymbolState.user, apply_ite ChoiceState.user, apply_ite ChoiceState.userSelection]

theorem recalled?_remember
    {a : q.Answer} {b : p.Answer} (h : (v.remember w q a).recalled? p = some b) :
    v.recalled? p = some b ∨ (⟨p, b⟩ : (q : Query) × q.Answer) = ⟨q, a⟩ := by
  by_cases hpq : p = q
  · subst hpq
    cases p <;>
      simp only [remember, recalled?, symbol_modifySymbol, choice_modifyChoice] at h ⊢ <;>
      grind
  · left
    cases q <;> cases p <;>
      simp only [remember, recalled?, symbol_modifySymbol, choice_modifyChoice,
        choice_modifySymbol, symbol_modifyChoice] at h ⊢ <;>
      grind

theorem isSome_recalled?_remember
    (a : q.Answer) (h : (v.recalled? p).isSome) : ((v.remember w q a).recalled? p).isSome := by
  cases q <;> cases p <;>
    simp only [remember, recalled?, symbol_modifySymbol, choice_modifyChoice,
      choice_modifySymbol, symbol_modifyChoice] at h ⊢ <;>
    grind

theorem isSome_recalled?_remember_self (a : q.Answer) (hq : v.Has q.item)
    (hmode : ∀ c, q ≠ .mode c) : ((v.remember w q a).recalled? q).isSome := by
  cases q <;>
    simp_all [remember, recalled?, symbol_modifySymbol, choice_modifyChoice, Has, Query.item]

theorem isKnown_eq_recalled? (x : Item) : v.isKnown x = (v.recalled? x.visibility).isSome := by
  cases x <;> rfl

variable {x : Item}

theorem isKnown_remember (a : q.Answer) (h : v.isKnown x) : (v.remember w q a).isKnown x := by
  rw [isKnown_eq_recalled?] at h ⊢
  exact isSome_recalled?_remember a h

theorem written_remember_none (a : q.Answer) (x : Item) :
    (v.remember none q a).written x = v.written x := by
  cases q <;> cases x <;>
    simp [remember, written, symbol_modifySymbol, apply_ite SymbolState.isWritten]

theorem written_remember_ne (a : q.Answer) (hx : q.item ≠ x) :
    (v.remember w q a).written x = v.written x := by
  cases q <;> cases x <;>
    simp_all [remember, written, symbol_modifySymbol, Query.item]

theorem remember_of_not_has (a : q.Answer) (hq : ¬v.Has q.item) : v.remember w q a = v := by
  have hmodify : ∀ {σ : Type} (xs : Array σ) (i : Nat) (f : σ → σ), ¬i < xs.size →
      xs.modify i f = xs := by
    intro σ xs i f hi
    apply Array.ext <;> simp_all [Array.getElem_modify]
    omega
  cases q <;> simp_all [remember, modifySymbol, modifyChoice, Has, Query.item]

theorem written_remember_self (a : q.Answer) (hv : q.isValue) (hq : v.Has q.item) (b : Bool) :
    (v.remember (some b) q a).written q.item = b := by
  cases q <;>
    simp_all [remember, written, symbol_modifySymbol, Has, Query.item, Query.isValue]

end Values

end Buildsmith.Kconfig
