import Buildsmith.Proofs.Evaluation.Restoring

/-!
# What evaluation gives in coherent states

In all coherent states over what is assigned, a computation that reads values gives the same result,
and leads to such a state again.  This is stated for conditions and for the lines of symbols, whose
results are those of evaluation from scratch.
-/

namespace Buildsmith.Kconfig

variable {m : Model} {u u' : Assigned} {I J : Values → Prop} {α β : Type}

/-- In every state with a property the computation gives one and the same result, and keeps the
property. -/
def EvalM.Gives (m : Model) (I : Values → Prop) (x : EvalM α) (a : α) : Prop :=
  ∀ v, I v → ∃ v', x.runOn m v = (.ok a, v') ∧ I v'

namespace EvalM.Gives

variable {x : EvalM α} {f : α → EvalM β} {a : α} {b : β}

theorem pure (a : α) : Gives m I (Pure.pure a) a := fun v hv => ⟨v, rfl, hv⟩

theorem bind (hx : Gives m I x a) (hf : Gives m I (f a) b) : Gives m I (x >>= f) b := by
  intro v hv
  obtain ⟨v', hrun, hv'⟩ := hx v hv
  obtain ⟨v'', hrun', hv''⟩ := hf v' hv'
  exact ⟨v'', (runOn_bind_ok hrun).trans hrun', hv''⟩

theorem read_bind {g : Model → EvalM β} (hg : Gives m I (g m) b) : Gives m I (read >>= g) b :=
  bind (fun v hv => ⟨v, rfl, hv⟩) hg

theorem either (h : Gives m I x a) (h' : Gives m J x a) : Gives m (fun v => I v ∨ J v) x a := by
  rintro v (hv | hv)
  · obtain ⟨v', hrun, hv'⟩ := h v hv
    exact ⟨v', hrun, .inl hv'⟩
  · obtain ⟨v', hrun, hv'⟩ := h' v hv
    exact ⟨v', hrun, .inr hv'⟩

theorem mapM {xs : List β} {f : β → EvalM α} {g : β → α} (h : ∀ x ∈ xs, Gives m I (f x) (g x)) :
    Gives m I (xs.mapM f) (xs.map g) := by
  induction xs with
  | nil => exact pure []
  | cons x xs ih =>
    rw [List.mapM_cons]
    refine (h x List.mem_cons_self).bind ?_
    exact (ih fun y hy => h y (List.mem_cons_of_mem _ hy)).bind (pure _)

end EvalM.Gives

/-! ## Conditions -/

theorem linked_outcome :
    Linked ((Coherent.memory m u).link {m.outcome u} m) m (fun _ => True) (fun _ => True)
      (fun _ => True) True (.evaluating m answerTo) (.among m u) := by
  refine Memory.Answers.linked fun q v hv => ?_
  obtain ⟨r, v', hrun, hrest⟩ := answers_settled m.readDepth q v hv
  exact ⟨r, v', (runOn_answerTo q v).trans hrun, hrest⟩

theorem gives_withReaders
    {f : Readers RuleM → RuleM α} {x : ReaderT Table PlainM α} {y : PlainM α} {p : α × Option Bool}
    (h : ((Coherent.memory m u).link {m.outcome u} m).Rel (f (.evaluating m answerTo)) x)
    (hx : (Link.at (m.outcome u)).Rel x y) (hy : y none = .ok p) :
    EvalM.Gives m (Coherent m u) (withReaders f) p.1 := by
  have hp : x (m.outcome u) none = .ok p := (congrFun hx none).trans hy
  refine .read_bind fun v hv => ?_
  obtain ⟨r, v', hrun, hv', -, -, hbelow⟩ := h v none hv
  have hr := hp.symm.trans (hbelow _ rfl (by rintro e he; cases hp.symm.trans he))
  exact ⟨v', EvalM.runOn_bind_ok (hr ▸ hrun), hv'⟩

theorem gives_exprValue {e : Expr} {p : Tristate × Option Bool}
    (h : (Readers.plain m u true (m.outcome u)).value e none = .ok p) :
    EvalM.Gives m (Coherent m u) (exprValue e) p.1 :=
  gives_withReaders (linked_outcome.value fun _ _ => trivial)
    ((linked_at _).value fun _ _ => trivial) h

/-! ## Lines -/

def Model.lineFor (m : Model) (lead : String) (i : SymbolId) (val : String) : String :=
  let s := m.symbol i
  if s.kind.isLogical then
    if val ≠ "n" then lead ++ s.name ++ "=" ++ val ++ "\n"
    else "# " ++ lead ++ s.name ++ " is not set\n"
  else if s.kind.isNumeric then lead ++ s.name ++ "=" ++ val ++ "\n"
  else lead ++ s.name ++ "=\"" ++ Text.Quoted.escape val ++ "\"\n"

/-- Whether evaluation from scratch says that a symbol is written. -/
def Model.writes (m : Model) (u : Assigned) (i : SymbolId) : Bool :=
  if m.asksNothing (.text i) then false
  else if (m.symbol i).kind.isLogical then
    ((m.infer u true (m.outcome u) (.tristate i)).toOption.bind (·.2)).getD false
  else ((m.infer u true (m.outcome u) (.text i)).toOption.bind (·.2)).getD false

theorem Model.means_of_infer_outcome
    {q : Query} (hq : asksConstant q = false) {r : q.Answer × Option Bool}
    (h : m.infer u true (m.outcome u) q = .ok r) : m.Means u (fun _ => True) q r.1 r.2 := by
  have hle : ∀ p b, m.outcome u p = .ok b → m.settled u (fun _ => True) p = .ok b :=
    fun p b hp => settled_eq_ok.2 ⟨.inl trivial, means_of_outcome hp⟩
  have hsettled := infer_mono (fun p _ => hle p) (fun _ _ i _ => hle _) (.refl u _) h
  exact Means.of_infer hq hsettled

variable {i : SymbolId} {a : String}

theorem Model.exists_tells (hn : m.asksNothing (.text i) = false)
    (h : m.outcome u (.text i) = .ok a) :
    ∃ q : Query, q.item = .symbol i ∧ m.TellsWritten q ∧ asksConstant q = false ∧
      (∃ b, m.outcome u q = .ok b) ∧
      (∀ v, Coherent m u v → (v.recalled? (.text i)).isSome → (v.recalled? q).isSome) ∧
      m.writes u i = ((m.infer u true (m.outcome u) q).toOption.bind (·.2)).getD false := by
  cases hl : (m.symbol i).kind.isLogical with
  | true =>
    have hconstant : asksConstant (.tristate i) = false := by
      simpa [asksNothing, asksConstant, hl] using (Bool.or_eq_false_iff.1 hn).2
    refine ⟨.tristate i, rfl, hl, hconstant, ?_, fun v hv => hv.paired i hl, ?_⟩
    · obtain ⟨w, hw⟩ := (balanced_outcome m u).rule (.text i) a h rfl
      obtain ⟨x, hx, -⟩ := (infer_text_of_logical hl).1 hw
      exact ⟨x, hx⟩
    · simp only [writes, hn, hl, if_true, Bool.false_eq_true, if_false]
  | false =>
    refine ⟨.text i, rfl, ⟨hl, ?_⟩, rfl, ⟨a, h⟩, fun v _ hv => hv, ?_⟩
    · simpa using (Bool.or_eq_false_iff.1 hn).1
    · simp only [writes, hn, hl, Bool.false_eq_true, if_false]

theorem Coherent.isWritten_eq_writes {v : Values} (hv : Coherent m u v)
    (h : m.outcome u (.text i) = .ok a) (hi : m.Has (.symbol i) → (v.recalled? (.text i)).isSome) :
    (v.symbol i).isWritten = m.writes u i := by
  cases hn : m.asksNothing (.text i) with
  | true => rw [hv.unwritten i hn, Model.writes, if_pos hn]
  | false =>
    have hhas : m.Has (.symbol i) := by
      by_contra hhas
      rw [Model.asksNothing, Model.symbol_of_not_has hhas] at hn
      cases hn
    obtain ⟨q, hitem, htells, hconstant, ⟨b, hb⟩, hrecall, hwrites⟩ := Model.exists_tells hn h
    obtain ⟨c, hc⟩ := Option.isSome_iff_exists.1 (hrecall v hv (hi hhas))
    obtain ⟨w, hw, hwritten⟩ := hv.means q c hc
    obtain ⟨w', hinfer⟩ := (Model.balanced_outcome m u).rule q b hb hconstant
    have hsame : w = w' := (hw.unique (Model.means_of_infer_outcome hconstant hinfer)).2
    obtain ⟨x, hx⟩ := Option.isSome_iff_exists.1 (hw.isSome_written htells hconstant)
    have hleft := hwritten x hx
    rw [hitem] at hleft
    rw [hwrites, hinfer, ← hsame, hx]
    exact hleft

theorem gives_symbolText_bind (h : m.outcome u (.text i) = .ok a)
    {f : String → SymbolState → EvalM α} {b : α}
    (hf : ∀ x, x.isWritten = m.writes u i → EvalM.Gives m (Coherent m u) (f a x) b) :
    EvalM.Gives m (Coherent m u)
      (symbolText i >>= fun val => symbolState i >>= fun x => f val x) b := by
  intro v hv
  obtain ⟨v', hrun, hv', hrecall⟩ := hv.runOn_symbolText h
  obtain ⟨v'', hrun', hv''⟩ := hf (v'.symbol i) (hv'.isWritten_eq_writes h hrecall) v' hv'
  refine ⟨v'', ?_, hv''⟩
  simp only [EvalM.runOn_bind, hrun, EvalM.runOn_symbolState, hrun']

theorem gives_configLine (h : m.outcome u (.text i) = .ok a) (lead : String) :
    EvalM.Gives m (Coherent m u) (configLine lead i)
      (if m.writes u i then m.lineFor lead i a else "") := by
  refine .read_bind (gives_symbolText_bind h fun x hx => ?_)
  rw [hx]
  cases m.writes u i with
  | false => exact .pure _
  | true =>
    simp only [Bool.not_true, Bool.false_eq_true, if_false, Model.lineFor]
    split
    · split <;> exact .pure _
    · split <;> exact .pure _

/-! ## What is repeated -/

theorem Model.Repeats.writes_eq (h : m.Repeats u u') (hi : m.outcome u (.text i) = .ok a) :
    m.writes u' i = m.writes u i := by
  cases hn : m.asksNothing (.text i) with
  | true => simp only [writes, hn, if_true]
  | false =>
    have hinfer : ∀ q : Query, asksConstant q = false → ∀ b, m.outcome u q = .ok b →
        m.infer u' true (m.outcome u') q = m.infer u true (m.outcome u) q := by
      intro q hq b hb
      obtain ⟨w, hw⟩ := (balanced_outcome m u).rule q b hb hq
      rw [hw]
      exact h.infer q _ hw hb
    obtain ⟨q, hitem, htells, hconstant, ⟨b, hb⟩, -, hwrites⟩ := exists_tells hn hi
    cases q with
    | tristate j =>
      cases hitem
      have hl : (m.symbol i).kind.isLogical := htells
      simp only [writes, hl, if_true, hinfer _ hconstant b hb]
    | text j =>
      cases hitem
      have hl : (m.symbol i).kind.isLogical = false := htells.1
      simp only [writes, hl, Bool.false_eq_true, if_false, hinfer _ hconstant b hb]
    | _ => exact htells.elim

theorem Model.Repeats.gives_exprValue
    (h : m.Repeats u u') (ha : ∀ q, ∃ a, m.outcome u q = .ok a) (e : Expr) :
    ∃ x, EvalM.Gives m (fun v => Coherent m u v ∨ Coherent m u' v) (exprValue e) x := by
  obtain ⟨a, ha⟩ := exists_backs ha
  have hx : (Readers.plain m u true (m.outcome u)).value e none = .ok (a.value m e, none) :=
    ha.value e none
  have hlinked := linked_warning (m := m) u u' h.outcome
  have hx' := hlinked.value (fun _ _ => trivial) none _ hx
  exact ⟨_, (Kconfig.gives_exprValue hx).either (Kconfig.gives_exprValue hx')⟩

theorem Model.Repeats.gives_configLine (h : m.Repeats u u') (hi : m.outcome u (.text i) = .ok a)
    (lead : String) : EvalM.Gives m (fun v => Coherent m u v ∨ Coherent m u' v) (configLine lead i)
      (if m.writes u i then m.lineFor lead i a else "") := by
  have hagain := Kconfig.gives_configLine (h.outcome _ _ hi) lead
  rw [h.writes_eq hi] at hagain
  exact (Kconfig.gives_configLine hi lead).either hagain

end Buildsmith.Kconfig
