import Buildsmith.Kconfig.Browse
import Buildsmith.Proofs.Evaluation.Condensing

/-!
# What menus list

Reading values remembers more and more of them, and where nothing is assigned in between a value
that is read again is the one that was read before.  This needs nothing of what is remembered to
begin with: whatever it is, it is kept, and what is added follows from it by the rules
(`Values.Extends`).  So a condition has one value, if it has any, in all states that are reached by
reading (`agrees_exprValue`), and a menu lists the same entries in all of them (`agrees_shownIn`).
-/

namespace Buildsmith.Kconfig

variable {m : Model}

theorem runOn_exprValue (e : Expr) (v : Values) :
    (exprValue e).runOn m v =
      match (((Readers.evaluating m answerTo).value e).run none).runOn m v with
      | (.ok p, v') => (.ok p.1, v')
      | (.error f, v') => (.error f, v') := by
  rw [exprValue, withReaders, EvalM.runOn_bind]
  rcases hrun : (((Readers.evaluating m answerTo).value e).run none).runOn m v with ⟨r, v'⟩
  cases r with
  | ok p => exact EvalM.runOn_bind_ok hrun
  | error f => exact EvalM.runOn_bind_error hrun

/-! ## Reading again -/

variable {v w : Values}

/-- The outcomes of queries at a depth, if some answers are recalled to begin with. -/
def Model.outcomesFrom (m : Model) (v : Values) : Nat → Table
  | 0, _ => .error .unbounded
  | n + 1, q =>
    match v.recalled? q with
    | some a => .ok a
    | none => (m.infer v.assigned true (m.outcomesFrom v n) q).map Prod.fst

/-- Whether an answer is found at every sufficient depth. -/
def Model.FindsFrom (m : Model) (v : Values) (q : Query) (a : q.Answer) : Prop :=
  ∃ n, ∀ k ≥ n, m.outcomesFrom v k q = .ok a

theorem Model.findsFrom_of_recalled? {q : Query} {a : q.Answer} (h : v.recalled? q = some a) :
    m.FindsFrom v q a := by
  refine ⟨1, fun k hk => ?_⟩
  obtain ⟨n, rfl⟩ := Nat.exists_eq_add_of_le' hk
  rw [outcomesFrom, h]

/-- Whether the second state remembers what the first one does, and else only what follows. -/
structure Values.Extends (m : Model) (v w : Values) : Prop where
  assigned : w.assigned = v.assigned
  recalls : ∀ q, (v.recalled? q).isSome → (w.recalled? q).isSome
  finds : ∀ q a, w.recalled? q = some a → m.FindsFrom v q a

namespace Values.Extends

theorem refl (m : Model) (v : Values) : v.Extends m v :=
  ⟨rfl, fun _ h => h, fun _ _ => Model.findsFrom_of_recalled?⟩

theorem remember (h : v.Extends m w) {q : Query} {a : q.Answer} (ha : m.FindsFrom v q a)
    (b : Option Bool) : v.Extends m (w.remember b q a) where
  assigned := by rw [Values.assigned_remember, h.assigned]
  recalls p hp := Values.isSome_recalled?_remember a (h.recalls p hp)
  finds p c hp := by
    obtain hp | hp := Values.recalled?_remember hp
    · exact h.finds p c hp
    · cases hp
      exact ha

theorem warned (h : v.Extends m w) (ws : List String) : v.Extends m { w with warnings := ws } :=
  ⟨h.assigned, h.recalls, h.finds⟩

end Values.Extends

/-- States that add only what follows, and the outcomes at every sufficient depth. -/
def Values.Extends.memory (m : Model) (v : Values) : Memory v.assigned where
  Holds := v.Extends m
  tables _ := Filter.atTop.map (m.outcomesFrom v)
  Finds _ := False
  assigned h := h.assigned
  warned ws h := ⟨h.warned ws, rfl⟩

theorem answers_outcomesFrom (n : Nat) :
    (Values.Extends.memory m v).Answers ∅ m (answerWithin m n) := by
  induction n with
  | zero => exact fun q w hw => ⟨.error .unbounded, w, rfl, hw, le_rfl, fun h => (h _ rfl).elim, nofun⟩
  | succ n ih =>
    refine ih.recalling
      (fun hw hq => ⟨Filter.eventually_atTop.2 (Values.Extends.finds hw _ _ hq), nofun⟩)
      (fun {w w' q p} hw hq hw' _ hgives => ?_) (fun _ _ he => he.elim) nofun
    have hnone : v.recalled? q = none := by
      by_contra hsome
      have := Values.Extends.recalls hw q (Option.isSome_iff_ne_none.2 hsome)
      simp [hq] at this
    obtain ⟨n, hn⟩ := Filter.eventually_atTop.1 hgives
    have hfinds : m.FindsFrom v q p.1 := by
      refine ⟨n + 1, fun k hk => ?_⟩
      obtain ⟨k, rfl⟩ := Nat.exists_eq_add_of_le' (Nat.le_of_add_left_le hk)
      have hk : m.infer v.assigned true (m.outcomesFrom v k) q = .ok p := hn k (by omega)
      rw [Model.outcomesFrom, hnone]
      simp only [hk]
      rfl
    exact ⟨Values.Extends.remember hw' hfinds _, le_rfl, Filter.eventually_atTop.2 hfinds⟩

variable {α β : Type} {I : Values → Prop}

/-- Whether a computation has the same result, if any, in all states with a property. -/
def EvalM.Agrees (m : Model) (I : Values → Prop) (x : EvalM α) : Prop :=
  ∃ a, EvalM.Ensures m I x (· = a)

/-- Conditions have the same value, if any, in all states that are reached by reading. -/
theorem agrees_exprValue (m : Model) (v : Values) (e : Expr) :
    EvalM.Agrees m (v.Extends m) (exprValue e) := by
  have hanswers : (Values.Extends.memory m v).Answers ∅ m answerTo := by
    intro q w hw
    obtain ⟨r, w', hrun, hrest⟩ := answers_outcomesFrom m.readDepth q w hw
    exact ⟨r, w', (runOn_answerTo q w).trans hrun, hrest⟩
  have hrel := hanswers.linked.value (e := e) fun _ _ => trivial
  have hruns : ∀ w t w', v.Extends m w → (exprValue e).runOn m w = (.ok t, w') →
      v.Extends m w' ∧ ∃ s n, ∀ k ≥ n,
        (Readers.among m v.assigned).value e (m.outcomesFrom v k) none = .ok (t, s) := by
    intro w t w' hw hrun
    rw [runOn_exprValue] at hrun
    split at hrun
    · rename_i p _ hfirst
      cases hrun
      obtain ⟨r, _, hfirst', hw', -, hgives, -⟩ := hrel w none hw
      cases hfirst.symm.trans hfirst'
      exact ⟨hw', p.2, Filter.eventually_atTop.1 (hgives nofun)⟩
    · cases hrun
  -- where no state gives a value, any one will do
  by_cases hsome : ∃ t s n, ∀ k ≥ n,
      (Readers.among m v.assigned).value e (m.outcomesFrom v k) none = .ok (t, s)
  · obtain ⟨t, s, n, hn⟩ := hsome
    refine ⟨t, fun w t' w' hw hrun => ?_⟩
    obtain ⟨hw', s', n', hn'⟩ := hruns w t' w' hw hrun
    cases (hn' _ (Nat.le_max_left n' n)).symm.trans (hn _ (Nat.le_max_right n' n))
    exact ⟨hw', rfl⟩
  · refine ⟨.no, fun w t' w' hw hrun => ?_⟩
    obtain ⟨hw', s', n', hn'⟩ := hruns w t' w' hw hrun
    exact absurd ⟨t', s', n', hn'⟩ hsome

/-! ## Lists of entries -/

namespace EvalM.Agrees

variable {x : EvalM α} {f : α → EvalM β}

theorem pure (a : α) : Agrees m I (Pure.pure a) := ⟨a, .pure rfl⟩

theorem bind (hx : Agrees m I x) (hf : ∀ a, Agrees m I (f a)) : Agrees m I (x >>= f) := by
  obtain ⟨a, ha⟩ := hx
  obtain ⟨b, hb⟩ := hf a
  exact ⟨b, ha.bind fun _ h => h ▸ hb⟩

theorem read_bind {g : Model → EvalM β} (hg : Agrees m I (g m)) : Agrees m I (read >>= g) :=
  hg.imp fun _ hb => .read_bind hb

theorem foldlM {g : β → α → EvalM β} (hg : ∀ b a, Agrees m I (g b a)) (xs : List α) (b : β) :
    Agrees m I (xs.foldlM g b) := by
  induction xs generalizing b with
  | nil => exact .pure b
  | cons x xs ih => exact (hg b x).bind ih

end EvalM.Agrees

theorem agrees_isVisible (h : ∀ e, EvalM.Agrees m I (exprValue e)) (i : EntryId) :
    EvalM.Agrees m I (isVisible i) := by
  refine .read_bind ?_
  dsimp only
  cases (m.entry i).prompt with
  | none => exact .pure _
  | some p =>
    refine (h p.2).bind fun t => ?_
    split
    · exact .pure _
    · split
      · exact (h _).bind fun t => .pure _
      · exact .pure _

mutual

theorem agrees_shown (h : ∀ e, EvalM.Agrees m I (exprValue e)) (l : Listing) :
    ∀ n : Menu, EvalM.Agrees m I (Menu.shown l n)
  | .entry i children => by
    unfold Menu.shown
    refine .read_bind ((agrees_isVisible h i).bind fun b => ?_)
    split
    · split
      · exact (agrees_shownAll h l children).bind fun is => .pure _
      · exact .pure _
    · split
      · refine (agrees_shownAll h l children).bind fun is => ?_
        split
        · exact .pure _
        · exact .pure _
      · exact .pure _

theorem agrees_shownAll (h : ∀ e, EvalM.Agrees m I (exprValue e)) (l : Listing) :
    ∀ ns : List Menu, EvalM.Agrees m I (Menu.shownAll l ns)
  | [] => .pure _
  | n :: ns => by
    unfold Menu.shownAll
    exact (agrees_shown h l n).bind fun is => (agrees_shownAll h l ns).bind fun js => .pure _

end

/-- The entries that are shown are the same in all states that are reached by reading. -/
theorem agrees_shownIn (h : ∀ e, EvalM.Agrees m I (exprValue e)) (showAll : Bool) (i : EntryId) :
    EvalM.Agrees m I (shownIn showAll i) := by
  have hlisted : ∀ k, EvalM.Agrees m I (listedIn (.single showAll) k) :=
    fun k => .read_bind (agrees_shownAll h _ _)
  refine .read_bind ?_
  cases (m.entry i).subject with
  | choice c =>
    refine (hlisted i).bind fun is => .bind (.foldlM (fun acc k => ?_) _ _) fun _ => .pure _
    exact (hlisted k).bind fun is => .pure _
  | _ => exact hlisted i

end Buildsmith.Kconfig
