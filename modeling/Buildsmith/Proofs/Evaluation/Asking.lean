import Buildsmith.Proofs.Evaluation.Scratch
import Buildsmith.Proofs.Session.Preservation
import Mathlib.Data.Fintype.EquivFin
import Mathlib.Logic.Relation
import Mathlib.Order.WellFounded

/-!
# What evaluation asks

A rule that reads from a table asks some queries, one after the other, until it has its answer or a
read fails.  Over the outcomes of evaluation from scratch, this says which queries are read while
another one is computed (`Model.Asks`).

Evaluation of a query does not end exactly if it comes to a query that asks for itself, directly or
through others (`Model.outcome_eq_unbounded_iff`).
-/

namespace Buildsmith.Kconfig

open Readers List

/-! ## Traces -/

/-- Evaluation over a table that keeps the queries that are asked, the last one first. -/
abbrev TraceM := StateT (Option Bool) (ExceptT Fault (StateM (List Query)))

def TraceM.runOn {α : Type} (x : TraceM α) (s : Option Bool) (asked : List Query) :
    Except Fault (α × Option Bool) × List Query :=
  runFrom (x.run s) asked

/-- Reads from a table and keeps the queries that are asked. -/
def Readers.tracing (m : Model) (u : Assigned) (t : Table) : Readers TraceM where
  model := m
  ask q := do
    modifyThe (List Query) (q :: ·)
    match t q with
    | .ok a => return a
    | .error e => throw e
  user i := pure (u.user i)
  userMode c := pure (u.mode c)
  userSelection c := pure (u.selection c)
  setWritten b := set (some b)
  warn text := StateT.lift (discard (text.run' none))

namespace TraceM

variable {α β : Type} {x : TraceM α} {f : α → TraceM β} {s s' : Option Bool} {l l' : List Query}

@[simp]
theorem runOn_pure (a : α) : (pure a : TraceM α).runOn s l = (.ok (a, s), l) := rfl

@[simp]
theorem runOn_throw (e : Fault) : (throw e : TraceM α).runOn s l = (.error e, l) := rfl

theorem runOn_bind_ok {p : α × Option Bool} (h : x.runOn s l = (.ok p, l')) :
    (x >>= f).runOn s l = (f p.1).runOn p.2 l' :=
  runFrom_bind_ok h

variable {text : TraceM String} {e : Fault}

theorem runOn_bind_error (h : x.runOn s l = (.error e, l')) :
    (x >>= f).runOn s l = (.error e, l') :=
  runFrom_bind_error h

variable {m : Model} {u : Assigned} {t : Table}

theorem runOn_ask (q : Query) :
    ((tracing m u t).ask q).runOn s l = ((t q).map (·, s), q :: l) := by
  simp only [tracing]
  cases t q <;> rfl

theorem runOn_warn_ok {p : String × Option Bool} (h : text.runOn none l = (.ok p, l')) :
    ((tracing m u t).warn text).runOn s l = (.ok ((), s), l') := by
  have htext : runFrom (discard (text.run' none)) l = (.ok ⟨⟩, l') := by
    exact runFrom_bind_ok (runFrom_bind_ok h)
  exact runFrom_bind_ok htext

theorem runOn_warn_error (h : text.runOn none l = (.error e, l')) :
    ((tracing m u t).warn text).runOn s l = (.error e, l') := by
  have htext : runFrom (discard (text.run' none)) l = (.error e, l') := by
    exact runFrom_bind_error (runFrom_bind_error h)
  exact runFrom_bind_error htext

end TraceM

/-- The first computation gives the outcome of the second one. -/
def Link.forgets : Link TraceM PlainM where
  Rel x y := ∀ s l, (x.runOn s l).1 = y s
  pure _ _ _ := rfl
  bind {_ _ x y f g} hx hf s l := by
    rw [PlainM.bind_apply, ← hx s l]
    rcases hrun : x.runOn s l with ⟨r, l'⟩
    cases r with
    | error e =>
      rw [TraceM.runOn_bind_error hrun]
      rfl
    | ok p =>
      rw [TraceM.runOn_bind_ok hrun]
      exact hf p.1 p.2 l'

instance : Link.forgets.Faults := ⟨fun _ _ _ _ => rfl⟩

/-- What is known of a computation over the table `t` that asks only queries in `S`, together with
the same computation over another table `t'`. -/
structure Traced {α : Type} (S : Query → Prop) (t t' : Table) (x y : TraceM α)
    (s : Option Bool) (l : List Query) (r : Except Fault (α × Option Bool)) (asked : List Query) :
    Prop where
  runOn : x.runOn s l = (r, asked ++ l)
  /-- Tables that agree on what is asked give the same. -/
  agrees : (∀ b ∈ asked, t' b = t b) → y.runOn s l = (r, asked ++ l)
  /-- A read that fails is the last one. -/
  fails : ∀ b ∈ asked, ∀ e, t b = .error e → r = .error e
  /-- Evaluation does not end only where a read does not. -/
  unbounded : r = .error .unbounded → ∃ b ∈ asked, t b = .error .unbounded
  allowed : ∀ b ∈ asked, S b

namespace Traced

variable {α β : Type} {S : Query → Prop} {t t' : Table} {x y : TraceM α} {f g : α → TraceM β}
  {s : Option Bool} {l asked asked' : List Query}

theorem of_silent {r : Except Fault (α × Option Bool)} (hr : Decided r)
    (hx : x.runOn s l = (r, l)) (hy : y.runOn s l = (r, l)) : Traced S t t' x y s l r [] where
  runOn := hx
  agrees _ := hy
  fails _ hb := by cases hb
  unbounded h := absurd h hr
  allowed _ hb := by cases hb

theorem bind_error {e : Fault} (h : Traced S t t' x y s l (.error e) asked) :
    Traced S t t' (x >>= f) (y >>= g) s l (.error e) asked where
  runOn := TraceM.runOn_bind_error h.runOn
  agrees hb := TraceM.runOn_bind_error (h.agrees hb)
  fails b hb e' he := by
    cases h.fails b hb e' he
    rfl
  unbounded he := by
    cases he
    exact h.unbounded rfl
  allowed := h.allowed

theorem bind_ok {p : α × Option Bool} {r : Except Fault (β × Option Bool)}
    (h : Traced S t t' x y s l (.ok p) asked)
    (h' : Traced S t t' (f p.1) (g p.1) p.2 (asked ++ l) r asked') :
    Traced S t t' (x >>= f) (y >>= g) s l r (asked' ++ asked) where
  runOn := by rw [TraceM.runOn_bind_ok h.runOn, h'.runOn, append_assoc]
  agrees hb := by
    have hy := h.agrees fun b hb' => hb b (mem_append_right _ hb')
    rw [TraceM.runOn_bind_ok hy, h'.agrees fun b hb' => hb b (mem_append_left _ hb'), append_assoc]
  fails b hb e he := by
    obtain hb | hb := mem_append.1 hb
    · exact h'.fails b hb e he
    · cases h.fails b hb e he
  unbounded hr := by
    obtain ⟨b, hb, hu⟩ := h'.unbounded hr
    exact ⟨b, mem_append_left _ hb, hu⟩
  allowed b hb := by
    obtain hb | hb := mem_append.1 hb
    · exact h'.allowed b hb
    · exact h.allowed b hb

variable {u : Assigned} {m : Model}

theorem warn {text text' : TraceM String} {r : Except Fault (String × Option Bool)}
    (h : Traced S t t' text text' none l r asked) :
    ∃ r', Traced S t t' ((tracing m u t).warn text) ((tracing m u t').warn text')
      s l r' asked := by
  cases r with
  | error e =>
    refine ⟨.error e, TraceM.runOn_warn_error h.runOn,
      fun hb => TraceM.runOn_warn_error (h.agrees hb), fun b hb e' he => ?_, fun he => ?_,
      h.allowed⟩
    · cases h.fails b hb e' he
      rfl
    · cases he
      exact h.unbounded rfl
  | ok p =>
    refine ⟨.ok ((), s), TraceM.runOn_warn_ok h.runOn,
      fun hb => TraceM.runOn_warn_ok (h.agrees hb), fun b hb e he => ?_, nofun, h.allowed⟩
    cases h.fails b hb e he

theorem ask {q : Query} (hq : S q) :
    Traced S t t' ((tracing m u t).ask q) ((tracing m u t').ask q) s l
      ((t q).map (·, s)) [q] where
  runOn := TraceM.runOn_ask q
  agrees hb := by rw [TraceM.runOn_ask, hb q (mem_singleton_self q), singleton_append]
  fails b hb e he := by
    cases mem_singleton.1 hb
    rw [he]
    rfl
  unbounded hr := by
    cases htq : t q with
    | ok a => simp [htq, Except.map] at hr
    | error e => simpa [htq, Except.map] using hr
  allowed b hb := by
    cases mem_singleton.1 hb
    exact hq

end Traced

/-- Both computations are the same one over two tables, and it asks only queries in `S`. -/
def Link.traces (S : Query → Prop) (t t' : Table) : Link TraceM TraceM where
  Rel x y := ∀ s l, ∃ r asked, Traced S t t' x y s l r asked
  pure _ _ _ := ⟨_, _, .of_silent (decided_ok _) rfl rfl⟩
  bind hx hf s l := by
    obtain ⟨r, asked, h⟩ := hx s l
    cases r with
    | error e => exact ⟨_, _, h.bind_error⟩
    | ok p =>
      obtain ⟨r', asked', h'⟩ := hf p.1 p.2 (asked ++ l)
      exact ⟨_, _, h.bind_ok h'⟩

instance {S : Query → Prop} {t t' : Table} : (Link.traces S t t').Faults :=
  ⟨fun _ he _ _ => ⟨_, _, .of_silent (decided_error.2 he) rfl rfl⟩⟩

namespace Model

variable {m : Model} {u : Assigned} {t t' : Table} {a b : Query}

def asked (m : Model) (u : Assigned) (t : Table) (a : Query) : List Query :=
  (((Readers.tracing m u t).answer a).runOn none []).2

/-- The queries that a query may ask, also for warnings and about what users have selected. -/
def MayRead (m : Model) (u : Assigned) (a b : Query) : Prop :=
  b ∈ m.mayAsk a ∨ b ∈ m.mayMention a ∨
    ∃ c i, a.item = .choice c ∧ u.selection c = some i ∧ b = .visibility i

theorem tracing_eq_infer (a : Query) :
    (((tracing m u t).answer a).runOn none []).1 = m.infer u true t a := by
  have hlinked : Linked Link.forgets m (fun _ => True) (fun _ => True) (fun _ => True) True
      (tracing m u t) (plain m u true t) :=
    { left := rfl
      right := rfl
      ask := fun q _ s l => by
        rw [TraceM.runOn_ask]
        simp only [plain]
        cases t q <;> rfl
      user := fun _ _ _ _ => rfl
      userMode := fun _ _ _ _ => rfl
      userSelection := fun c _ _ f g hfg => hfg (u.selection c) fun _ _ => trivial
      setWritten := fun _ _ _ _ => rfl
      warn := fun x y hxy s l => by
        have htext := hxy trivial none l
        rcases hrun : x.runOn none l with ⟨r, l'⟩
        rw [hrun] at htext
        cases r with
        | error e =>
          rw [TraceM.runOn_warn_error hrun]
          simp only [plain, StateT.run', ← htext]
          rfl
        | ok p =>
          rw [TraceM.runOn_warn_ok hrun]
          simp only [plain, StateT.run', ← htext]
          rfl }
  exact hlinked.answer (fun _ _ => trivial) trivial (fun _ _ => trivial) (fun _ _ _ => trivial)
    none []

theorem traced (m : Model) (u : Assigned) (t t' : Table) (a : Query) :
    Traced (m.MayRead u a) t t' ((tracing m u t).answer a) ((tracing m u t').answer a) none []
      (m.infer u true t a) (m.asked u t a) := by
  have hlinked : Linked (Link.traces (m.MayRead u a) t t') m (m.MayRead u a) (· = a.item)
      (fun _ => True) True (.tracing m u t) (.tracing m u t') :=
    { left := rfl
      right := rfl
      ask := fun q hq s l => ⟨_, _, .ask hq⟩
      user := fun _ _ _ _ => ⟨_, _, .of_silent (decided_ok _) rfl rfl⟩
      userMode := fun _ _ _ _ => ⟨_, _, .of_silent (decided_ok _) rfl rfl⟩
      userSelection := fun c hc _ f g hfg =>
        hfg (u.selection c) fun i hi => .inr (.inr ⟨c, i, hc.symm, hi, rfl⟩)
      setWritten := fun _ _ _ _ => ⟨_, _, .of_silent (decided_ok _) rfl rfl⟩
      warn := fun x y hxy s l => by
        obtain ⟨r, asked, h⟩ := hxy trivial none l
        obtain ⟨r', h'⟩ := h.warn (m := m) (u := u) (s := s)
        exact ⟨r', asked, h'⟩ }
  obtain ⟨r, asked, h⟩ := hlinked.answer (q := a) (fun _ hp => .inl hp) rfl (fun _ _ => trivial)
    (fun _ _ hp => .inr (.inl hp)) none []
  have hr : r = m.infer u true t a := by
    rw [← tracing_eq_infer, h.runOn]
  have hasked : asked = m.asked u t a := by simp [Model.asked, h.runOn]
  exact hr ▸ hasked ▸ h

/-! ## Reads while a query is computed -/

/-- Whether a query is read while another one is computed from scratch. -/
def Asks (m : Model) (u : Assigned) (a b : Query) : Prop :=
  m.constant? a = none ∧ b ∈ m.asked u (m.outcome u) a

variable {n : Nat}

theorem outcome_of_decided (h : Decided (m.outcomeWithin u n a)) :
    m.outcome u a = m.outcomeWithin u n a :=
  outcomeWithin_readDepth h

theorem outcome_eq_deepen (a : Query) : m.outcome u a = m.deepen u (m.outcome u) a := by
  by_cases h : Decided (m.outcomeWithin u (m.readDepth + 1) a)
  · exact outcome_of_decided h
  · have h' : ¬Decided (m.outcome u a) := by
      intro hd
      exact h (by rwa [outcomeWithin_succ _ _ hd])
    exact (not_not.1 h').trans (not_not.1 h).symm

theorem outcome_eq_infer (h : m.constant? a = none) :
    m.outcome u a = (m.infer u true (m.outcome u) a).map (·.1) := by
  rw [outcome_eq_deepen]
  simp only [deepen, h]

theorem constant?_eq_none_of_unbounded (h : m.outcome u a = .error .unbounded) :
    m.constant? a = none := by
  cases hc : m.constant? a with
  | none => rfl
  | some x =>
    rw [outcome_eq_deepen] at h
    simp only [deepen, hc] at h
    cases h

theorem Asks.mayRead (h : m.Asks u a b) : m.MayRead u a b :=
  (traced m u (m.outcome u) (m.outcome u) a).allowed b h.2

theorem Asks.fails (h : m.Asks u a b) {e : Fault} (hb : m.outcome u b = .error e) :
    m.outcome u a = .error e := by
  rw [outcome_eq_infer h.1, (traced m u (m.outcome u) (m.outcome u) a).fails b h.2 e hb]
  rfl

theorem exists_asks_unbounded (h : m.outcome u a = .error .unbounded) :
    ∃ b, m.Asks u a b ∧ m.outcome u b = .error .unbounded := by
  have hconstant := constant?_eq_none_of_unbounded h
  have hinfer : m.infer u true (m.outcome u) a = .error .unbounded := by
    rw [outcome_eq_infer hconstant] at h
    cases hi : m.infer u true (m.outcome u) a with
    | ok p => simp [hi, Except.map] at h
    | error e => simpa [hi, Except.map] using h
  obtain ⟨b, hb, hunbounded⟩ := (traced m u (m.outcome u) (m.outcome u) a).unbounded hinfer
  exact ⟨b, ⟨hconstant, hb⟩, hunbounded⟩

theorem Asks.decided (h : m.Asks u a b) (ha : Decided (m.outcomeWithin u (n + 1) a)) :
    Decided (m.outcomeWithin u n b) := by
  have hinfer : Decided (m.infer u true (m.outcomeWithin u n) a) := by
    simpa only [outcomeWithin, deepen, h.1, decided_map] using ha
  have htraced := traced m u (m.outcomeWithin u n) (m.outcome u) a
  have hdecided : ∀ p ∈ m.asked u (m.outcomeWithin u n) a, Decided (m.outcomeWithin u n p) :=
    fun p hp hunbounded => hinfer (htraced.fails p hp _ hunbounded)
  -- the two tables agree on what is asked, so the same is asked over both
  have hsame := htraced.agrees fun p hp => outcome_of_decided (hdecided p hp)
  refine hdecided b ?_
  simpa [Model.asked, hsame] using h.2

theorem decided_of_transGen (h : Relation.TransGen (m.Asks u) a b)
    (ha : Decided (m.outcomeWithin u (n + 1) a)) : Decided (m.outcomeWithin u n b) := by
  induction h with
  | single h => exact h.decided ha
  | tail _ h ih =>
    refine h.decided ?_
    rwa [outcomeWithin_succ _ _ ih]

theorem unbounded_of_transGen (h : Relation.TransGen (m.Asks u) a a) :
    m.outcome u a = .error .unbounded := by
  have hn : ∀ n, ¬Decided (m.outcomeWithin u n a) := by
    intro n
    induction n with
    | zero => exact fun hd => hd rfl
    | succ n ih => exact fun hd => ih (decided_of_transGen h hd)
  exact not_not.1 (hn _)

theorem unbounded_of_reflTransGen (h : Relation.ReflTransGen (m.Asks u) a b)
    (hb : m.outcome u b = .error .unbounded) : m.outcome u a = .error .unbounded := by
  induction h using Relation.ReflTransGen.head_induction_on with
  | refl => exact hb
  | head h _ ih => exact h.fails ih

theorem not_bare_of_unbounded (h : m.outcome u a = .error .unbounded) : ¬m.Bare a.item := by
  intro hbare
  have hthree := decided_of_bare (u := u) hbare
  rw [← outcome_of_decided hthree] at hthree
  exact hthree h

theorem has_of_unbounded (h : m.outcome u a = .error .unbounded) : m.Has a.item := by
  by_contra ha
  exact not_bare_of_unbounded h (bare_of_not_has ha)

/-- Evaluation of a query does not end exactly if it comes to a query that asks for itself. -/
theorem outcome_eq_unbounded_iff : m.outcome u a = .error .unbounded ↔
      ∃ p, Relation.ReflTransGen (m.Asks u) a p ∧ Relation.TransGen (m.Asks u) p p := by
  constructor
  · intro ha
    by_contra! hnone
    -- finitely many queries are not decided; without a loop one of them asks no other one
    let Stuck := { p : Query //
      m.outcome u p = .error .unbounded ∧ Relation.ReflTransGen (m.Asks u) a p }
    let Later : Stuck → Stuck → Prop := fun p q => Relation.TransGen (m.Asks u) q.1 p.1
    have : Finite Stuck := by
      refine Finite.of_injective (β := { p // p ∈ m.queries })
        (fun p => ⟨p.1, mem_queries (has_of_unbounded p.2.1)⟩) fun p q hpq => ?_
      exact Subtype.ext (Subtype.mk.inj hpq)
    have : Std.Irrefl Later := ⟨fun p h => hnone p.1 p.2.2 h⟩
    obtain ⟨p, -, hmin⟩ := (Finite.wellFounded_of_trans_of_irrefl Later).has_min Set.univ
      ⟨⟨a, ha, .refl⟩, trivial⟩
    obtain ⟨b, hb, hunbounded⟩ := exists_asks_unbounded p.2.1
    exact hmin ⟨b, hunbounded, p.2.2.tail hb⟩ trivial (.single hb)
  · rintro ⟨p, hap, hpp⟩
    exact unbounded_of_reflTransGen hap (unbounded_of_transGen hpp)

end Model

end Buildsmith.Kconfig
