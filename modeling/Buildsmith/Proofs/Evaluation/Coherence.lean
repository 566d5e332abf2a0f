import Buildsmith.Proofs.Evaluation.Running
import Mathlib.Order.Filter.AtTopBot.Basic

/-!
# Coherence

A state is coherent if everything that is remembered in it is what the rules say, and follows from
queries about items that are known.  What evaluation with a memory gives is what the rules give over
tables of what may be remembered (`Memory.Answers.recalling`).  No value is remembered before it has
been computed, so that this says also what happens when a read fails.
-/

namespace Buildsmith.Kconfig

open Values Readers EvalM Model

abbrev Values.Known (v : Values) : Item → Prop := fun x => v.isKnown x = true

/-- What is remembered in a state is meant by what is assigned. -/
structure Coherent (m : Model) (u : Assigned) (v : Values) : Prop where
  assigned : v.assigned = u
  symbols_size : v.symbols.size = m.symbols.size
  choices_size : v.choices.size = m.choices.size
  /-- The constants are always remembered. -/
  constants : ∀ q, Model.asksConstant q → (v.recalled? q).isSome
  isOpen : ∀ q a, v.recalled? q = some a → m.Open v.Known q
  means : ∀ q a, v.recalled? q = some a →
    ∃ w, m.Means u v.Known q a w ∧ ∀ b, w = some b → v.written q.item = b
  /-- The text of a logical symbol is remembered only together with its truth value. -/
  paired : ∀ i, (m.symbol i).kind.isLogical → (v.recalled? (.text i)).isSome →
    (v.recalled? (.tristate i)).isSome
  /-- Constants and symbols of unknown kind are not written. -/
  unwritten : ∀ i, m.asksNothing (.text i) → (v.symbol i).isWritten = false

namespace Coherent

variable {m : Model} {u : Assigned} {v : Values} {q : Query}

theorem has_iff (h : Coherent m u v) (x : Item) : v.Has x ↔ m.Has x := by
  cases x with
  | symbol i => simp only [Values.Has, Model.Has, h.symbols_size]
  | choice c => simp only [Values.Has, Model.Has, h.choices_size]

theorem known_remember (a : q.Answer) (w : Option Bool) :
    ∀ x, v.Known x → (v.remember w q a).Known x :=
  fun _ hx => isKnown_remember a hx

variable {w : Option Bool} {a : q.Answer}

theorem written_remember (hq : v.Has q.item) (hw : m.Means u v.Known q a w)
    {p : Query} {b : p.Answer} {w' : Option Bool} (hw' : m.Means u v.Known p b w')
    (hwritten : ∀ x, w' = some x → v.written p.item = x) :
    ∀ x, w' = some x → (v.remember w q a).written p.item = x := by
  rintro x rfl
  cases w with
  | none => rw [written_remember_none, hwritten x rfl]
  | some y =>
    by_cases hitem : q.item = p.item
    · -- the two queries are one, so that both say the same
      have hpq : p = q := hw'.tellsWritten.eq hw.tellsWritten hitem.symm
      subst hpq
      rw [written_remember_self a hw.tellsWritten.isValue hq]
      exact Option.some.inj (hw.unique hw').2
    · rw [written_remember_ne a hitem, hwritten x rfl]

theorem isWritten_remember (h : Coherent m u v) (hw : m.Means u v.Known q a w) {i : SymbolId}
    (hi : m.asksNothing (.text i)) : (v.remember w q a).written (.symbol i) = false := by
  have hold : v.written (.symbol i) = false := h.unwritten i hi
  cases w with
  | none => rw [written_remember_none, hold]
  | some y =>
    have hitem : q.item ≠ .symbol i := by
      intro hitem
      have htells := hw.tellsWritten
      have hconstant := hw.asksConstant_eq_false
      cases q <;> cases hitem <;>
        simp_all [Model.TellsWritten, asksNothing, asksConstant]
      grind [Kind.isLogical]
    rw [written_remember_ne a hitem, hold]

theorem remember (h : Coherent m u v) (hw : m.Means u v.Known q a w)
    (hopen : m.Open (v.remember w q a).Known q)
    (hpaired : ∀ i, q = .text i → (m.symbol i).kind.isLogical → v.Has (.symbol i) →
      (v.recalled? (.tristate i)).isSome) : Coherent m u (v.remember w q a) := by
  by_cases hq : v.Has q.item
  · have hknown := known_remember (v := v) a w
    refine ⟨?_, ?_, ?_, ?_, ?_, ?_, ?_, ?_⟩
    · rw [assigned_remember, h.assigned]
    · rw [symbols_size_remember, h.symbols_size]
    · rw [choices_size_remember, h.choices_size]
    · exact fun p hp => isSome_recalled?_remember a (h.constants p hp)
    · intro p b hp
      obtain hp | hp := recalled?_remember hp
      · exact (h.isOpen p b hp).mono hknown
      · cases hp
        exact hopen
    · intro p b hp
      obtain hp | hp := recalled?_remember hp
      · obtain ⟨w', hw', hwritten⟩ := h.means p b hp
        exact ⟨w', hw'.mono hknown, written_remember hq hw hw' hwritten⟩
      · cases hp
        refine ⟨w, hw.mono hknown, ?_⟩
        rintro x rfl
        exact written_remember_self a hw.tellsWritten.isValue hq x
    · intro i hi htext
      obtain ⟨b, hb⟩ := Option.isSome_iff_exists.1 htext
      refine isSome_recalled?_remember a ?_
      obtain hold | hnew := recalled?_remember hb
      · exact h.paired i hi (by simp [hold])
      · cases hnew
        exact hpaired i rfl hi hq
    · exact fun i hi => h.isWritten_remember hw hi
  · rw [remember_of_not_has a hq]
    exact h

theorem warned (h : Coherent m u v) (ws : List String) : Coherent m u { v with warnings := ws } :=
  ⟨h.assigned, h.symbols_size, h.choices_size, h.constants, h.isOpen, h.means, h.paired,
    h.unwritten⟩

end Coherent

/-! ## Evaluation with memory -/

variable {α β : Type} {m : Model} {u : Assigned}

/-- Reads from a table that is known only in the end. -/
def Readers.among (m : Model) (u : Assigned) : Readers (ReaderT Table PlainM) where
  model := m
  ask q := fun t => StateT.lift (t q)
  user i := pure (u.user i)
  userMode c := pure (u.mode c)
  userSelection c := pure (u.selection c)
  setWritten b := fun _ => set (some b)
  warn text := fun t => StateT.lift (discard ((text t).run' none))

/-- The first computation is the second one once it is given the table. -/
def Link.at (t : Table) : Link (ReaderT Table PlainM) PlainM where
  Rel x y := x t = y
  pure _ := rfl
  bind {_ _ x y f g} hx hf := by
    subst hx
    have hfg : (fun a => f a t) = g := funext hf
    subst hfg
    rfl

instance (t : Table) : (Link.at t).Faults := ⟨fun _ _ => rfl⟩

theorem linked_at (t : Table) :
    Linked (Link.at t) m (fun _ => True) (fun _ => True) (fun _ => True) True
      (.among m u) (.plain m u true t) where
  left := rfl
  right := rfl
  ask _ _ := rfl
  user _ _ := rfl
  userMode _ _ := rfl
  userSelection c _ _ _ _ hfg := hfg (u.selection c) fun _ _ => trivial
  setWritten _ _ := rfl
  warn x y hxy := by
    cases hxy trivial
    rfl

theorem infer_among (t : Table) (q : Query) :
    m.infer u true t q = (among m u).answer q t none := by
  have hrel : (among m u).answer q t = _ := (linked_at t).answer (fun _ _ => trivial) trivial
    (fun _ _ => trivial) fun _ _ _ => trivial
  rw [hrel]
  rfl

/-- Memory that evaluation may rely on: the states, the tables that suffice for what a state
remembers, and the faults that are found over these tables like answers. -/
structure Memory (u : Assigned) where
  Holds : Values → Prop
  tables : Values → Filter Table
  Finds : Fault → Prop
  assigned : ∀ {v}, Holds v → v.assigned = u
  warned : ∀ {v} ws, Holds v →
    Holds { v with warnings := ws } ∧ tables { v with warnings := ws } = tables v

namespace Memory

variable {M : Memory u} {L : Set Table} {v : Values} {ask : (q : Query) → EvalM q.Answer}

/-- Whether an outcome is an answer or a fault that is found like one. -/
def Found (M : Memory u) (r : Except Fault α) : Prop := ∀ e, r = .error e → M.Finds e

theorem Found.of_bind {r : Except Fault α} {f : α → Except Fault β} (h : M.Found (r >>= f)) :
    M.Found r := by
  rintro e rfl
  exact h e rfl

theorem Found.of_map {r : Except Fault α} {f : α → β} (h : M.Found (r.map f)) : M.Found r := by
  rintro e rfl
  exact h e rfl

/-- A computation leads to a state that remembers more.  Its outcome is found over all tables that
suffice for this state; and it is the outcome over tables in `L`, where one is found. -/
def Tracks (M : Memory u) (L : Set Table) (m : Model) (v : Values) (x : EvalM α)
    (y : Table → Except Fault α) : Prop :=
  ∃ r v', x.runOn m v = (r, v') ∧ M.Holds v' ∧ M.tables v' ≤ M.tables v ∧
    (M.Found r → ∀ᶠ t in M.tables v', y t = r) ∧ ∀ t ∈ L, M.Found (y t) → y t = r

variable {x : EvalM α}

theorem Tracks.of_runOn {a : α} (hv : M.Holds v) (h : x.runOn m v = (.ok a, v)) :
    M.Tracks L m v x fun _ => .ok a :=
  ⟨.ok a, v, h, hv, le_rfl, fun _ => .of_forall fun _ => rfl, fun _ _ _ => rfl⟩

theorem Tracks.bind {y : Table → Except Fault α} {f : α → EvalM β} {g : Table → α → Except Fault β}
    (h : M.Tracks L m v x y) (hfg : ∀ a v', M.Holds v' → M.Tracks L m v' (f a) (g · a)) :
    M.Tracks L m v (x >>= f) fun t => y t >>= g t := by
  obtain ⟨r, v₁, hrun, hv₁, hle, hy, hlow⟩ := h
  cases r with
  | error e =>
    refine ⟨.error e, v₁, runOn_bind_error hrun, hv₁, hle, fun he => ?_, fun t ht hfound => ?_⟩
    · filter_upwards [hy fun e' he' => he e' (by cases he'; rfl)] with t ht
      rw [ht]
      rfl
    · dsimp only at hfound ⊢
      rw [hlow t ht hfound.of_bind]
      rfl
  | ok a =>
    obtain ⟨r, v₂, hrun₂, hv₂, hle₂, hg, hlow₂⟩ := hfg a v₁ hv₁
    refine ⟨r, v₂, (runOn_bind_ok hrun).trans hrun₂, hv₂, hle₂.trans hle, fun he => ?_,
      fun t ht hfound => ?_⟩
    · filter_upwards [hle₂ (hy nofun), hg he] with t ht hgt
      rw [ht]
      exact hgt
    · dsimp only at hfound ⊢
      have hyt := hlow t ht hfound.of_bind
      rw [hyt] at hfound ⊢
      exact hlow₂ t ht hfound

def link (M : Memory u) (L : Set Table) (m : Model) : Link RuleM (ReaderT Table PlainM) where
  Rel x y := ∀ v s, M.Holds v → M.Tracks L m v (x.run s) fun t => y t s
  pure _ _ _ hv := .of_runOn hv rfl
  bind hx hf v s hv := (hx v s hv).bind fun p v' hv' => hf p.1 v' p.2 hv'

instance (M : Memory u) (L : Set Table) (m : Model) : (M.link L m).Faults :=
  ⟨fun e _ v _ hv =>
    ⟨.error e, v, rfl, hv, le_rfl, fun _ => .of_forall fun _ => rfl, fun _ _ _ => rfl⟩⟩

/-- A way to answer queries whose outcomes are found over tables. -/
def Answers (M : Memory u) (L : Set Table) (m : Model) (ask : (q : Query) → EvalM q.Answer) : Prop :=
  ∀ q v, M.Holds v → M.Tracks L m v (ask q) (· q)

theorem Answers.linked (hask : M.Answers L m ask) :
    Linked (M.link L m) m (fun _ => True) (fun _ => True) (fun _ => True) True
      (.evaluating m ask) (.among m u) where
  left := rfl
  right := rfl
  ask q _ v s hv := (hask q v hv).bind fun _ _ hv' => .of_runOn hv' rfl
  user i _ v s hv := .of_runOn hv (by rw [← M.assigned hv]; rfl)
  userMode c _ v s hv := .of_runOn hv (by rw [← M.assigned hv]; rfl)
  userSelection c _ β f g hfg v s hv := by
    have hread : M.Tracks L m v (((evaluating m ask).userSelection c).run s)
        fun _ => .ok (u.selection c, s) := .of_runOn hv (by rw [← M.assigned hv]; rfl)
    exact hread.bind fun p v' hv' => hfg p.1 (fun _ _ => trivial) v' p.2 hv'
  setWritten _ b v s hv := .of_runOn hv rfl
  warn x y hxy v s hv := by
    have htext := (hxy trivial v none hv).bind (f := fun p => pure p.1) (g := fun _ p => .ok p.1)
      fun _ _ hv' => .of_runOn hv' rfl
    have hwarned := htext.bind (f := evalWarn) (g := fun _ _ => .ok ()) fun text v' hv' =>
      ⟨.ok (), _, rfl, (M.warned _ hv').1, (M.warned _ hv').2.le, fun _ => .of_forall fun _ => rfl,
        fun _ _ _ => rfl⟩
    exact hwarned.bind fun _ _ hv' => .of_runOn hv' rfl

end Memory

/-! ## Evaluation keeps states coherent -/

variable {ask : (q : Query) → EvalM q.Answer} {v v' : Values} {q : Query}

theorem runOn_answer_text {i : SymbolId} (hi : (m.symbol i).kind.isLogical)
    {p : String × Option Bool}
    (h : (((evaluating m ask).answer (.text i)).run none).runOn m v = (.ok p, v')) :
    ∃ a, (ask (.tristate i)).runOn m v = (.ok a, v') := by
  have hi' : ((evaluating m ask).model.symbol i).kind.isLogical := hi
  simp only [answer, freshText, hi'] at h
  rcases hrun : (ask (.tristate i)).runOn m v with ⟨r, v₁⟩
  cases r with
  | ok a =>
    cases (runOn_bind_ok (runOn_bind_ok hrun)).symm.trans h
    exact ⟨a, rfl⟩
  | error e => cases (runOn_bind_error (runOn_bind_error hrun)).symm.trans h

theorem runOn_recalling_some {rule : RuleM q.Answer} {a : q.Answer} (h : v.recalled? q = some a) :
    (recalling q rule).runOn m v = (.ok a, v) := by
  unfold recalling
  rw [runOn_bind, runOn_get]
  simp only [h, runOn_pure]

theorem runOn_recalling_none {rule : RuleM q.Answer} (h : v.recalled? q = none) :
    (recalling q rule).runOn m v = match (rule.run none).runOn m v with
      | (.ok p, v') => (.ok p.1, v'.remember p.2 q p.1)
      | (.error e, v') => (.error e, v') := by
  unfold recalling
  rw [runOn_bind, runOn_get]
  simp only [h]
  rcases hrun : (rule.run none).runOn m v with ⟨r, v'⟩
  cases r with
  | ok p => rw [runOn_bind_ok hrun]; rfl
  | error e => rw [runOn_bind_error hrun]

theorem isSome_recalled?_of_answerWithin {n : Nat} {a : q.Answer}
    (h : (answerWithin m n q).runOn m v = (.ok a, v')) (hhas : v'.Has q.item)
    (hmode : ∀ c, q ≠ .mode c) : (v'.recalled? q).isSome := by
  cases n with
  | zero => cases h
  | succ n =>
    cases hq : v.recalled? q with
    | some b =>
      cases (runOn_recalling_some hq).symm.trans h
      simp [hq]
    | none =>
      rw [answerWithin, runOn_recalling_none hq] at h
      split at h
      · cases h
        exact isSome_recalled?_remember_self _ (by simpa [Values.Has] using hhas) hmode
      · cases h

theorem Memory.Answers.recalling {M : Memory u} {L L' : Set Table} (hask : M.Answers L m ask)
    (hrecalled : ∀ {v q a}, M.Holds v → v.recalled? q = some a →
      (∀ᶠ t in M.tables v, t q = .ok a) ∧ ∀ t ∈ L', M.Found (t q) → t q = .ok a)
    (hremember : ∀ {v v' q p}, M.Holds v → v.recalled? q = none → M.Holds v' →
      (((evaluating m ask).answer q).run none).runOn m v = (.ok p, v') →
      (∀ᶠ t in M.tables v', m.infer u true t q = .ok p) → M.Holds (v'.remember p.2 q p.1) ∧
        M.tables (v'.remember p.2 q p.1) ≤ M.tables v' ∧
        ∀ᶠ t in M.tables (v'.remember p.2 q p.1), t q = .ok p.1)
    (hfault : ∀ {v v' q e}, M.Holds v → v.recalled? q = none → M.Finds e →
      (∀ᶠ t in M.tables v', m.infer u true t q = .error e) →
        ∀ᶠ t in M.tables v', t q = .error e) (hlow : ∀ {v q}, M.Holds v → v.recalled? q = none →
      ∀ t' ∈ L', ∃ t ∈ L, t' q = (m.infer u true t q).map (·.1)) :
    M.Answers L' m fun q => recalling q ((evaluating m ask).answer q) := by
  intro q v hv
  cases hq : v.recalled? q with
  | some a =>
    exact ⟨.ok a, v, runOn_recalling_some hq, hv, le_rfl, fun _ => (hrecalled hv hq).1,
      (hrecalled hv hq).2⟩
  | none =>
    obtain ⟨r, v', hrun, hv', hle, hgives, hbelow⟩ := hask.linked.answer (q := q)
      (fun _ _ => trivial) trivial (fun _ _ => trivial) (fun _ _ _ => trivial) v none hv
    simp only [← infer_among] at hgives hbelow
    have hlow' : ∀ t' ∈ L', M.Found (t' q) → t' q = r.map (·.1) := by
      intro t' ht' hfound
      obtain ⟨t, ht, heq⟩ := hlow hv hq t' ht'
      rw [heq] at hfound ⊢
      rw [hbelow t ht hfound.of_map]
    simp only [Memory.Tracks, runOn_recalling_none hq, hrun]
    cases r with
    | error e =>
      exact ⟨.error e, v', rfl, hv', hle, fun he => hfault hv hq (he e rfl)
        (hgives fun e' he' => he e' (by cases he'; rfl)), hlow'⟩
    | ok p =>
      obtain ⟨hholds, hmore, hfound⟩ := hremember hv hq hv' hrun (hgives nofun)
      exact ⟨.ok p.1, _, rfl, hholds, hmore.trans hle, fun _ => hfound, hlow'⟩

theorem open_remember (hv : Coherent m u v) {a : q.Answer} {w : Option Bool}
    (h : m.infer u true (m.settled u v.Known) q = .ok (a, w)) :
    m.Open (v.remember w q a).Known q := by
  by_cases hq : ∃ x : Item, q = x.visibility
  · obtain ⟨x, rfl⟩ := hq
    have hitem : x.visibility.item = x := by cases x <;> rfl
    by_cases hx : m.Has x
    · refine .inl ?_
      rw [hitem, Values.Known, isKnown_eq_recalled?]
      refine isSome_recalled?_remember_self a ?_ fun c hc => ?_
      · rw [hitem]
        exact (hv.has_iff x).2 hx
      · cases x <;> cases hc
    · exact .inr (.inl (by rwa [hitem]))
  · exact (Model.Open.of_infer (fun x hx => hq ⟨x, hx⟩) h).mono (Coherent.known_remember a w)

/-!
## The depth of reads

Without any memory, a query has an outcome by reads that are nested to a given depth
(`Model.outcomeWithin`).  An outcome other than running out of depth is decided: more depth does not
change it.  Reading a value keeps a state coherent and gives what the query means, whatever the depth
of the reads.
-/

namespace Model

def constant? (m : Model) (q : Query) : Option q.Answer :=
  if asksConstant q then (m.fixed? q).map (·.1) else none

/-- The outcomes of queries one read further out than those in a table. -/
def deepen (m : Model) (u : Assigned) (t : Table) : Table := fun q =>
  match m.constant? q with
  | some a => .ok a
  | none => (m.infer u true t q).map (·.1)

/-- The outcomes of queries by reads that are nested to the given depth, without memory. -/
def outcomeWithin (m : Model) (u : Assigned) : Nat → Table
  | 0 => fun _ => .error .unbounded
  | n + 1 => m.deepen u (outcomeWithin m u n)

end Model

/-- Whether an outcome is anything but that evaluation does not end. -/
def Decided {α : Type} (o : Except Fault α) : Prop := o ≠ .error .unbounded

@[simp]
theorem decided_ok (a : α) : Decided (.ok a : Except Fault α) := nofun

@[simp]
theorem decided_error {e : Fault} : Decided (.error e : Except Fault α) ↔ e ≠ .unbounded := by
  simp [Decided]

@[simp]
theorem decided_map {f : α → β} {o : Except Fault α} : Decided (o.map f) ↔ Decided o := by
  cases o <;> simp [Except.map]

/-! ## More depth -/

/-- Decided outcomes of the first computation are outcomes of the second one. -/
def Link.decides : Link PlainM PlainM where
  Rel x y := ∀ s, Decided (x s) → y s = x s
  pure _ _ _ := rfl
  bind {_ _ x y f g} hx hf s h := by
    rw [PlainM.bind_apply] at h ⊢
    rw [PlainM.bind_apply]
    cases hxs : x s with
    | error e =>
      rw [hxs] at h
      have hys : y s = .error e := (hx s (by rw [hxs]; simpa using decided_error.1 h)).trans hxs
      rw [hys]
      rfl
    | ok p =>
      have hys : y s = .ok p := (hx s (by simp [hxs])).trans hxs
      rw [hys]
      rw [hxs] at h
      exact hf p.1 p.2 h

instance : Link.decides.Faults := ⟨fun _ _ _ _ => rfl⟩

namespace Model

variable {t t' : Table}

theorem linked_decides (htt : ∀ q, Decided (t q) → t' q = t q) :
    Linked Link.decides m (fun _ => True) (fun _ => True) (fun _ => True) True
      (.plain m u true t) (.plain m u true t') where
  left := rfl
  right := rfl
  ask q _ s h := by
    have htq : t' q = t q := by
      refine htt q fun hq => h ?_
      simp [plain, StateT.lift, hq]
    simp only [plain, htq]
  user i _ s h := rfl
  userMode c _ s h := rfl
  userSelection c _ β f g hfg s h := hfg (u.selection c) (fun _ _ => trivial) s h
  setWritten _ b s h := rfl
  warn x y hxy s h := by
    have hx : Decided (x none) := by
      intro hx
      apply h
      simp [plain, StateT.lift, StateT.run', hx, Except.map, Functor.discard, Functor.mapConst]
    have hy := hxy trivial none hx
    simp only [plain, StateT.run', hy]

theorem infer_decided (htt : ∀ q, Decided (t q) → t' q = t q) (h : Decided (m.infer u true t q)) :
    m.infer u true t' q = m.infer u true t q :=
  (linked_decides htt).answer (fun _ _ => trivial) trivial (fun _ _ => trivial)
    (fun _ _ _ => trivial) none h

theorem deepen_decided (htt : ∀ q, Decided (t q) → t' q = t q) (h : Decided (m.deepen u t q)) :
    m.deepen u t' q = m.deepen u t q := by
  unfold deepen at h ⊢
  cases hc : m.constant? q with
  | some a => rfl
  | none =>
    simp only [hc, decided_map] at h ⊢
    rw [infer_decided htt h]

theorem outcomeWithin_succ (n : Nat) :
    ∀ q, Decided (m.outcomeWithin u n q) → m.outcomeWithin u (n + 1) q = m.outcomeWithin u n q := by
  induction n with
  | zero => exact fun q h => absurd rfl h
  | succ n ih => exact fun q h => deepen_decided ih h

variable {a : q.Answer} {n : Nat}

theorem outcomeWithin_le {k : Nat} (hnk : n ≤ k) (h : Decided (m.outcomeWithin u n q)) :
    m.outcomeWithin u k q = m.outcomeWithin u n q := by
  induction hnk with
  | refl => rfl
  | step _ ih =>
    rw [outcomeWithin_succ _ _ (by rwa [ih]), ih]

/-! ## Outcomes and meaning -/

theorem constant?_eq_none (hq : asksConstant q = false) : m.constant? q = none := by
  simp [constant?, hq]

theorem outcomeWithin_eq_infer (hq : asksConstant q = false) (n : Nat) :
    m.outcomeWithin u (n + 1) q = (m.infer u true (m.outcomeWithin u n) q).map (·.1) := by
  simp only [outcomeWithin, deepen, constant?_eq_none hq]

theorem constant?_eq_some (h : m.constant? q = some a) : ∃ w, m.fixed? q = some (a, w) := by
  unfold constant? at h
  split at h
  · obtain ⟨f, hf, rfl⟩ := Option.map_eq_some_iff.1 h
    exact ⟨f.2, hf⟩
  · cases h

theorem isSome_constant? (hq : asksConstant q) : (m.constant? q).isSome := by
  cases q with
  | tristate i =>
    have hi : i ≤ 2 := of_decide_eq_true hq
    match i, hi with
    | 0, _ | 1, _ | 2, _ => rfl
  | _ => cases hq

theorem outcomeWithin_induction
    {P : (q : Query) → q.Answer → Prop} (hconstant : ∀ q a, m.constant? q = some a → P q a)
    (hrule : ∀ n q r, asksConstant q = false → (∀ p b, m.outcomeWithin u n p = .ok b → P p b) →
      m.infer u true (m.outcomeWithin u n) q = .ok r → m.outcomeWithin u (n + 1) q = .ok r.1 →
        P q r.1) (n : Nat) : ∀ q a, m.outcomeWithin u n q = .ok a → P q a := by
  induction n with
  | zero => exact fun q a h => by cases h
  | succ n ih =>
    intro q a hfound
    have h := hfound
    simp only [outcomeWithin, deepen] at h
    cases hc : m.constant? q with
    | some b =>
      simp only [hc] at h
      cases h
      exact hconstant q _ hc
    | none =>
      have hq : asksConstant q = false := by
        by_contra hq
        have hsome := isSome_constant? (m := m) (by simpa using hq)
        simp [hc] at hsome
      simp only [hc] at h
      cases hinfer : m.infer u true (m.outcomeWithin u n) q with
      | error e => simp [hinfer, Except.map] at h
      | ok r =>
        rw [hinfer] at h
        cases h
        exact hrule n q r hq ih hinfer hfound

theorem means_of_outcome (h : m.outcomeWithin u n q = .ok a) :
    ∃ w, m.Means u (fun _ => True) q a w := by
  refine outcomeWithin_induction (P := fun q a => ∃ w, m.Means u (fun _ => True) q a w)
    (fun q a hc => ?_) (fun n q r hq ih hinfer _ => ?_) n q a h
  · obtain ⟨w, hw⟩ := constant?_eq_some hc
    exact ⟨w, .fixed hw⟩
  · have hle : ∀ p b, m.outcomeWithin u n p = .ok b → m.settled u (fun _ => True) p = .ok b :=
      fun p b hp => settled_eq_ok.2 ⟨.inl trivial, ih p b hp⟩
    have hsettled := infer_mono (fun p _ => hle p) (fun _ _ i _ => hle _) (.refl u _) hinfer
    exact ⟨r.2, Means.of_infer hq hsettled⟩

end Model

/-! ## Memory -/

theorem Values.asksConstant_eq_false (hv : ∀ q, asksConstant q → (v.recalled? q).isSome)
    (hq : v.recalled? q = none) : asksConstant q = false := by
  by_contra hq'
  simpa [hq] using hv q (by simpa using hq')

/-- Coherent states, with the tables of what is settled if at least the known items are. -/
noncomputable def Coherent.memory (m : Model) (u : Assigned) : Memory u where
  Holds := Coherent m u
  tables v := (Filter.principal {K | ∀ x, v.Known x → K x}).map (m.settled u)
  Finds _ := False
  assigned h := h.assigned
  warned ws h := ⟨h.warned ws, rfl⟩

theorem Coherent.settled (hv : Coherent m u v) {a : q.Answer} (h : v.recalled? q = some a) :
    ∀ᶠ t in (Coherent.memory m u).tables v, t q = .ok a := by
  obtain ⟨w, hw, -⟩ := hv.means q a h
  exact Filter.eventually_principal.2 fun K hK =>
    settled_eq_ok.2 ⟨(hv.isOpen q a h).mono hK, w, hw.mono hK⟩

theorem answers_settled (n : Nat) :
    (Coherent.memory m u).Answers {m.outcomeWithin u n} m (answerWithin m n) := by
  induction n with
  | zero =>
    refine fun q v hv => ⟨.error .unbounded, v, rfl, hv, le_rfl, fun h => (h _ rfl).elim, ?_⟩
    rintro _ rfl -
    rfl
  | succ n ih =>
    refine ih.recalling (fun {v q a} hv hq => ⟨Coherent.settled hv hq, ?_⟩)
      (fun {v v' q p} hv hq hv' hrun hgives => ?_) (fun _ _ he => he.elim) fun {v q} hv hq => ?_
    · rintro _ rfl hfound
      cases hb : m.outcomeWithin u (n + 1) q with
      | error e => exact (hfound e hb).elim
      | ok b =>
        obtain ⟨w, hw, -⟩ := Coherent.means hv q a hq
        obtain ⟨w', hw'⟩ := means_of_outcome hb
        rw [(hw'.unique hw).1]
    · have hinfer := Filter.eventually_principal.1 hgives v'.Known fun _ h => h
      have hmeans := Model.Means.of_infer (asksConstant_eq_false (Coherent.constants hv) hq)
        hinfer
      have hopen := open_remember hv' hinfer
      have hknown := Coherent.known_remember (v := v') p.1 p.2
      refine ⟨hv'.remember hmeans hopen ?_, ?_, Filter.eventually_principal.2 fun K hK =>
        settled_eq_ok.2 ⟨hopen.mono hK, _, (hmeans.mono hknown).mono hK⟩⟩
      · rintro i rfl hi hhas
        obtain ⟨b, hb⟩ := runOn_answer_text hi hrun
        exact isSome_recalled?_of_answerWithin hb hhas fun c => by simp
      · exact Filter.map_mono (Filter.principal_mono.2 fun K hK x hx => hK x (hknown x hx))
    · rintro _ rfl
      exact ⟨_, rfl, outcomeWithin_eq_infer
        (asksConstant_eq_false (Coherent.constants hv) hq) n⟩

/-- An answer has been found: it is meant, and can be recalled. -/
structure Found (m : Model) (u : Assigned) (v : Values) (q : Query) (a : q.Answer) : Prop where
  means : ∃ w, m.Means u v.Known q a w
  recalled : v.Has q.item → (∀ c, q ≠ .mode c) → (v.recalled? q).isSome

theorem answers_answerWithin (n : Nat) (q : Query) (v : Values) (hv : Coherent m u v) :
    ∃ r v', (answerWithin m n q).runOn m v = (r, v') ∧ Coherent m u v' ∧
      ∀ a, r = .ok a → Found m u v' q a := by
  obtain ⟨r, v', hrun, hv', -, hgives, -⟩ := answers_settled n q v hv
  refine ⟨r, v', hrun, hv', ?_⟩
  rintro a rfl
  have hsettled := Filter.eventually_principal.1 (hgives nofun) v'.Known fun _ h => h
  exact ⟨(settled_eq_ok.1 hsettled).2, isSome_recalled?_of_answerWithin hrun⟩

end Buildsmith.Kconfig
