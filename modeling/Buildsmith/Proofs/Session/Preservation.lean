/-!
# Computations that preserve a property

Reading, evaluating and loading are computations with a state that survives a fault.  Such a
computation preserves a property of states if each run leads from a state with the property to a
state with the property, whatever its outcome.
-/

namespace Buildsmith.Kconfig

variable {ε σ α β : Type} {P P' : σ → Prop} {Q Q' : α → σ → Prop} {R : β → σ → Prop}
  {x y : ExceptT ε (StateM σ) α} {f : α → ExceptT ε (StateM σ) β}
  {g : σ → ExceptT ε (StateM σ) β} {c : Prop}

theorem bind_eq_ok {x : Except ε α} {f : α → Except ε β} {b : β} :
    (x >>= f) = .ok b ↔ ∃ a, x = .ok a ∧ f a = .ok b := by
  cases x <;> simp [bind, Except.bind]

theorem mapM_eq_ok {f : α → Except ε β} {xs : List α} {ys : List β} :
    xs.mapM f = .ok ys ↔ xs.map f = ys.map .ok := by
  induction xs generalizing ys with
  | nil => cases ys <;> simp [pure, Except.pure]
  | cons x xs ih =>
    rw [List.mapM_cons, bind_eq_ok]
    cases ys with
    | nil => simp [bind_eq_ok, pure, Except.pure]
    | cons y ys => simp [bind_eq_ok, pure, Except.pure, ih]

def runFrom (x : ExceptT ε (StateM σ) α) (s : σ) : Except ε α × σ :=
  x.run.run s

section Runs

variable {s s' : σ}

@[simp]
theorem runFrom_pure (a : α) : runFrom (pure a : ExceptT ε (StateM σ) α) s = (.ok a, s) := rfl

@[simp]
theorem runFrom_throw (e : ε) : runFrom (throw e : ExceptT ε (StateM σ) α) s = (.error e, s) := rfl

@[simp]
theorem runFrom_get : runFrom (get : ExceptT ε (StateM σ) σ) s = (.ok s, s) := rfl

@[simp]
theorem runFrom_set (t : σ) : runFrom (set t : ExceptT ε (StateM σ) PUnit) s = (.ok ⟨⟩, t) := rfl

@[simp]
theorem runFrom_modify (f : σ → σ) :
    runFrom (modify f : ExceptT ε (StateM σ) PUnit) s = (.ok ⟨⟩, f s) := rfl

theorem runFrom_bind (x : ExceptT ε (StateM σ) α) (f : α → ExceptT ε (StateM σ) β) :
    runFrom (x >>= f) s = match runFrom x s with
      | (.ok a, s') => runFrom (f a) s'
      | (.error e, s') => (.error e, s') := by
  simp only [runFrom, ExceptT.run_bind, StateT.run_bind]
  rcases x.run.run s with ⟨r, s'⟩
  cases r <;> rfl

theorem runFrom_bind_ok {a : α} (h : runFrom x s = (.ok a, s')) :
    runFrom (x >>= f) s = runFrom (f a) s' := by
  rw [runFrom_bind, h]

theorem runFrom_bind_error {e : ε} (h : runFrom x s = (.error e, s')) :
    runFrom (x >>= f) s = (.error e, s') := by
  rw [runFrom_bind, h]

theorem runFrom_bind_eq_ok {b : β} : runFrom (x >>= f) s = (.ok b, s') ↔
      ∃ a s₁, runFrom x s = (.ok a, s₁) ∧ runFrom (f a) s₁ = (.ok b, s') := by
  rw [runFrom_bind]
  rcases runFrom x s with ⟨r, s₁⟩
  cases r with
  | ok a =>
    constructor
    · exact fun h => ⟨a, s₁, rfl, h⟩
    · rintro ⟨_, _, ⟨⟩, h⟩
      exact h
  | error e => simp

theorem runFrom_tryCatch (x : ExceptT ε (StateM σ) α) (f : ε → ExceptT ε (StateM σ) α) :
    runFrom (tryCatch x f) s = match runFrom x s with
      | (.ok a, s') => (.ok a, s')
      | (.error e, s') => runFrom (f e) s' := by
  simp only [runFrom, tryCatch, tryCatchThe, MonadExceptOf.tryCatch, ExceptT.tryCatch, ExceptT.run,
    ExceptT.mk, StateT.run_bind]
  rcases StateT.run x s with ⟨r, s'⟩
  cases r <;> rfl

theorem runFrom_discard (x : ExceptT ε (StateM σ) α) :
    runFrom (discard x) s = runFrom (x >>= fun _ => pure ⟨⟩) s := by
  rcases x s with ⟨r, s'⟩
  cases r <;> rfl

theorem runFrom_discard_snd (x : ExceptT ε (StateM σ) α) :
    (runFrom (discard x) s).2 = (runFrom x s).2 := by
  rw [runFrom_discard, runFrom_bind]
  rcases runFrom x s with ⟨r, s'⟩
  cases r <;> rfl

end Runs

/-- Whether each run from a state with a property gives a result that has the last property with the
state that is reached, or fails as the first one allows. -/
structure Leads (E : ε → σ → Prop) (P : σ → Prop) (x : ExceptT ε (StateM σ) α) (R : α → σ → Prop) :
    Prop where
  run : ∀ s, P s →
    match runFrom x s with
    | (.ok a, s') => R a s'
    | (.error e, s') => E e s'

namespace Leads

variable {E : ε → σ → Prop} {K : σ → Prop} {S : β → σ → Prop} {R R' : α → σ → Prop}

theorem cases {s : σ} (hx : Leads E P x R) (hs : P s) :
    (∃ a s', runFrom x s = (.ok a, s') ∧ R a s') ∨ ∃ e s', runFrom x s = (.error e, s') ∧ E e s' := by
  have hrun := hx.run s hs
  rcases hxs : runFrom x s with ⟨r, s'⟩
  rw [hxs] at hrun
  cases r with
  | ok a => exact .inl ⟨a, s', rfl, hrun⟩
  | error e => exact .inr ⟨e, s', rfl, hrun⟩

theorem pure {a : α} (h : ∀ s, P s → R a s) : Leads E P (Pure.pure a) R := ⟨h⟩

theorem keep {a : α} : Leads E P (Pure.pure a) fun _ => P := pure fun _ h => h

theorem throw {e : ε} (h : ∀ s, P s → E e s) : Leads E P (throw e : ExceptT ε (StateM σ) α) R := ⟨h⟩

theorem modify {g : σ → σ} {R : PUnit → σ → Prop} (h : ∀ s, P s → R ⟨⟩ (g s)) :
    Leads E P (modify g : ExceptT ε (StateM σ) PUnit) R := ⟨h⟩

theorem bind (hx : Leads E P x R) (hf : ∀ a, Leads E (R a) (f a) S) : Leads E P (x >>= f) S := by
  refine ⟨fun s hs => ?_⟩
  rw [runFrom_bind]
  obtain ⟨a, s', hrun, ha⟩ | ⟨e, s', hrun, he⟩ := hx.cases hs
  · rw [hrun]
    exact (hf a).run s' ha
  · rwa [hrun]

theorem get_bind (h : ∀ s, P s → Leads E (· = s) (g s) S) : Leads E P (get >>= g) S :=
  ⟨fun s hs => (h s hs).run s rfl⟩

theorem each (h : ∀ s, P s → Leads E (· = s) x R) : Leads E P x R :=
  ⟨fun s hs => (h s hs).run s rfl⟩

theorem get_bind' (h : ∀ s, Leads E P (g s) S) : Leads E P (get >>= g) S :=
  ⟨fun s hs => (h s).run s hs⟩

theorem get_bind_of (h : ∀ s, P s → Leads E P (g s) S) : Leads E P (get >>= g) S :=
  ⟨fun s hs => (h s hs).run s hs⟩

theorem set {t : σ} {R : PUnit → σ → Prop} (h : ∀ s, P s → R ⟨⟩ t) :
    Leads E P (MonadStateOf.set t : ExceptT ε (StateM σ) PUnit) R := ⟨h⟩

theorem imp {E' : ε → σ → Prop} (hx : Leads E P x R) (hE : ∀ e s, E e s → E' e s)
    (hR : ∀ a s, R a s → R' a s) : Leads E' P x R' := by
  refine ⟨fun s hs => ?_⟩
  obtain ⟨a, s', hrun, ha⟩ | ⟨e, s', hrun, he⟩ := hx.cases hs
  · rw [hrun]
    exact hR a s' ha
  · rw [hrun]
    exact hE e s' he

theorem pre (hx : Leads E P x R) (hP : ∀ s, P' s → P s) : Leads E P' x R :=
  ⟨fun s hs => hx.run s (hP s hs)⟩

theorem post (hx : Leads E P x R) (hR : ∀ a s, R a s → R' a s) : Leads E P x R' :=
  hx.imp (fun _ _ => id) hR

theorem mono (hx : Leads E P x R) (hP : ∀ s, P' s → P s) (hR : ∀ a s, R a s → R' a s) :
    Leads E P' x R' :=
  (hx.pre hP).post hR

theorem and_left (hx : c → Leads E P x R) : Leads E (fun s => c ∧ P s) x R :=
  ⟨fun s hs => (hx hs.1).run s hs.2⟩

theorem of_exists {ι : Type} {P : ι → σ → Prop} (hx : ∀ i, Leads E (P i) x R) :
    Leads E (fun s => ∃ i, P i s) x R :=
  ⟨fun s ⟨i, hs⟩ => (hx i).run s hs⟩

theorem and_right (hx : c → Leads E P x R) : Leads E (fun s => P s ∧ c) x R :=
  ⟨fun s hs => (hx hs.2).run s hs.1⟩

theorem tryCatch {E' : ε → σ → Prop} {h : ε → ExceptT ε (StateM σ) α} (hx : Leads E P x R)
    (hh : ∀ e, Leads E' (E e) (h e) R) : Leads E' P (tryCatch x h) R := by
  refine ⟨fun s hs => ?_⟩
  rw [runFrom_tryCatch]
  obtain ⟨a, s', hrun, ha⟩ | ⟨e, s', hrun, he⟩ := hx.cases hs
  · rwa [hrun]
  · rw [hrun]
    exact (hh e).run s' he

theorem ite [Decidable c] (hx : c → Leads E P x R) (hy : ¬c → Leads E P y R) :
    Leads E P (if c then x else y) R := by
  split
  · exact hx ‹_›
  · exact hy ‹_›

theorem forIn {xs : List β} {f : β → PUnit → ExceptT ε (StateM σ) (ForInStep PUnit)}
    {P : List β → σ → Prop} (hf : ∀ done, ∀ a ∈ xs, Leads E (P done) (f a ⟨⟩) fun r s =>
      r = .yield ⟨⟩ ∧ P (done ++ [a]) s) (done : List β) :
    Leads E (P done) (ForIn.forIn xs ⟨⟩ f) fun _ => P (done ++ xs) := by
  induction xs generalizing done with
  | nil => exact pure fun _ hs => by rwa [List.append_nil]
  | cons a xs ih =>
    rw [List.forIn_cons]
    refine (hf done a List.mem_cons_self).bind fun r => .and_left fun hr => ?_
    subst hr
    rw [List.append_cons done a xs]
    exact ih (fun done b hb => hf done b (List.mem_cons_of_mem _ hb)) _

theorem apply {s s' : σ} {a : α} (hx : Leads E P x R) (hs : P s)
    (hrun : runFrom x s = (.ok a, s')) : R a s' := by
  have hrun' := hx.run s hs
  rwa [hrun] at hrun'

theorem discard (hx : Leads E P x fun _ => K) : Leads E P (Functor.discard x) fun _ => K := by
  refine ⟨fun s hs => ?_⟩
  exact (hx.bind fun _ => .pure fun _ h => h).run s hs

end Leads

/-- Whether each run from a state with a property that gives a result leads to a state that has the
second property with it. -/
abbrev Gives (P : σ → Prop) (x : ExceptT ε (StateM σ) α) (Q : α → σ → Prop) : Prop :=
  Leads (fun _ _ => True) P x Q

theorem Leads.gives {E : ε → σ → Prop} (hx : Leads E P x Q) : Gives P x Q :=
  hx.imp (fun _ _ _ => trivial) fun _ _ => id

theorem Gives.throw (e : ε) : Gives P (throw e : ExceptT ε (StateM σ) α) Q :=
  Leads.throw fun _ _ => trivial

theorem Gives.intro (h : ∀ s a s', P s → runFrom x s = (.ok a, s') → Q a s') : Gives P x Q := by
  refine ⟨fun s hs => ?_⟩
  rcases hrun : runFrom x s with ⟨r, s'⟩
  cases r with
  | ok a => exact h s a s' hs hrun
  | error e => trivial

/-- Whether each run from a state with a property leads to a state with it. -/
abbrev Preserves (P : σ → Prop) (x : ExceptT ε (StateM σ) α) : Prop :=
  Leads (fun _ => P) P x fun _ => P

theorem preserves_iff : Preserves P x ↔ ∀ s, P s → P (runFrom x s).2 := by
  refine ⟨fun hx s hs => ?_, fun hx => ⟨fun s hs => ?_⟩⟩
  · obtain ⟨_, s', hrun, hs'⟩ | ⟨_, s', hrun, hs'⟩ := hx.cases hs <;> rwa [hrun]
  · have hs' := hx s hs
    rcases hxs : runFrom x s with ⟨r, s'⟩
    rw [hxs] at hs'
    cases r <;> exact hs'

theorem Preserves.throw (e : ε) : Preserves P (throw e : ExceptT ε (StateM σ) α) :=
  Leads.throw fun _ h => h

/-- Whether each run from a state with a property gives a result, and leads to a state that has the
second property with it. -/
abbrev Yields (P : σ → Prop) (x : ExceptT ε (StateM σ) α) (Q : α → σ → Prop) : Prop :=
  Leads (fun _ _ => False) P x Q

theorem Yields.result {s : σ} (hx : Yields P x Q) (hs : P s) :
    ∃ a s', runFrom x s = (.ok a, s') ∧ Q a s' :=
  (hx.cases hs).resolve_right fun ⟨_, _, _, h⟩ => h

/-- Whether each run from a state with a property fails in the given way if a condition holds, and
otherwise gives a result and leads to a state that has the second property with it. -/
abbrev YieldsUnless (c : Prop) (e : ε) (P : σ → Prop) (x : ExceptT ε (StateM σ) α)
    (Q : α → σ → Prop) : Prop :=
  Leads (fun e' _ => c ∧ e' = e) P x fun a s => ¬c ∧ Q a s

theorem Leads.bind_of_yields {E : ε → σ → Prop} (hx : Yields P x Q) (hf : ∀ a, Leads E (Q a) (f a) R) :
    Leads E P (x >>= f) R :=
  Leads.bind (hx.imp (fun _ _ => False.elim) fun _ _ => id) hf

theorem Leads.fails_bind {E : ε → σ → Prop} (hx : Leads E P x fun _ _ => False) :
    Leads E P (x >>= f) R :=
  hx.bind fun _ => ⟨fun _ => False.elim⟩

theorem Leads.eq_error {e : ε} {s : σ} (hx : Leads (fun e' _ => e' = e) P x fun _ _ => False)
    (hs : P s) : (runFrom x s).1 = .error e := by
  obtain ⟨_, _, -, h⟩ | ⟨_, s', hrun, rfl⟩ := hx.cases hs
  · exact h.elim
  · rw [hrun]

section Unless

variable {e : ε}

theorem Leads.of_yields (hc : ¬c) (hx : Yields P x Q) : YieldsUnless c e P x Q :=
  hx.imp (fun _ _ => False.elim) fun _ _ h => ⟨hc, h⟩

theorem YieldsUnless.congr {c' : Prop} (hc : c ↔ c') (hx : YieldsUnless c e P x Q) :
    YieldsUnless c' e P x Q :=
  hx.imp (fun _ _ => And.imp_left hc.1) fun _ _ => And.imp_left (mt hc.2)

theorem YieldsUnless.yields (hx : YieldsUnless c e P x Q) (hc : ¬c) : Yields P x Q :=
  hx.imp (fun _ _ h => hc h.1) fun _ _ => And.right

theorem YieldsUnless.fails (hx : YieldsUnless c e P x Q) (hc : c) :
    Leads (fun e' _ => e' = e) P x fun _ _ => False :=
  hx.imp (fun _ _ => And.right) fun _ _ h => h.1 hc

end Unless

end Buildsmith.Kconfig
