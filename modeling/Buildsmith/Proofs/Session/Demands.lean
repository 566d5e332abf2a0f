import Buildsmith.Proofs.Description.Loaded
import Buildsmith.Proofs.Session.Loading

/-!
# Expansions in sessions

A session may be asked for the expansion of a variable and for the value of a condition.  Where this
succeeds, no variable counts more expansions than before.  Where it fails in the middle of an
expansion, the counts stay raised, and whatever is asked afterwards, the variable is refused as
recursive from then on (`failed_expansion_stays`).
-/

namespace Buildsmith.Kconfig

open Option Reading

variable {α β : Type}

/-! ## Counts while conditions are read -/

/-- Whether a computation leaves the counts of expansions alone, or fails and leaves some raised. -/
abbrev Tidy (vs : List Variable) (x : ReadM α) : Prop :=
  Leads (fun _ r => ∃ extra, r.definitions = raised extra vs) (·.definitions = vs) x
    fun _ r => r.definitions = vs

variable {vs : List Variable}

theorem definitions_log (r : Reading) (text : String) : (r.log text).definitions = r.definitions := by
  unfold log
  split <;> rfl

theorem tidy_modify {g : Reading → Reading} (hg : ∀ r, (g r).definitions = r.definitions) :
    Tidy vs (modify g : ReadM PUnit) :=
  .modify fun r hr => (hg r).trans hr

theorem tidy_lookup (c : Bool) (name : String) : Tidy vs (lookup c name) := by
  refine .get_bind' fun r => ?_
  extract_lets limit push rest
  have hpush : ∀ u, Tidy vs (push u) := fun _ => .bind (tidy_modify fun _ => rfl) fun _ => .keep
  have hrest : ∀ u, Tidy vs (rest u) := fun _ =>
    .ite (fun _ => hpush ()) fun _ => .bind (tidy_modify fun r => definitions_log r _) hpush
  split
  · exact .ite (fun _ => .keep) fun _ => hrest ()
  · exact hrest ()

theorem tokenInvariant_definitions : TokenInvariant
    (fun _ r => ∃ extra, r.definitions = raised extra vs) (fun _ r => r.definitions = vs) where
  fails hr hs := hr ▸ hs.counts
  settles hr hs := hs.definitions.trans hr
  lookup _ := tidy_lookup
  constant := id
  mono hr _ := hr

theorem tidy_tokenize_if (s : String) : Tidy vs (tokenize ("if " ++ s)) := by
  refine .bind (tidy_modify fun _ => rfl) fun _ => ?_
  extract_lets cs word
  have hcs : cs = 'i' :: 'f' :: ' ' :: s.toList := by
    simp [cs, Text.isAsciiBlank]
  have hword : word = ['i', 'f'] := by
    simp [word, hcs, isCommandChar]
  clear_value cs word
  subst hword
  exact (tokenInvariant_definitions.readTokens (n := 0) _ _ _ _).bind fun _ => .keep

theorem tidy_readCondition (s : String) : Tidy vs (readCondition s) := by
  refine .bind (tidy_modify fun _ => rfl) fun _ => (tidy_tokenize_if s).bind fun ts => ?_
  refine .bind (tidy_modify fun _ => rfl) fun _ => ?_
  unfold parsed
  split
  · exact .keep
  · exact tokenInvariant_definitions.fail (n := 0) _

/-! ## Demands -/

/-- What a session is asked for: the expansion of a variable, or the value of a condition. -/
inductive Demand where
  | expand (name : String) (args : List String)
  | eval (text : String)

def Demand.run : Demand → SessionM (String ⊕ Tristate)
  | expand name args => do return .inl (← readingFrom (expandedValue name args))
  | eval text => do return .inr (← evalCondition text)

/-- The session after some demands, whatever came of them. -/
def Session.meeting (s : Session) (ds : List Demand) : Session :=
  ds.foldl (fun s d => (runFrom d.run s).2) s

variable {s s' : Session}

theorem runFrom_readingFrom (x : ReadM α) (s : Session) : runFrom (readingFrom x) s =
      ((runFrom x s.reading).1, { s with reading := (runFrom x s.reading).2 }) := by
  rw [readingFrom, runFrom_bind_ok runFrom_get]
  rcases hrun : x.run.run s.reading with ⟨r, reading⟩
  have hrun' : runFrom x s.reading = (r, reading) := hrun
  simp only [hrun']
  cases r <;> rfl

/-- Whether variables count as many expansions as before, or more. -/
def Session.RaisedFrom (vs : List Variable) (s : Session) : Prop :=
  ∃ extra, s.reading.definitions = raised extra vs

/-- Whether a computation in sessions leaves the counts alone, or fails and leaves some raised. -/
abbrev KeepsCounts (vs : List Variable) (x : SessionM α) : Prop :=
  Leads (fun _ => Session.RaisedFrom vs) (·.reading.definitions = vs) x
    fun _ s => s.reading.definitions = vs

theorem keepsCounts_readingFrom {x : ReadM α} (hx : Tidy vs x) : KeepsCounts vs (readingFrom x) := by
  refine ⟨fun s hs => ?_⟩
  rw [runFrom_readingFrom]
  obtain ⟨_, _, hrun, h⟩ | ⟨_, _, hrun, h⟩ := hx.cases hs <;> rwa [hrun]

theorem tidy_expandedValue (name : String) (args : List String) :
    Tidy vs (expandedValue name args) := by
  refine tokenInvariant_definitions.of_settles (n := 0) (Q := fun _ _ => True) fun r =>
    .get_bind fun r' hr => Settles.at_ hr ?_
  rw [hr.depthBound_eq]
  exact settles_callValue (room_lt_depthBound r) _

theorem keepsCounts_bind {x : SessionM α} {f : α → SessionM β} (hx : KeepsCounts vs x)
    (hf : ∀ a, KeepsCounts vs (f a)) : KeepsCounts vs (x >>= f) :=
  Leads.bind hx hf

theorem keepsCounts_evaluating (x : EvalM α) : KeepsCounts vs (evaluating x) := by
  refine ⟨fun s hs => ?_⟩
  have hlog : ∀ (ws : List String) (r : Reading),
      (ws.foldl (fun r w => r.log ("warning: " ++ w)) r).definitions = r.definitions := by
    intro ws
    induction ws with
    | nil => exact fun _ => rfl
    | cons w ws ih => exact fun r => (ih _).trans (definitions_log r _)
  rw [runFrom_evaluating_eq]
  cases (x.runOn s.model s.values).1 with
  | ok a => exact (hlog _ _).trans hs
  | error f => exact ⟨fun _ => 0, (hlog _ _).trans (hs.trans (raised_zero vs).symm)⟩

theorem keepsCounts_evalCondition (text : String) : KeepsCounts vs (evalCondition text) := by
  have hback : ∀ m, KeepsCounts vs
      (modify fun st => { st with reading := { st.reading with model := m } } : SessionM PUnit) :=
    fun _ => .modify fun _ => id
  have hcatch : ∀ {γ : Type} {x : SessionM γ} {g : Session → Session} {h : Fault → SessionM γ},
      KeepsCounts vs x → (∀ s, (g s).reading.definitions = s.reading.definitions) →
      (∀ f, h f = throw f) → KeepsCounts vs (tryCatch x fun f => do modify g; h f) := by
    intro γ x g h hx hg hh
    refine .tryCatch hx fun f => .bind (R := fun _ => Session.RaisedFrom vs) ?_ fun _ => ?_
    · exact .modify fun s hs => hs.imp fun _ => (hg s).trans
    · exact hh f ▸ .throw fun _ => id
  have hparse : KeepsCounts vs (parseCondition text) := by
    refine .get_bind' fun s => keepsCounts_bind ?_ fun e => ?_
    · exact hcatch (keepsCounts_readingFrom (tidy_readCondition text)) (fun _ => rfl) fun _ => rfl
    · exact .get_bind' fun s => keepsCounts_bind (hback _) fun _ => .keep
  refine keepsCounts_bind hparse fun p => .get_bind' fun s => ?_
  refine keepsCounts_bind (hback _) fun _ => keepsCounts_bind (hcatch ?_ (fun _ => rfl) fun _ => rfl) ?_
  · exact keepsCounts_bind (keepsCounts_evaluating _) fun a => keepsCounts_bind (hback _) fun _ => .keep
  · intro r
    cases r <;> exact .keep

theorem keepsCounts_demand (d : Demand) : KeepsCounts vs d.run := by
  cases d with
  | expand name args =>
    exact keepsCounts_bind (keepsCounts_readingFrom (tidy_expandedValue name args)) fun _ => .keep
  | eval text => exact keepsCounts_bind (keepsCounts_evalCondition text) fun _ => .keep

/-! ## Variables that are stuck -/

variable {name : String} {args : List String} {v : Variable} {r : Reading}

theorem leads_expandedValue
    (hfound : r.findVariable? name = some v) (hrefusal : v.refusal? name args = none) :
    Leads (fun _ r' => ∃ extra, extra name ≠ 0 ∧ r'.definitions = raised extra r.definitions) (· = r)
      (expandedValue name args) fun _ _ => True := by
  refine .get_bind fun r' hr' => ?_
  subst hr'
  rw [depthBound, callValue_eq]
  refine .get_bind fun r'' hr'' => ?_
  subst hr''
  obtain ⟨hv, rfl⟩ := mem_of_findVariable? hfound
  rw [hfound, elim_some, Variable.call, hrefusal]
  refine (leads_expand (.refl _) hv fun r₁ hr₁ => settles_callValue ?_).imp ?_ fun _ _ => And.right
  · have hlt := room_raised_lt hv (Variable.le_of_refusal? hrefusal)
      (by simp [once] : once v.name v.name ≠ 0)
    have hbound := room_lt_depthBound r''
    rw [depthBound] at hbound
    rw [hr₁]
    omega
  · exact fun _ _ h => h.2.2

/-- Whether an expansion of a variable is under way. -/
def Session.IsStuck (s : Session) (name : String) : Prop :=
  ∃ v, s.reading.findVariable? name = some v ∧ v.nesting ≠ 0

theorem Session.RaisedFrom.isStuck
    {extra : String → Nat} (h : s'.reading.definitions = raised extra s.reading.definitions)
    (hv : s.reading.findVariable? name = some v) (hname : v.nesting + extra name ≠ 0) :
    s'.IsStuck name := by
  refine ⟨{ v with nesting := v.nesting + extra v.name }, ?_, ?_⟩
  · rw [findVariable?, h, raised, List.find?_map, map_eq_some_iff]
    exact ⟨v, hv, rfl⟩
  · rwa [(mem_of_findVariable? hv).2]

theorem Session.IsStuck.meeting (h : s.IsStuck name) (ds : List Demand) :
    (s.meeting ds).IsStuck name := by
  induction ds generalizing s with
  | nil => exact h
  | cons d ds ih =>
    refine ih ?_
    obtain ⟨v, hv, hne⟩ := h
    obtain ⟨extra, hextra⟩ : (runFrom d.run s).2.RaisedFrom s.reading.definitions := by
      obtain ⟨_, _, hrun, h⟩ | ⟨_, _, hrun, h⟩ := (keepsCounts_demand d).cases rfl <;> rw [hrun]
      · exact ⟨fun _ => 0, h.trans (raised_zero _).symm⟩
      · exact h
    exact RaisedFrom.isStuck hextra hv fun hzero => hne (Nat.add_eq_zero_iff.1 hzero).1

theorem runFrom_expand_of_refusal? {p : Problem} (hv : s.reading.findVariable? name = some v)
    (hrefusal : v.refusal? name args = some p) :
    ∃ place text, runFrom (Demand.expand name args).run s = (.error (.line place text p), s) := by
  refine ⟨s.reading.file.map fun f => (f, s.reading.line), Text.trim s.reading.text, ?_⟩
  refine runFrom_bind_error ?_
  rw [runFrom_readingFrom, expandedValue, runFrom_bind_ok runFrom_get, depthBound,
    callValue_eq, runFrom_bind_ok runFrom_get, hv, elim_some, Variable.call, hrefusal]
  rfl

theorem Session.IsStuck.fails (h : s.IsStuck name) :
    ∃ place text, (runFrom (Demand.expand name []).run s).1 =
      .error (.line place text (.recursiveVariable name)) := by
  obtain ⟨v, hv, hne⟩ := h
  have hrefusal : v.refusal? name [] = some (.recursiveVariable name) := by
    simp [Variable.refusal?, hne]
  obtain ⟨place, text, hrun⟩ := runFrom_expand_of_refusal? hv hrefusal
  exact ⟨place, text, congrArg Prod.fst hrun⟩

/-- A demand that succeeds leaves all counts of expansions as they were, and one that fails leaves
none lower.  An expansion that is refused at once leaves them all alone.  But one that fails later
leaves its variable raised, so that plain expansions of the variable are refused as recursive,
whatever is asked in between. -/
theorem failed_expansion_stays (s : Session) (d : Demand) :
    (∀ a s', runFrom d.run s = (.ok a, s') → s'.reading.definitions = s.reading.definitions) ∧
    (∀ f s', runFrom d.run s = (.error f, s') →
      ∃ extra, s'.reading.definitions = raised extra s.reading.definitions) ∧
    ∀ name args v f s', d = .expand name args → s.reading.findVariable? name = some v →
      runFrom d.run s = (.error f, s') →
      (v.refusal? name args ≠ none → s' = s) ∧
      (v.refusal? name args = none → ∀ ds, ∃ place text,
        (runFrom (Demand.expand name []).run (s'.meeting ds)).1 =
          .error (.line place text (.recursiveVariable name))) := by
  have hkeeps := (keepsCounts_demand d).run s rfl
  refine ⟨fun a s' hrun => ?_, fun f s' hrun => ?_, ?_⟩
  · rw [hrun] at hkeeps
    exact hkeeps
  · rw [hrun] at hkeeps
    exact hkeeps
  · rintro name args v f s' rfl hv hrun
    refine ⟨fun hrefusal => ?_, fun hrefusal ds => (Session.IsStuck.meeting ?_ ds).fails⟩
    · obtain ⟨p, hp⟩ := ne_none_iff_exists'.1 hrefusal
      obtain ⟨place, text, hrun'⟩ := runFrom_expand_of_refusal? hv hp
      exact (Prod.ext_iff.1 (hrun.symm.trans hrun')).2
    · have hleads := (leads_expandedValue hv hrefusal).run s.reading rfl
      rw [Demand.run, runFrom_bind, runFrom_readingFrom] at hrun
      rcases hexpand : runFrom (expandedValue name args) s.reading with ⟨o, r⟩
      rw [hexpand] at hrun hleads
      cases o with
      | ok a => cases hrun
      | error e =>
        cases hrun
        obtain ⟨extra, hextra, hraised⟩ := hleads
        exact Session.RaisedFrom.isStuck (s := s) hraised hv fun hzero =>
          hextra (Nat.add_eq_zero_iff.1 hzero).2

/-- A variable whose value has a call without an end. -/
def unclosedWorkspace : Workspace :=
  { files := { entries := [(["Kconfig"], .file "A = $(B\n".toUTF8)] } }

theorem expandText_unclosed (depth : Nat) (outer : List String) :
    expandText depth outer 4 [] ['$', '(', 'B'] = fail .unclosedCall := by
  have hend : expandCall depth outer 2 [] ['B'] [] = fail .unclosedCall := by rw [expandCall]
  rw [expandText_open, expandCall_char (by simp) (by decide), hend]
  rfl

/-- The variable is said to lack an end at first, and to be recursive ever after. -/
theorem failed_expansion_stays_unclosed :
    ∃ s r, openSession unclosedWorkspace {} = (.ok s, r) ∧
      ∃ s' place text, runFrom (Demand.expand "A" []).run s =
        (.error (.line place text .unclosedCall), s') ∧
      ∀ ds, ∃ place text, (runFrom (Demand.expand "A" []).run (s'.meeting ds)).1 =
        .error (.line place text (.recursiveVariable "A")) := by
  obtain ⟨s, r, hopen, hrun⟩ := exists_of_opensTo unclosedWorkspace (fun s =>
      decide ((s.reading.findVariable? "A").map (fun v => (v.value, v.nesting)) = some (some "$(B", 0)))
    (by decide +kernel)
  obtain ⟨v, hv, hstate⟩ := map_eq_some_iff.1 (of_decide_eq_true hrun)
  obtain ⟨hvalue, hnesting⟩ := Prod.mk.inj hstate
  have hrefusal : v.refusal? "A" [] = none := by simp [Variable.refusal?, hnesting]
  have hexpand : runFrom (Demand.expand "A" []).run s = (.error
      (.line (s.reading.file.map fun f => (f, s.reading.line)) (Text.trim s.reading.text)
        .unclosedCall), { s with reading := s.reading.modifyVariable "A" fun v =>
          { v with nesting := v.nesting + 1 } }) := by
    refine runFrom_bind_error ?_
    rw [runFrom_readingFrom, expandedValue, runFrom_bind_ok runFrom_get, depthBound, callValue_eq,
      runFrom_bind_ok runFrom_get, hv, elim_some, Variable.call, hrefusal, elim_none,
      Variable.expand, hvalue, runFrom_bind_ok (runFrom_modify _)]
    dsimp only
    rw [show "$(B".length + 1 = 4 from rfl, show "$(B".toList = ['$', '(', 'B'] from rfl,
      expandText_unclosed]
    rfl
  exact ⟨s, r, hopen, _, _, _, hexpand,
    ((failed_expansion_stays s (.expand "A" [])).2.2 _ _ v _ _ rfl hv hexpand).2 hrefusal⟩

end Buildsmith.Kconfig
