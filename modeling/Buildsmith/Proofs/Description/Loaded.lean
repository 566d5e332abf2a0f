import Buildsmith.Proofs.Description.Finishing

/-!
# Loaded models

The checks after reading leave the model alone.  So the model that loading gives is a finished one
with its dependents recorded, among which no loop has been found (`Model.Loaded`).
-/

namespace Buildsmith.Kconfig

open List

/-!
## Recorded dependents

Each item is recorded as a dependent of all the items that it is computed from, unless these are
constants (`Model.withDependents`), and each choice as a dependent of its symbols
(`Model.withChoiceDependents`).  Nothing else about the model changes, and nothing but defined items
is recorded.
-/

namespace Model

variable {m m' m'' : Model} {D : Item → Prop} {d x y : Item} {c : ChoiceId}

/-! ## Recording one dependent -/

def HasPlace (m : Model) : Item → Prop
  | .symbol i => i < m.symbolDependents.size
  | .choice c => c < m.choiceDependents.size

def record (d : Item) (m : Model) : Item → Model
  | .symbol i => { m with symbolDependents := m.symbolDependents.modify i (insertNew d) }
  | .choice c => { m with choiceDependents := m.choiceDependents.modify c (insertNew d) }

theorem mem_insertNew {xs : List Item} : x ∈ insertNew y xs ↔ x ∈ xs ∨ x = y := by
  unfold insertNew
  split
  · rename_i hy
    have hy : y ∈ xs := contains_iff_mem.1 hy
    constructor
    · exact .inl
    · rintro (hx | rfl)
      · exact hx
      · exact hy
  · rw [mem_append, mem_singleton]

theorem mem_getD_modify {a : Array (List Item)} {i j : Nat} :
    x ∈ (a.modify i (insertNew d)).getD j [] ↔ x ∈ a.getD j [] ∨ (j = i ∧ i < a.size ∧ x = d) := by
  rw [getD_modify]
  split
  · rename_i hij
    obtain ⟨rfl, hlt⟩ := hij
    simp [mem_insertNew, hlt]
  · rename_i hij
    have hij' : ¬(j = i ∧ i < a.size ∧ x = d) := by
      rintro ⟨rfl, hlt, -⟩
      exact hij ⟨rfl, hlt⟩
    simp only [hij', or_false]

theorem mem_dependentsOf_record {z : Item} :
    z ∈ (m.record d y).dependentsOf x ↔ z ∈ m.dependentsOf x ∨ (x = y ∧ m.HasPlace y ∧ z = d) := by
  cases x <;> cases y <;> simp only [record, dependentsOf, HasPlace, mem_getD_modify] <;> simp

/-! ## Recording many dependents -/

/-- The second model has come from the first one by recording dependents in `D`. -/
structure Recorded (D : Item → Prop) (m m' : Model) : Prop where
  same : m' = { m with
    symbolDependents := m'.symbolDependents, choiceDependents := m'.choiceDependents }
  places : ∀ x, m.HasPlace x → m'.HasPlace x
  kept : ∀ x, ∀ d ∈ m.dependentsOf x, d ∈ m'.dependentsOf x
  added : ∀ x, ∀ d ∈ m'.dependentsOf x, d ∈ m.dependentsOf x ∨ D d

namespace Recorded

theorem refl (D : Item → Prop) (m : Model) : Recorded D m m :=
  ⟨rfl, fun _ h => h, fun _ _ h => h, fun _ _ h => .inl h⟩

theorem trans (h : Recorded D m m') (h' : Recorded D m' m'') : Recorded D m m'' where
  same := by rw [h'.same, h.same]
  places x hx := h'.places x (h.places x hx)
  kept x d hd := h'.kept x d (h.kept x d hd)
  added x d hd := (h'.added x d hd).elim (h.added x d) .inr

theorem symbol (h : Recorded D m m') (i : SymbolId) : m'.symbol i = m.symbol i := by
  rw [h.same]
  rfl

theorem record (hd : D d) (y : Item) : Recorded D m (m.record d y) where
  same := by cases y <;> rfl
  places x hx := by cases x <;> cases y <;> simpa [Model.record, HasPlace] using hx
  kept x e he := mem_dependentsOf_record.2 (.inl he)
  added x e he := by
    rcases mem_dependentsOf_record.1 he with he | ⟨-, -, rfl⟩
    · exact .inl he
    · exact .inr hd

theorem foldl {α : Type} (xs : List α) {step : Model → α → Model}
    (h : ∀ x ∈ xs, ∀ m', Recorded D m m' → Recorded D m' (step m' x)) :
    Recorded D m (xs.foldl step m) :=
  foldlRecOn xs step (motive := Recorded D m) (refl D m)
    fun m' hm' x hx => hm'.trans (h x hx m' hm')

theorem mem_foldl {α : Type} {xs : List α} {step : Model → α → Model}
    (h : ∀ x ∈ xs, ∀ m', Recorded D m m' → Recorded D m' (step m' x)) {a : α} (ha : a ∈ xs)
    (hstep : ∀ m', Recorded D m m' → d ∈ (step m' a).dependentsOf y) :
    d ∈ (xs.foldl step m).dependentsOf y := by
  induction xs generalizing m with
  | nil => cases ha
  | cons x xs ih =>
    have hx := h x mem_cons_self m (refl D m)
    have hxs : ∀ z ∈ xs, ∀ m', Recorded D (step m x) m' → Recorded D m' (step m' z) :=
      fun z hz m' hm' => h z (mem_cons_of_mem _ hz) m' (hx.trans hm')
    rcases mem_cons.1 ha with rfl | ha
    · exact (foldl xs hxs).kept y d (hstep m (refl D m))
    · exact ih hxs ha fun m' hm' => hstep m' (hx.trans hm')

end Recorded

/-! ## What is recorded -/

/-- Whether an item may have dependents: it has a place for them and is no constant. -/
def Accepts (m : Model) (x : Item) : Prop :=
  m.HasPlace x ∧ ∀ i, x = .symbol i → (m.symbol i).isConstant = false

theorem Recorded.accepts (h : Recorded D m m') (hx : m.Accepts x) : m'.Accepts x :=
  ⟨h.places x hx.1, fun i hi => by rw [h.symbol]; exact hx.2 i hi⟩

theorem recorded_addDependent (hd : D d) (x : Item) : Recorded D m (m.addDependent d x) := by
  unfold addDependent
  split
  · split
    · exact .refl D m
    · exact .record hd (.symbol _)
  · exact .record hd (.choice _)

theorem mem_addDependent (hx : m.Accepts x) : d ∈ (m.addDependent d x).dependentsOf x := by
  have hmem : d ∈ (m.record d x).dependentsOf x := mem_dependentsOf_record.2 (.inr ⟨rfl, hx.1, rfl⟩)
  cases x with
  | symbol i =>
    rw [addDependent, if_neg (by simp [hx.2 i rfl])]
    exact hmem
  | choice c => exact hmem

theorem recorded_dependOn (hd : D d) (e : Expr) : Recorded D m (m.dependOn d e) :=
  .foldl _ fun _ _ _ _ => recorded_addDependent hd _

theorem mem_dependOn (hd : D d) {e : Expr} (hx : x ∈ e.items) (hm : m.Accepts x) :
    d ∈ (m.dependOn d e).dependentsOf x :=
  Recorded.mem_foldl (D := D) (fun _ _ _ _ => recorded_addDependent hd _) hx
    fun _ hm' => mem_addDependent (hm'.accepts hm)

theorem recorded_sources (hd : D d) (es : List Expr) : Recorded D m (es.foldl (dependOn d) m) :=
  .foldl _ fun _ _ _ _ => recorded_dependOn hd _

theorem mem_sources (hd : D d) {es : List Expr} {e : Expr} (he : e ∈ es) (hx : x ∈ e.items)
    (hm : m.Accepts x) : d ∈ (es.foldl (dependOn d) m).dependentsOf x :=
  Recorded.mem_foldl (D := D) (fun _ _ _ _ => recorded_dependOn hd _) he
    fun _ hm' => mem_dependOn hd hx (hm'.accepts hm)

def withPlaces (m : Model) : Model :=
  { m with
    symbolDependents := Array.replicate m.symbols.size []
    choiceDependents := Array.replicate m.choices.size [] }

/-- The model with the dependents among symbols and those of choices among symbols. -/
def withSymbolDependents (m : Model) : Model :=
  m.uniqueDefined.foldl (fun m i => (m.symbolSources i).foldl (dependOn (.symbol i)) m) m.withPlaces

theorem withDependents_eq (m : Model) :
    m.withDependents = m.withSymbolDependents.uniqueChoices.foldl
      (fun m c => (m.choiceSources c).foldl (dependOn (.choice c)) m) m.withSymbolDependents :=
  rfl

section WithDependents

variable (hsymbols : ∀ i ∈ m.uniqueDefined, D (.symbol i))
  (hchoices : ∀ c ∈ m.uniqueChoices, D (.choice c))

include hsymbols

theorem recorded_withSymbolDependents : Recorded D m.withPlaces m.withSymbolDependents :=
  .foldl _ fun i hi _ _ => recorded_sources (hsymbols i hi) _

theorem uniqueChoices_withSymbolDependents :
    m.withSymbolDependents.uniqueChoices = m.uniqueChoices := by
  rw [(recorded_withSymbolDependents hsymbols).same]
  rfl

include hchoices

theorem recorded_choiceDependents : Recorded D m.withSymbolDependents m.withDependents := by
  rw [withDependents_eq, uniqueChoices_withSymbolDependents hsymbols]
  exact .foldl _ fun c hc _ _ => recorded_sources (hchoices c hc) _

theorem recorded_withDependents : Recorded D m.withPlaces m.withDependents :=
  (recorded_withSymbolDependents hsymbols).trans (recorded_choiceDependents hsymbols hchoices)

theorem mem_withDependents_of_symbol {i : SymbolId} (hi : i ∈ m.uniqueDefined) {e : Expr}
    (he : e ∈ m.symbolSources i) (hx : x ∈ e.items) (hm : m.withPlaces.Accepts x) :
    .symbol i ∈ m.withDependents.dependentsOf x := by
  refine (recorded_choiceDependents hsymbols hchoices).kept x _ ?_
  refine Recorded.mem_foldl (fun i hi _ _ => recorded_sources (hsymbols i hi) _) hi fun m' hm' => ?_
  have hsources : m'.symbolSources i = m.symbolSources i := by
    rw [hm'.same]
    rfl
  rw [hsources]
  exact mem_sources (hsymbols i hi) he hx (hm'.accepts hm)

theorem mem_withDependents_of_choice {c : ChoiceId} (hc : c ∈ m.uniqueChoices) {e : Expr}
    (he : e ∈ m.choiceSources c) (hx : x ∈ e.items) (hm : m.withPlaces.Accepts x) :
    .choice c ∈ m.withDependents.dependentsOf x := by
  have hdefined := recorded_withSymbolDependents hsymbols
  rw [withDependents_eq, uniqueChoices_withSymbolDependents hsymbols]
  refine Recorded.mem_foldl (fun c hc _ _ => recorded_sources (hchoices c hc) _) hc fun m' hm' => ?_
  have hrecorded := hdefined.trans hm'
  have hsources : m'.choiceSources c = m.choiceSources c := by
    rw [hrecorded.same]
    rfl
  rw [hsources]
  exact mem_sources (hchoices c hc) he hx (hrecorded.accepts hm)

end WithDependents

/-! ## Choices depend on their symbols -/

theorem recorded_members (hc : D (.choice c)) (ss : List SymbolId) :
    Recorded D m (ss.foldl (fun m s => m.record (.choice c) (.symbol s)) m) :=
  .foldl _ fun s _ _ _ => .record hc (.symbol s)

theorem recorded_withChoiceDependents (hchoices : ∀ c ∈ m.uniqueChoices, D (.choice c)) :
    Recorded D m m.withChoiceDependents :=
  .foldl _ fun c hc _ _ => recorded_members (hchoices c hc) _

theorem mem_withChoiceDependents {c : ChoiceId} (hc : c ∈ m.uniqueChoices) {i : SymbolId}
    (hi : i ∈ (m.choice c).symbols) (hplace : m.HasPlace (.symbol i)) :
    .choice c ∈ m.withChoiceDependents.dependentsOf (.symbol i) := by
  refine Recorded.mem_foldl (D := fun _ => True) (fun _ _ _ _ => recorded_members trivial _) hc
    fun m' hm' => ?_
  have hchoice : m'.choice c = m.choice c := by
    rw [hm'.same]
    rfl
  rw [hchoice]
  refine Recorded.mem_foldl (D := fun _ => True) (fun s _ _ _ => .record trivial (.symbol s)) hi
    fun m'' hm'' => ?_
  exact mem_dependentsOf_record.2 (.inr ⟨rfl, hm''.places _ (hm'.places _ hplace), rfl⟩)

end Model

/-! ## Loading -/

variable {α β : Type}

/-! ## Checks -/

namespace Quiet

theorem forIn {xs : List α} {f : α → β → ReadM (ForInStep β)} (hf : ∀ x ∈ xs, ∀ b, Quiet (f x b))
    (b : β) : Quiet (ForIn.forIn xs b f) := by
  induction xs generalizing b with
  | nil => exact pure b
  | cons x xs ih =>
    rw [forIn_cons]
    refine (hf x mem_cons_self b).bind fun step => ?_
    cases step with
    | done b => exact pure b
    | yield b => exact ih (fun y hy => hf y (mem_cons_of_mem _ hy)) b

theorem warn_bind (text : String) {x : ReadM α} (hx : Quiet x) : Quiet (do Kconfig.warn text; x) :=
  (warn text).bind fun _ => hx

variable (c : ChoiceId) (i : SymbolId)

theorem checkTargets (verb : String) (targets : List (SymbolId × Expr)) :
    Quiet (checkTargets i verb targets) :=
  get.bind fun _ => bind
    (forIn (fun _ _ _ => ite (pure _) (warn_bind _ (pure _))) _) fun _ => pure _

theorem checkDefaults : Quiet (checkDefaults i) := by
  refine get.bind fun r => bind (forIn (fun x _ _ => ?_) _) fun _ => pure _
  dsimp only
  split
  · exact ite (ite (warn_bind _ (pure _)) (pure _)) (ite (warn_bind _ (pure _)) (pure _))
  · exact (throw _).bind fun _ => pure _

theorem checkRanges : Quiet (checkRanges i) := by
  refine get.bind fun r => ite (pure _) (ite (warn _) ?_)
  exact bind (forIn (fun _ _ _ => ite (pure _) (warn_bind _ (pure _))) _) fun _ => pure _

theorem checkSymbol : Quiet (checkSymbol i) := by
  have hranges := checkRanges i
  refine get.bind fun r => ite ?_ (ite ?_ (warn_bind _ hranges))
  · exact (checkTargets i _ _).bind fun _ => (checkTargets i _ _).bind fun _ => hranges
  · exact (checkDefaults i).bind fun _ => ite hranges (warn_bind _ hranges)

theorem warnTargeted (how : String) (e : Expr) : Quiet (warnTargeted i how e) :=
  get.bind fun _ => warn _

theorem checkChoiceSymbol : Quiet (checkChoiceSymbol c i) := by
  refine get.bind fun r => ?_
  extract_lets m s prompts implied selected
  have hprompts : ∀ u, Quiet (prompts u) := fun u => bind (forIn (fun k _ _ =>
    ite (ite (pure _) (warn_bind _ (pure _))) (ite (warn_bind _ (pure _)) (pure _))) _)
    fun _ => pure _
  have himplied : ∀ u, Quiet (implied u) :=
    fun u => ite ((warnTargeted i _ _).bind hprompts) (hprompts ())
  have hselected : ∀ u, Quiet (selected u) :=
    fun u => ite ((warnTargeted i _ _).bind himplied) (himplied ())
  exact ite (hselected ()) ((warn _).bind hselected)

theorem checkChoice : Quiet (checkChoice c) := by
  refine get.bind fun r => ?_
  extract_lets m x loops prompt
  have hloops : ∀ u, Quiet (loops u) := by
    intro u
    refine bind (forIn (fun d _ _ => ?_) _) fun _ =>
      bind (forIn (fun i _ _ => (checkChoiceSymbol c i).bind fun _ => pure _) _) fun _ => pure _
    dsimp only
    split
    · exact ite (pure _) (warn_bind _ (pure _))
    · exact (throw _).bind fun _ => pure _
  have hprompt : ∀ u, Quiet (prompt u) := fun u => ite (hloops ()) ((warn _).bind hloops)
  exact ite (hprompt ()) ((warn _).bind hprompt)

theorem checkUndefined : Quiet checkUndefined :=
  get.bind fun _ => bind
    (forIn (fun _ _ _ => ite (warn_bind _ (pure _)) (pure _)) _) fun _ => pure _

theorem checkModel : Quiet checkModel :=
  get.bind fun _ => bind (forIn (fun i _ _ => (checkSymbol i).bind fun _ => pure _) _) fun _ =>
    bind (forIn (fun c _ _ => (checkChoice c).bind fun _ => pure _) _) fun _ => pure _

end Quiet

/-! ## Loading -/

/-- Whether a model has been loaded: it was finished, no loop was found among its dependents, and
then choices were recorded with their symbols. -/
def Model.Loaded (m : Model) : Prop :=
  ∃ m₀ : Model, m₀.Finished ∧ m₀.withDependents.findLoop? = none ∧
    m = m₀.withDependents.withChoiceDependents

variable {r : Reading} {o : LoadOptions} {w : Workspace} {s : Session} {os : List Outline}

theorem Reading.Outlined.finished (h : r.Outlined 0 [.menu] os) : (r.model.finish os).Finished := by
  obtain ⟨ss, hr, hids, hfits⟩ := h
  exact Model.finished_finish hr.wellFormed hr.entries hids hfits

/-- Whether a model has come from an outline that was read: it was finished, no loop was found among
its dependents, and then choices were recorded with their symbols. -/
structure Reading.Completes (r : Reading) (os : List Outline) (m : Model) : Prop where
  outlined : r.Outlined 0 [.menu] os
  loopless : (r.model.finish os).withDependents.findLoop? = none
  complete : m = (r.model.finish os).withDependents.withChoiceDependents

theorem Reading.Completes.loaded {m : Model} (h : r.Completes os m) : m.Loaded :=
  ⟨r.model.finish os, h.outlined.finished, h.loopless, h.complete⟩

theorem loadModel_eq_ok {root : String} {u : Unit}
    (h : runFrom (loadModel root) (Reading.start w o) = (.ok u, r)) :
    ∃ os r₀, runFrom (readRoot root) (Reading.start w o) = (.ok os, r₀) ∧
      r₀.Completes os r.model := by
  obtain ⟨os, r₀, hread, hrest⟩ := runFrom_bind_eq_ok.1 h
  have houtlined := (gives_readRoot w o root).apply rfl hread
  let m := r₀.model.finish os
  have hquiet : ∀ {α : Type} {x : ReadM α}, Quiet x →
      Gives (fun r : Reading => r.model = m) x fun _ r => r.model = m := by
    intro α x hx
    refine hx.frame fun r r' hcore hr => ?_
    have hmodel : r'.model = r.model := congrArg Prod.fst hcore
    exact hmodel.trans hr
  have hlast : Gives (fun r : Reading => r.model = m) linkDependents
      fun _ r => r₀.Completes os r.model := by
    refine .bind (R := fun _ r => r.model = m.withDependents)
      (.modify fun r hr => congrArg Model.withDependents hr) fun _ =>
      Leads.get_bind fun r hr => ?_
    dsimp only
    split
    · exact Gives.throw _
    · rename_i hloop
      refine .modify fun s hs => ⟨houtlined, hr ▸ hloop, ?_⟩
      rw [hs, hr]
  obtain ⟨_, r₁, hfinish, hrest⟩ := runFrom_bind_eq_ok.1 hrest
  have hr₁ : r₁.model = m := by
    cases hfinish
    rfl
  obtain ⟨_, r₂, hcheck, hrest⟩ := runFrom_bind_eq_ok.1 hrest
  have hr₂ : r₂.model = m := (hquiet .checkModel).apply hr₁ hcheck
  obtain ⟨_, _, hget, hrest⟩ := runFrom_bind_eq_ok.1 hrest
  cases hget
  have hundefined := (hquiet .checkUndefined).bind fun _ => hlast
  exact ⟨os, r₀, hread, (Leads.ite (fun _ => hundefined) fun _ => hlast).apply hr₂ hrest⟩

theorem Session.start_eq_ok (h : Session.start r = .ok s) :
    s.reading = r ∧ s.values = .initial r.model := by
  obtain ⟨set, -, h⟩ := bind_eq_ok.1 h
  obtain ⟨unset, -, h⟩ := bind_eq_ok.1 h
  cases h
  exact ⟨rfl, rfl⟩

theorem start_of_openSession (h : openSession w o = (.ok s, r)) :
    Session.start r = .ok s ∧ ∃ u, load w o = (.ok u, r) := by
  unfold openSession at h
  dsimp only at h
  split at h
  · cases h
  · split at h
    · cases h
    · rename_i hload
      obtain ⟨hstart, rfl⟩ := Prod.mk.inj h
      exact ⟨hstart, _, hload⟩

theorem completes_of_openSession (h : openSession w o = (.ok s, r)) :
    (∃ os r₀, runFrom (readRoot o.root) (Reading.start w o) = (.ok os, r₀) ∧
      r₀.Completes os s.model) ∧ s.values = .initial s.model := by
  obtain ⟨hstart, _, hload⟩ := start_of_openSession h
  obtain ⟨hreading, hvalues⟩ := Session.start_eq_ok hstart
  rw [Session.model, hreading]
  exact ⟨loadModel_eq_ok hload, hvalues⟩

theorem loaded_of_openSession (h : openSession w o = (.ok s, r)) :
    s.model.Loaded ∧ s.values = .initial s.model := by
  obtain ⟨⟨os, r₀, -, hcompletes⟩, hvalues⟩ := completes_of_openSession h
  exact ⟨hcompletes.loaded, hvalues⟩

theorem eq_ok_of_toOption {ε : Type} {e : Except ε α} {a : α} (h : e.toOption = some a) :
    e = .ok a := by
  cases e with
  | error f => cases h
  | ok b => rw [Option.some.inj h]

theorem exists_eq_ok_of_isOk {e : Except Fault α} (h : e.isOk) : ∃ a, e = .ok a := by
  cases e with
  | error f => cases h
  | ok b => exact ⟨b, rfl⟩

theorem runFrom_of_toOption {x : SessionM α} {a : α} (h : (runFrom x s).1.toOption = some a) :
    runFrom x s = (.ok a, (runFrom x s).2) := by
  rw [← eq_ok_of_toOption h]

/-- Whether a description loads, and the session that is opened passes a test. -/
def opensTo (w : Workspace) (p : Session → Bool) : Bool :=
  match openSession w {} with
  | (.ok s, _) => p s
  | _ => false

theorem exists_of_opensTo (w : Workspace) (p : Session → Bool) (h : opensTo w p) :
    ∃ s r, openSession w {} = (.ok s, r) ∧ p s := by
  unfold opensTo at h
  split at h
  · exact ⟨_, _, ‹_›, h⟩
  · cases h

end Buildsmith.Kconfig
