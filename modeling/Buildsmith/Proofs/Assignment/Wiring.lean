import Buildsmith.Proofs.Assignment.Operations
import Buildsmith.Proofs.Description.Loaded

/-!
# The wiring of loaded models

Loading records dependents for nearly all that rules may ask.  What is left are the defaults of a
choice, whose visibility the choice asks for, and symbols of a choice with prompts outside it, which
are not handed down the choice as a dependency.  A model without these is wired (`Loaded.wired`).
-/

namespace Buildsmith.Kconfig

open List

namespace Query

/-- Whether a query asks for what an item stands for in an expression. -/
def IsOperand : Query → Prop
  | tristate _ | text _ | mode _ => True
  | _ => False

/-- A rule asks about its own item only what has a lower rank. -/
def rank : Query → Nat
  | visibility _ | choiceVisibility _ => 0
  | tristate _ | assignable _ | mode _ | choiceAssignable _ => 1
  | text _ | selection _ => 2

end Query

namespace Model

variable {m m' : Model} {D : Item → Prop} {x y : Item} {p q : Query}

/-! ## What a loaded model is like -/

def isMember (m : Model) (c : ChoiceId) : Expr → Bool
  | .item (.symbol i) => (m.symbol i).choice = some c
  | _ => false

/-- Whether the defaults of choices are symbols of them, and symbols of choices have prompts right
below the choice only. -/
structure ChoicesSane (m : Model) : Prop where
  defaults : ∀ c ∈ m.uniqueChoices, ∀ d ∈ (m.choice c).defaults, m.isMember c d.1 = true
  prompts : ∀ c ∈ m.uniqueChoices, ∀ i ∈ (m.choice c).symbols, ∀ k ∈ (m.symbol i).entries,
    (m.entry k).prompt.isSome →
      (m.parentOf k).map (fun p => (m.entry p).subject) = some (.choice c)

instance (m : Model) : Decidable m.ChoicesSane :=
  decidable_of_iff (_ ∧ _) ⟨fun h => ⟨h.1, h.2⟩, fun h => ⟨h.defaults, h.prompts⟩⟩

def sourcesOf (m : Model) : Item → List Expr
  | .symbol i => m.symbolSources i
  | .choice c => m.choiceSources c

theorem Recorded.finished (h : Recorded D m m') (hm : m.Finished) : m'.Finished := by
  rw [h.same]
  exact { hm with wellFormed := { hm.wellFormed with } }

theorem Finished.withPlaces (hm : m.Finished) : m.withPlaces.Finished :=
  { hm with wellFormed := { hm.wellFormed with } }

variable {i : SymbolId} {e : Expr}

theorem Finished.mem_uniqueDefined (hm : m.Finished) : i ∈ m.uniqueDefined ↔ i ∈ m.defined := by
  rw [hm.uniqueDefined, mem_orderedUnique]

theorem Finished.mem_uniqueChoices (hm : m.Finished) {c : ChoiceId} :
    c ∈ m.uniqueChoices ↔ c ∈ m.choiceUses := by
  rw [hm.uniqueChoices, mem_orderedUnique]

theorem Finished.has (hm : m.Finished) (hx : m.Defines x) : m.Has x := by
  cases x with
  | symbol i => exact (hm.wellFormed.defined i (hm.mem_uniqueDefined.1 hx)).1
  | choice c => exact hm.wellFormed.choiceUses c (hm.mem_uniqueChoices.1 hx)

theorem Loaded.recorded (h : m.Loaded) :
    ∃ m₀ : Model, m₀.Finished ∧ m₀.withDependents.findLoop? = none ∧
      m = m₀.withDependents.withChoiceDependents ∧
      Recorded m.Defines m₀.withPlaces m₀.withDependents ∧
      Recorded m.Defines m₀.withDependents m := by
  obtain ⟨m₀, hm₀, hloop, rfl⟩ := h
  have hsame : ∀ x, m₀.Defines x → m₀.withDependents.withChoiceDependents.Defines x := by
    have hfirst := recorded_withDependents (D := fun _ => True) (m := m₀) (fun _ _ => trivial)
      fun _ _ => trivial
    have hlast := recorded_withChoiceDependents (D := fun _ => True) (m := m₀.withDependents)
      fun _ _ => trivial
    intro x hx
    rw [(hfirst.trans hlast).same]
    cases x <;> exact hx
  have hfirst := recorded_withDependents (fun i hi => hsame (.symbol i) hi)
    fun c hc => hsame (.choice c) hc
  refine ⟨m₀, hm₀, hloop, rfl, hfirst, recorded_withChoiceDependents fun c hc => ?_⟩
  rw [hfirst.same] at hc
  exact hsame (.choice c) hc

theorem Loaded.finished (h : m.Loaded) : m.Finished := by
  obtain ⟨m₀, hm₀, -, -, hfirst, hlast⟩ := h.recorded
  exact hlast.finished (hfirst.finished hm₀.withPlaces)

theorem Loaded.wellFormed (h : m.Loaded) : m.WellFormed := h.finished.wellFormed

theorem Recorded.defines (h : Recorded D m m') : m'.Defines x ↔ m.Defines x := by
  rw [h.same]
  cases x <;> rfl

theorem Recorded.sourcesOf (h : Recorded D m m') : m'.sourcesOf y = m.sourcesOf y := by
  rw [h.same]
  cases y <;> rfl

theorem hasPlace_withPlaces : m.withPlaces.HasPlace x ↔ m.Has x := by
  cases x <;> simp [withPlaces, HasPlace, Has]

theorem Recorded.has (h : Recorded D m m') : m'.Has x ↔ m.Has x := by
  rw [h.same]
  cases x <;> rfl

theorem mem_withDependents (hy : m.Defines y) (he : e ∈ m.sourcesOf y) (hx : x ∈ e.items)
    (hm : m.withPlaces.Accepts x) : y ∈ m.withDependents.dependentsOf x := by
  cases y with
  | symbol i =>
    exact mem_withDependents_of_symbol (D := fun _ => True) (fun _ _ => trivial)
      (fun _ _ => trivial) hy he hx hm
  | choice c =>
    exact mem_withDependents_of_choice (D := fun _ => True) (fun _ _ => trivial)
      (fun _ _ => trivial) hy he hx hm

theorem dependentsOf_withPlaces : m.withPlaces.dependentsOf x = [] := by
  cases x <;>
    simp only [dependentsOf, withPlaces, Array.getD_eq_getD_getElem?, Array.getElem?_replicate] <;>
    split <;> rfl

namespace Loaded

theorem mem_dependentsOf (h : m.Loaded) (hy : m.Defines y) {e : Expr} (he : e ∈ m.sourcesOf y)
    (hx : x ∈ e.items) (hhas : m.Has x)
    (hconstant : ∀ i, x = .symbol i → (m.symbol i).isConstant = false) : y ∈ m.dependentsOf x := by
  obtain ⟨m₀, -, -, -, hfirst, hlast⟩ := h.recorded
  have hrecorded := hfirst.trans hlast
  rw [hrecorded.defines] at hy
  rw [hrecorded.sourcesOf] at he
  rw [hrecorded.has] at hhas
  refine hlast.kept x y (mem_withDependents hy he hx ⟨hasPlace_withPlaces.2 hhas, fun i hi => ?_⟩)
  rw [← hrecorded.symbol]
  exact hconstant i hi

theorem mem_dependentsOf_member (h : m.Loaded) {c : ChoiceId} (hc : m.Defines (.choice c))
    {i : SymbolId} (hi : i ∈ (m.choice c).symbols) (hhas : m.Has (.symbol i)) :
    .choice c ∈ m.dependentsOf (.symbol i) := by
  obtain ⟨m₀, -, -, hm, hfirst, hlast⟩ := h.recorded
  have hrecorded := hfirst.trans hlast
  rw [hlast.defines] at hc
  have hchoice : m.choice c = m₀.withDependents.choice c := by
    rw [hlast.same]
    rfl
  rw [hchoice] at hi
  rw [hrecorded.has] at hhas
  have hmem := mem_withChoiceDependents hc hi (hfirst.places _ (hasPlace_withPlaces.2 hhas))
  exact hm ▸ hmem

theorem defines_of_dependent (h : m.Loaded) (hy : y ∈ m.dependentsOf x) : m.Defines y := by
  obtain ⟨m₀, -, -, -, hfirst, hlast⟩ := h.recorded
  rcases (hfirst.trans hlast).added x y hy with hold | hnew
  · rw [dependentsOf_withPlaces] at hold
    cases hold
  · exact hnew

end Loaded

/-! ## What is asked -/

theorem item_of_mem_queries (hp : p ∈ e.queries) : p.item ∈ e.items ∧ p.IsOperand := by
  induction e with
  | item x =>
    cases x with
    | symbol i | choice c =>
      obtain rfl := mem_singleton.1 hp
      exact ⟨mem_singleton.2 rfl, trivial⟩
  | not e ih => exact ih hp
  | and a b iha ihb | or a b iha ihb =>
    rcases mem_append.1 hp with hp | hp
    · exact ⟨mem_append_left _ (iha hp).1, (iha hp).2⟩
    · exact ⟨mem_append_right _ (ihb hp).1, (ihb hp).2⟩
  | rel r a b =>
    simp only [Expr.queries, mem_cons, not_mem_nil, or_false] at hp
    rcases hp with rfl | rfl | rfl | rfl <;> simp [Query.item, Query.IsOperand, Expr.items]

theorem WellFormed.free_of_constant (hm : m.WellFormed) (hi : (m.symbol i).isConstant)
    (hp : p = .tristate i ∨ p = .text i) : m.Free p := by
  refine .inr ?_
  by_cases hkind : (m.symbol i).kind = .unknown
  · rcases hp with rfl | rfl <;> simp [asksNothing, hkind, Kind.isLogical]
  · rcases hm.kinds i hkind with hle | hdefined
    · have hlogical : (m.symbol i).kind.isLogical := by
        rw [(hm.constants i hle).1]
        rfl
      rcases hp with rfl | rfl <;> simp [asksNothing, hlogical, hle]
    · rw [(hm.defined i hdefined).2.1] at hi
      cases hi

theorem lt_and_isLogical_of_fixedTristate? (h : m.fixedTristate? i = none) :
    SymbolId.yes < i ∧ (m.symbol i).kind.isLogical := by
  have hconstants : ¬i ≤ 2 := by
    intro hi
    match i, hi with
    | 0, _ | 1, _ | 2, _ => cases h
  refine ⟨Nat.lt_of_not_le hconstants, ?_⟩
  grind [fixedTristate?]

theorem getElem?_of_prompt {k : EntryId} {t : String × Expr} (h : (m.entry k).prompt = some t) :
    m.entries[k]? = some (m.entry k) := by
  rw [Model.entry, Array.getD_eq_getD_getElem?] at h ⊢
  cases hk : m.entries[k]? with
  | none =>
    rw [hk] at h
    cases h
  | some e => rfl

theorem mem_kindQueries : p ∈ m.kindQueries i ↔
      p = .tristate SymbolId.modules ∨ ∃ c, (m.symbol i).choice = some c ∧ p = .mode c := by
  simp [kindQueries, eq_comm]

theorem eq_of_mem_symbolQuery {f : SymbolId → Query} (hp : p ∈ e.symbolQuery f) :
    ∃ i, e = .symbol i ∧ p = f i := by
  unfold Expr.symbolQuery at hp
  split at hp
  · exact ⟨_, rfl, mem_singleton.1 hp⟩
  · cases hp

theorem mem_symbolSources : e ∈ m.symbolSources i ↔ e ∈ m.promptConditions (.symbol i) ∨
      (∃ d ∈ (m.symbol i).defaults, e = d.1 ∨ e = d.2) ∨
      (e = (m.symbol i).reverseDep ∨ e = (m.symbol i).weakReverseDep) ∨
      (∃ r ∈ (m.symbol i).ranges, e = .symbol r.1 ∨ e = .symbol r.2.1 ∨ e = r.2.2) ∨
      e = (m.symbol i).directDep := by
  simp only [symbolSources, mem_append, mem_flatMap, mem_cons, not_mem_nil, or_false, or_assoc]

theorem mem_promptQueries :
    p ∈ m.promptQueries (m.entriesOf x) ↔ ∃ e ∈ m.promptConditions x, p ∈ e.queries := by
  simp only [promptQueries, promptConditions, mem_flatMap, mem_filterMap]
  constructor
  · rintro ⟨k, hk, hp⟩
    cases hprompt : (m.entry k).prompt with
    | none => simp [hprompt] at hp
    | some t => exact ⟨t.2, ⟨k, hk, by simp [hprompt]⟩, by simpa [hprompt] using hp⟩
  · rintro ⟨e, ⟨k, hk, he⟩, hp⟩
    obtain ⟨t, ht, rfl⟩ := Option.map_eq_some_iff.1 he
    exact ⟨k, hk, by simpa [ht] using hp⟩

/-! ## Why a rule asks -/

/-- The reasons for which a rule asks a query. -/
inductive Reason (m : Model) (q p : Query) : Prop
  /-- A rule asks more about its own item. -/
  | own (hitem : p.item = q.item) (hrank : p.rank < q.rank)
  | modules (hp : p = .tristate SymbolId.modules)
  /-- The item is computed from an expression. -/
  | source {e : Expr} (he : e ∈ m.sourcesOf q.item) (hx : p.item ∈ e.items) (hp : p.IsOperand)
  /-- The item is a symbol of a choice. -/
  | choice {i : SymbolId} {c : ChoiceId}
    (hq : q = .tristate i ∨ q = .visibility i ∨ q = .assignable i)
    (hc : (m.symbol i).choice = some c) (hp : p.item = .choice c)
  /-- The item is a choice that looks for a symbol to select. -/
  | member {i : SymbolId} {c : ChoiceId} (hq : q = .selection c) (hp : p = .visibility i)
    (hi : i ∈ (m.choice c).symbols ∨ ∃ d ∈ (m.choice c).defaults, d.1 = .symbol i)

namespace Reason

variable {i : SymbolId} {e : Expr}

theorem of_source (he : e ∈ m.sourcesOf q.item) (hp : p ∈ e.queries) : m.Reason q p :=
  .source he (item_of_mem_queries hp).1 (item_of_mem_queries hp).2

theorem of_symbolText (he : e ∈ m.sourcesOf q.item) (hi : e = .symbol i) : m.Reason q (.text i) :=
  .source he (by simp [hi, Query.item, Expr.symbol, Expr.items]) trivial

theorem of_kind (hq : q = .tristate i ∨ q = .visibility i ∨ q = .assignable i)
    (hp : p ∈ m.kindQueries i) : m.Reason q p := by
  rcases mem_kindQueries.1 hp with hp | ⟨c, hc, rfl⟩
  · exact .modules hp
  · exact .choice hq hc rfl

theorem of_tristate (hp : p ∈ m.mayAsk (.tristate i)) : m.Reason (.tristate i) p := by
  simp only [mayAsk, mem_append, mem_cons, mem_map, mem_flatMap, Option.mem_toList] at hp
  rcases hp with (((((rfl | ⟨c, hc, rfl⟩) | hp) | ⟨d, hd, hp | hp⟩) | hp) | hp) | hp
  · exact .own rfl (by simp [Query.rank])
  · exact .choice (.inl rfl) hc rfl
  · exact of_kind (.inl rfl) hp
  · exact of_source (mem_symbolSources.2 (.inr (.inl ⟨d, hd, .inr rfl⟩))) hp
  · exact of_source (mem_symbolSources.2 (.inr (.inl ⟨d, hd, .inl rfl⟩))) hp
  · exact of_source (mem_symbolSources.2 (by simp)) hp
  · exact of_source (mem_symbolSources.2 (by simp)) hp
  · exact of_source (mem_symbolSources.2 (by simp)) hp

theorem of_text (hp : p ∈ m.mayAsk (.text i)) : m.Reason (.text i) p := by
  simp only [mayAsk, mem_append, mem_cons, mem_flatMap, not_mem_nil, or_false] at hp
  rcases hp with (rfl | rfl | ⟨r, hr, hp | rfl | rfl⟩) | ⟨d, hd, hp | hp⟩
  · exact .own rfl (by simp [Query.rank])
  · exact .own rfl (by simp [Query.rank])
  · exact of_source (mem_symbolSources.2 (by grind)) hp
  · exact of_symbolText (mem_symbolSources.2 (by grind)) rfl
  · exact of_symbolText (mem_symbolSources.2 (by grind)) rfl
  · exact of_source (mem_symbolSources.2 (.inr (.inl ⟨d, hd, .inr rfl⟩))) hp
  · obtain ⟨j, hj, rfl⟩ := eq_of_mem_symbolQuery hp
    exact of_symbolText (mem_symbolSources.2 (.inr (.inl ⟨d, hd, .inl rfl⟩))) hj

theorem of_assignable (hp : p ∈ m.mayAsk (.assignable i)) : m.Reason (.assignable i) p := by
  simp only [mayAsk, mem_append, mem_cons] at hp
  rcases hp with ((rfl | hp) | hp) | hp
  · exact .own rfl (by simp [Query.rank])
  · exact of_kind (.inr (.inr rfl)) hp
  · exact of_source (mem_symbolSources.2 (by simp)) hp
  · exact of_source (mem_symbolSources.2 (by simp)) hp

theorem of_selection {c : ChoiceId} (hp : p ∈ m.mayAsk (.selection c)) :
    m.Reason (.selection c) p := by
  simp only [mayAsk, mem_append, mem_cons, mem_map, mem_flatMap] at hp
  rcases hp with (rfl | ⟨d, hd, hp | hp⟩) | ⟨i, hi, rfl⟩
  · exact .own rfl (by simp [Query.rank])
  · exact of_source (mem_append_right _ (mem_map_of_mem hd)) hp
  · obtain ⟨i, hi, rfl⟩ := eq_of_mem_symbolQuery hp
    exact .member rfl rfl (.inr ⟨d, hd, hi⟩)
  · exact .member rfl rfl (.inl hi)

theorem of_mayAsk (hp : p ∈ m.mayAsk q) : m.Reason q p := by
  cases q with
  | tristate i => exact of_tristate hp
  | text i => exact of_text hp
  | visibility i =>
    rcases mem_append.1 hp with hp | hp
    · obtain ⟨e, he, hp⟩ := mem_promptQueries (x := .symbol i) |>.1 hp
      exact of_source (mem_symbolSources.2 (.inl he)) hp
    · exact of_kind (.inr (.inl rfl)) hp
  | assignable i => exact of_assignable hp
  | selection c => exact of_selection hp
  | choiceVisibility c =>
    rcases mem_cons.1 hp with hp | hp
    · exact .modules hp
    · obtain ⟨e, he, hp⟩ := mem_promptQueries (x := .choice c) |>.1 hp
      exact of_source (mem_append_left _ he) hp
  | mode c | choiceAssignable c =>
    simp only [mayAsk, mem_cons, not_mem_nil, or_false] at hp
    rcases hp with rfl | hp
    · exact .own rfl (by simp [Query.rank])
    · exact .modules hp

end Reason

/-! ## Wiring -/

namespace Loaded

section

variable {i : SymbolId} {c : ChoiceId} (h : m.Loaded)

include h

theorem asked_operand (hy : m.Defines y) {e : Expr} (he : e ∈ m.sourcesOf y) (hx : p.item ∈ e.items)
    (hp : p.IsOperand) : m.Free p ∨ m.Feeds p.item y := by
  by_cases hhas : m.Has p.item
  · cases hitem : p.item with
    | symbol i =>
      have hi : p = .tristate i ∨ p = .text i := by
        cases p <;> cases hitem <;> simp [Query.IsOperand] at hp ⊢
      cases hconstant : (m.symbol i).isConstant with
      | true => exact .inl (h.wellFormed.free_of_constant hconstant hi)
      | false =>
        rw [hitem] at hx hhas
        refine .inr (.inr (h.mem_dependentsOf hy he hx hhas fun j hj => ?_))
        cases hj
        exact hconstant
    | choice c =>
      rw [hitem] at hx hhas
      exact .inr (.inr (h.mem_dependentsOf hy he hx hhas nofun))
  · exact .inl (.inl hhas)

theorem defines_of_shows (hx : m.shows (m.entriesOf x)) : m.Defines x := by
  have hentries : m.entriesOf x ≠ [] := by
    intro hnil
    rw [hnil] at hx
    cases hx
  cases x with
  | symbol i => exact h.finished.mem_uniqueDefined.2 (h.wellFormed.symbolEntries i hentries)
  | choice c => exact h.finished.mem_uniqueChoices.2 (h.wellFormed.choiceEntries c hentries)

theorem defines_of_fixed? (hq : m.fixed? q = none) : m.Defines q.item := by
  have hknown : ∀ i, (m.symbol i).kind ≠ .unknown → i ≤ SymbolId.yes ∨ m.Defines (.symbol i) :=
    fun i hi => (h.wellFormed.kinds i hi).imp_right h.finished.mem_uniqueDefined.2
  have htristate : ∀ i, m.fixedTristate? i = none → m.Defines (.symbol i) := by
    intro i hi
    obtain ⟨hlt, hlogical⟩ := lt_and_isLogical_of_fixedTristate? hi
    refine (hknown i fun hunknown => ?_).resolve_left (Nat.not_le_of_lt hlt)
    rw [hunknown] at hlogical
    cases hlogical
  cases q with
  | tristate i => exact htristate i hq
  | text i =>
    simp only [fixed?] at hq
    split at hq
    · exact htristate i (Option.map_eq_none_iff.1 hq)
    · rename_i hlogical
      split at hq
      · cases hq
      · rename_i hkind
        refine (hknown i hkind).resolve_left fun hle => hlogical ?_
        rw [(h.wellFormed.constants i hle).1]
        rfl
  | visibility i | assignable i =>
    exact h.defines_of_shows (x := .symbol i) (by grind [fixed?, entriesOf])
  | mode c | choiceVisibility c =>
    exact h.defines_of_shows (x := .choice c) (by grind [fixed?, entriesOf])
  | selection c | choiceAssignable c =>
    exact h.defines_of_shows (x := .choice c) (by grind [fixed?, entriesOf])

theorem under_choice (hsane : m.ChoicesSane) (hc : (m.symbol i).choice = some c) :
    ∀ k ∈ (m.symbol i).entries, ∀ p, (m.entry k).prompt = some p → p.2.Under c := by
  intro k hk p hp
  obtain ⟨huse, hmember⟩ := h.wellFormed.members i c hc
  have hparent :=
    hsane.prompts c (h.finished.mem_uniqueChoices.2 huse) i hmember k hk (by simp [hp])
  obtain ⟨above, habove, hsubject⟩ := Option.map_eq_some_iff.1 hparent
  exact h.finished.nested k above c habove hsubject _ p (getElem?_of_prompt hp) hp

theorem feeds_shown (hsane : m.ChoicesSane) (hc : (m.symbol i).choice = some c)
    (hi : m.shows (m.symbol i).entries) : m.Feeds (.choice c) (.symbol i) := by
  obtain ⟨k, hk, hprompt⟩ := any_eq_true.1 hi
  obtain ⟨t, ht, hcond⟩ := (Option.any_eq_true _ _).1 hprompt
  have hunder := (h.under_choice hsane hc k hk t ht).mem_items (of_decide_eq_true hcond)
  refine .inr (h.mem_dependentsOf (e := t.2) (h.defines_of_shows (x := .symbol i) hi) ?_ hunder
    (h.wellFormed.choice_lt hc) nofun)
  simp only [sourcesOf, symbolSources, mem_append]
  exact .inl (.inl (.inl (.inl (mem_filterMap.2 ⟨k, hk, by simp [ht]⟩))))

theorem feeds_choice (hc : c ∈ m.choiceUses) (hi : i ∈ (m.choice c).symbols) :
    m.Feeds (.symbol i) (.choice c) := by
  have hm := h.finished
  have hdefined := hm.wellFormed.membersDefined c i hi
  exact .inr (h.mem_dependentsOf_member (hm.mem_uniqueChoices.2 hc) hi
    (hm.wellFormed.stored i hdefined).1)

omit h in
theorem shows_of_fixed? (hq : q = .tristate i ∨ q = .visibility i ∨ q = .assignable i)
    (hc : (m.symbol i).choice = some c) (hfixed : m.fixed? q = none) :
    m.shows (m.symbol i).entries := by
  rcases hq with rfl | rfl | rfl
  · exact shows_of_member rfl hc (lt_and_isLogical_of_fixedTristate? hfixed).2 hfixed
  · grind [fixed?]
  · grind [fixed?]

theorem asked (hsane : m.ChoicesSane) (hq : m.fixed? q = none) (hmay : p ∈ m.mayAsk q) :
    m.Free p ∨ p.item = q.item ∨ m.Feeds p.item q.item := by
  have hdefines := h.defines_of_fixed? hq
  cases Reason.of_mayAsk hmay with
  | own hitem _ => exact .inr (.inl hitem)
  | modules hp =>
    subst hp
    exact .inr (.inr (.inl rfl))
  | source he hx hp => exact (h.asked_operand hdefines he hx hp).imp_right .inr
  | @choice i c hmember hc hp =>
    have hshows := shows_of_fixed? hmember hc hq
    have hitem : q.item = .symbol i := by rcases hmember with rfl | rfl | rfl <;> rfl
    rw [hp, hitem]
    exact .inr (.inr (h.feeds_shown hsane hc hshows))
  | @member i c hselection hp hi =>
    subst hselection hp
    have hc : c ∈ m.choiceUses := h.finished.mem_uniqueChoices.1 hdefines
    refine .inr (.inr (h.feeds_choice hc ?_))
    rcases hi with hi | ⟨d, hd, hi⟩
    · exact hi
    · have hmember := hsane.defaults c hdefines d hd
      rw [hi] at hmember
      exact (h.wellFormed.members i c (of_decide_eq_true hmember)).2

theorem wired (hsane : m.ChoicesSane) : m.Wired where
  has _ hx := h.finished.has hx
  notConstant i hi := h.wellFormed.yes_lt_of_defined (h.finished.mem_uniqueDefined.1 hi)
  dependents _ _ hd := h.defines_of_dependent hd
  defined _ hq := h.defines_of_fixed? hq
  asked _ _ hq hp := h.asked hsane hq hp
  member i c hc := by
    obtain ⟨huse, hmember⟩ := h.wellFormed.members i c hc
    exact ⟨h.finished.mem_uniqueChoices.2 huse, h.feeds_choice huse hmember⟩
  entries i hi := h.finished.mem_uniqueDefined.2 (h.wellFormed.symbolEntries i hi)

end

end Loaded

end Model

end Buildsmith.Kconfig
