import Buildsmith.Proofs.Evaluation.Reentry
import Buildsmith.Proofs.Session.Exclusivity

/-!
# Reads and recorded dependents

What an item reads while it is computed has the item among its recorded dependents, so that a change
of the one is noticed by the other (`dependents_cover_reads`).  Three kinds of reads are left out
(`Model.Unrecorded`).  The first one leaves values behind that are out of date
(`dependents_cover_reads_outsideDefault`).
-/

namespace Buildsmith.Kconfig

namespace Model

variable {m : Model} {u : Assigned} {a b : Query}

instance (m : Model) (x : Item) : Decidable (m.Defines x) :=
  match x with
  | .symbol i => inferInstanceAs (Decidable (i ∈ m.uniqueDefined))
  | .choice c => inferInstanceAs (Decidable (c ∈ m.uniqueChoices))

instance (m : Model) (u : Assigned) (a b : Query) : Decidable (m.Asks u a b) :=
  decidable_of_iff ((m.constant? a).isNone = true ∧ b ∈ m.asked u (m.outcome u) a) (by simp [Asks])

/-- Whether a symbol has a prompt at an entry that is not right below a choice. -/
def PromptedOutside (m : Model) (i : SymbolId) (c : ChoiceId) : Prop :=
  ∃ k ∈ (m.symbol i).entries, (m.entry k).prompt.isSome ∧
    (m.parentOf k).map (fun p => (m.entry p).subject) ≠ some (.choice c)

/-- The reads that the recorded dependents leave out. -/
inductive Unrecorded (m : Model) (a b : Query) : Prop
  /-- A choice looks at a default that is none of its symbols. -/
  | outsideDefault {c : ChoiceId} {i : SymbolId} (ha : a = .selection c) (hb : b = .visibility i)
    (hi : ∃ d ∈ (m.choice c).defaults, d.1 = .symbol i) (hout : i ∉ (m.choice c).symbols)
  /-- A symbol reads its choice, which none of its conditions mentions: it has a prompt outside the
  choice, or none of its prompts can be shown. -/
  | simplifiedAway {i : SymbolId} {c : ChoiceId}
    (ha : a = .tristate i ∨ a = .visibility i ∨ a = .assignable i)
    (hc : (m.symbol i).choice = some c) (hb : b.item = .choice c)
    (hsources : ∀ e ∈ m.sourcesOf (.symbol i), .choice c ∉ e.items)
    (hout : m.PromptedOutside i c ∨ m.shows (m.symbol i).entries = false)
  /-- For a warning, a symbol reads what a symbol that selects it depends on. -/
  | warning {i k : SymbolId} (ha : a = .tristate i) (hk : .symbol k ∈ (m.symbol i).reverseDep.items)
    (hb : b ∈ (m.symbol k).directDep.queries)

namespace Loaded

section

variable {c : ChoiceId} {i : SymbolId} (h : m.Loaded) (ha : m.Defines a.item)
  (hb : m.Defines b.item)

include h ha hb

theorem mem_dependentsOf_of_source {e : Expr} (he : e ∈ m.sourcesOf a.item)
    (hx : b.item ∈ e.items) : a.item ∈ m.dependentsOf b.item := by
  have hm := h.finished
  have hplace : m.Has b.item ∧ ∀ i, b.item = .symbol i → (m.symbol i).isConstant = false := by
    cases hitem : b.item with
    | symbol i =>
      rw [hitem] at hb
      obtain ⟨hlt, hconstant, -⟩ := hm.wellFormed.defined i (hm.mem_uniqueDefined.1 hb)
      refine ⟨hlt, fun j hj => ?_⟩
      cases hj
      exact hconstant
    | choice c =>
      rw [hitem] at hb
      exact ⟨hm.wellFormed.choiceUses c (hm.mem_uniqueChoices.1 hb), nofun⟩
  exact h.mem_dependentsOf ha he hx hplace.1 hplace.2

omit ha hb in
theorem choice_mem_dependentsOf (hc : m.Defines (.choice c)) (hi : i ∈ (m.choice c).symbols) :
    .choice c ∈ m.dependentsOf (.symbol i) := by
  have hwf := h.wellFormed
  exact h.mem_dependentsOf_member hc hi (hwf.defined i (hwf.membersDefined c i hi)).1

omit ha hb in
theorem promptedOutside_or (hsources : ∀ e ∈ m.sourcesOf (.symbol i), .choice c ∉ e.items) :
    m.PromptedOutside i c ∨ m.shows (m.symbol i).entries = false := by
  by_contra! hnot
  obtain ⟨hinside, hshows⟩ := hnot
  obtain ⟨k, hk, hprompt⟩ := List.any_eq_true.1 (Bool.eq_true_of_not_eq_false hshows)
  obtain ⟨t, ht, hcond⟩ := (Option.any_eq_true _ _).1 hprompt
  have hparent : (m.parentOf k).map (fun p => (m.entry p).subject) = some (.choice c) := by
    by_contra hparent
    exact hinside ⟨k, hk, by simp [ht], hparent⟩
  obtain ⟨above, habove, hsubject⟩ := Option.map_eq_some_iff.1 hparent
  have hnested := h.finished.nested k above c habove hsubject _ t (getElem?_of_prompt ht) ht
  refine hsources t.2 (mem_symbolSources.2 (.inl ?_)) (hnested.mem_items (of_decide_eq_true hcond))
  exact List.mem_filterMap.2 ⟨k, hk, by simp [ht]⟩

theorem covered_of_reason (hother : b.item ≠ a.item) (hmodules : b.item ≠ .symbol SymbolId.modules)
    (hreason : m.Reason a b) : a.item ∈ m.dependentsOf b.item ∨ m.Unrecorded a b := by
  cases hreason with
  | own hitem _ => exact absurd hitem hother
  | modules hb =>
    rw [hb] at hmodules
    exact absurd rfl hmodules
  | source he hx _ => exact .inl (h.mem_dependentsOf_of_source ha hb he hx)
  | @choice i c hmember hc hitem =>
    have haitem : a.item = .symbol i := by rcases hmember with rfl | rfl | rfl <;> rfl
    by_cases hsources : ∃ e ∈ m.sourcesOf (.symbol i), .choice c ∈ e.items
    · obtain ⟨e, he, hx⟩ := hsources
      exact .inl (h.mem_dependentsOf_of_source ha hb (haitem ▸ he) (hitem ▸ hx))
    · push Not at hsources
      exact .inr (.simplifiedAway hmember hc hitem hsources (h.promptedOutside_or hsources))
  | @member i c hselection hvisibility hi =>
    subst hselection hvisibility
    by_cases hmember : i ∈ (m.choice c).symbols
    · exact .inl (h.choice_mem_dependentsOf ha hmember)
    · exact .inr (.outsideDefault rfl rfl (hi.resolve_left hmember) hmember)

theorem covered_of_mention (hmention : b ∈ m.mayMention a) :
    a.item ∈ m.dependentsOf b.item ∨ m.Unrecorded a b := by
  obtain ⟨i, k, rfl, hitem, rfl | hdep⟩ := exists_of_mem_mayMention hmention
  · exact .inl (h.mem_dependentsOf_of_source ha hb (mem_symbolSources.2 (by simp)) hitem)
  · exact .inr (.warning rfl hitem hdep)

end

theorem covered
    (h : m.Loaded) (hselected : ∀ c i, u.selection c = some i → (m.symbol i).choice = some c)
    (hasks : m.Asks u a b) (ha : m.Defines a.item) (hb : m.Defines b.item)
    (hother : b.item ≠ a.item) (hmodules : b.item ≠ .symbol SymbolId.modules) :
    a.item ∈ m.dependentsOf b.item ∨ m.Unrecorded a b := by
  rcases hasks.mayRead with hask | hmention | ⟨c, i, hitem, hselection, rfl⟩
  · exact h.covered_of_reason ha hb hother hmodules (.of_mayAsk hask)
  · exact h.covered_of_mention ha hb hmention
  · have hmember := (h.wellFormed.members i c (hselected c i hselection)).2
    rw [hitem] at ha ⊢
    exact .inl (h.choice_mem_dependentsOf ha hmember)

end Loaded

end Model

/-- In a session, whatever users have assigned, each defined item that is read while another one is
computed from scratch has the other one among its recorded dependents, but for the symbol that turns
modules on and the reads that are left out. -/
theorem dependents_cover_reads {w : Workspace} {o : LoadOptions} {s : Session} {r : Reading}
    (hopen : openSession w o = (.ok s, r)) {u : Assigned}
    (hselected : ∀ c i, u.selection c = some i → (s.model.symbol i).choice = some c) {a b : Query}
    (hasks : s.model.Asks u a b) (ha : s.model.Defines a.item) (hb : s.model.Defines b.item)
    (hother : b.item ≠ a.item) (hmodules : b.item ≠ .symbol SymbolId.modules) :
    a.item ∈ s.model.dependentsOf b.item ∨ s.model.Unrecorded a b :=
  (loaded_of_openSession hopen).1.covered hselected hasks ha hb hother hmodules

/-- A choice whose default `D` is none of its symbols and visible only with `G`. -/
def outsideDefaultWorkspace : Workspace :=
  { files := { entries := [(["Kconfig"],
      .file ("config G\n\tbool \"g\"\nconfig D\n\tbool \"d\" if G\nchoice\n\tprompt \"c\"\n" ++
        "\tdefault D\nconfig A\n\tbool \"a\"\nconfig B\n\tbool \"b\"\nendchoice\n").toUTF8)] } }

/-- The selection is read, and then `G` is set. -/
def showDefault : List Action := [.read (.ask (.selection 0)), .setSymbol true 4 (.number 2)]

/-- The choice looks at its default and is not recorded there.  So its selection is still the first
symbol once the default is visible, although the default would be selected anew. -/
theorem dependents_cover_reads_outsideDefault :
    ∃ s r, openSession outsideDefaultWorkspace {} = (.ok s, r) ∧
      s.model.Asks s.values.assigned (.selection 0) (.visibility 6) ∧
      .choice 0 ∈ s.model.dependentsOf (.symbol 6) ∧
      s.model.Asks s.values.assigned (.selection 0) (.visibility 5) ∧
      .choice 0 ∉ s.model.dependentsOf (.symbol 5) ∧
      s.model.Unrecorded (.selection 0) (.visibility 5) ∧
      (s.after showDefault).Reads (.selection 0) (some 6) ∧
      (s.after showDefault).cleared.Reads (.selection 0) (some 5) := by
  obtain ⟨s, r, hopen, hrun⟩ := exists_of_opensTo outsideDefaultWorkspace (fun s =>
      decide (s.model.Asks s.values.assigned (.selection 0) (.visibility 6)) &&
      decide (s.model.Asks s.values.assigned (.selection 0) (.visibility 5)) &&
      decide (.choice 0 ∈ s.model.dependentsOf (.symbol 6)) &&
      decide (.choice 0 ∉ s.model.dependentsOf (.symbol 5)) &&
      decide (s.model.Defines (.choice 0)) && decide (s.model.Defines (.symbol 5)) &&
      (runFrom (Observation.ask (.selection 0)).read (s.after showDefault)).1.toOption ==
        some (some 6) &&
      (runFrom (Observation.ask (.selection 0)).read (s.after showDefault).cleared).1.toOption ==
        some (some 5))
    (by decide +kernel)
  simp only [Bool.and_eq_true, decide_eq_true_eq, beq_iff_eq] at hrun
  obtain ⟨⟨⟨⟨⟨⟨⟨hmember, houtside⟩, hrecorded⟩, hnot⟩, hchoice⟩, hsymbol⟩, hstale⟩, hfresh⟩ := hrun
  have hselected : ∀ c i, s.values.assigned.selection c = some i →
      (s.model.symbol i).choice = some c := by
    intro c i hi
    simp [(loaded_of_openSession hopen).2, Values.assigned, Values.choice_initial] at hi
  have hcovered := dependents_cover_reads hopen hselected houtside hchoice hsymbol (by decide)
    (by decide)
  exact ⟨s, r, hopen, hmember, hrecorded, houtside, hnot, hcovered.resolve_left hnot,
    eq_ok_of_toOption hstale, eq_ok_of_toOption hfresh⟩

end Buildsmith.Kconfig
