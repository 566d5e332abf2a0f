import Buildsmith.Proofs.Assignment.Invalidation

/-!
# Operations on values

Each operation on values leads from a sound state to a sound state: reading a value, assigning to a
symbol or choice, and taking back what was assigned.
-/

namespace Buildsmith.Kconfig

open Values

open Readers (plain)

/-!
## Assignments keep states coherent

An assignment changes what is assigned to an item and invalidates it.  A symbol without a prompt is
not invalidated, and need not be: it is invisible, and the value that a user gives to an invisible
symbol has no effect.
-/

namespace Model

/-- Whether the recorded dependents cover all that rules may ask. -/
structure Wired (m : Model) : Prop extends Tidy m where
  /-- What is not fixed is about a defined item. -/
  defined : ∀ q, m.fixed? q = none → m.Defines q.item
  /-- What a rule may ask is told without an item, is about its own item, or about one that feeds
  it. -/
  asked : ∀ q p, m.fixed? q = none → p ∈ m.mayAsk q →
    m.Free p ∨ p.item = q.item ∨ m.Feeds p.item q.item
  /-- The choice of a symbol is defined, and the symbol feeds it. -/
  member : ∀ i c, (m.symbol i).choice = some c → m.Defines (.choice c) ∧
    m.Feeds (.symbol i) (.choice c)
  /-- A symbol with entries is defined. -/
  entries : ∀ i, (m.symbol i).entries ≠ [] → m.Defines (.symbol i)

variable {m : Model} {u u' : Assigned} {t : Table} {q : Query} {i : SymbolId} {c : ChoiceId}

theorem Wired.feeds_shown (hm : m.Wired) (hc : (m.symbol i).choice = some c)
    (hi : m.shows (m.symbol i).entries) : m.Feeds (.choice c) (.symbol i) := by
  have hfixed : m.fixed? (.visibility i) = none := by simp [fixed?, hi]
  have hmode : .mode c ∈ m.mayAsk (.visibility i) := by simp [mayAsk, kindQueries, hc]
  rcases hm.asked _ _ hfixed hmode with hfree | hitem | hfeeds
  · rcases hfree with hhas | hnothing
    · exact absurd (hm.has _ (hm.member i c hc).1) hhas
    · cases hnothing
  · cases hitem
  · exact hfeeds

theorem shows_of_member (hq : q.item = .symbol i) (hc : (m.symbol i).choice = some c)
    (hl : (m.symbol i).kind.isLogical) (hf : m.fixed? q = none) :
    m.shows (m.symbol i).entries := by
  by_contra hs
  cases q <;> cases hq <;> grind [fixed?, fixedTristate?]

/-! ## Values of hidden symbols -/

section Hidden

variable {t' : Table} {U : Item → Prop} {W : Prop} {warns : Bool} {i : SymbolId}

theorem unselectedValue_hidden : (plain m u warns t).unselectedValue i .no =
    (plain m u warns t).impliedValue i := by
  change (plain m u warns t).chosenValue i .no (u.user i) = _
  rcases u.user i with _ | ⟨_ | _⟩ <;> rfl

theorem chosenNumber_hidden {range : Option (Int × Int)} (user : Option UserValue) :
    (plain m u warns t).chosenNumber i .no range user =
      (plain m u warns t).numericDefault i range := by
  rcases user with _ | ⟨_ | _⟩ <;> rfl

theorem stringText_hidden : (plain m u warns t).stringText i .no =
    (plain m u warns t).stringDefault i := by
  change (plain m u warns t).chosenString i .no (u.user i) = _
  rcases u.user i with _ | ⟨_ | _⟩ <;> rfl

variable {vis : Tristate}

theorem plainText_of_numeric (hkind : (m.symbol i).kind.isNumeric) :
    (plain m u warns t).plainText i vis = (plain m u warns t).numericText i vis :=
  if_pos hkind

theorem plainText_of_not_numeric (hkind : ¬(m.symbol i).kind.isNumeric) :
    (plain m u warns t).plainText i vis = (plain m u warns t).stringText i vis :=
  if_neg hkind

theorem eq_no_of_hidden (hvis : t (.visibility i) = .ok vis) (hno : vis = .no) (x : Tristate)
    (hx : t (.visibility i) = .ok x) : x = .no :=
  (Except.ok.inj (hx.symm.trans hvis)).trans hno

variable (hlinked : Linked Link.gives m (fun _ => True) U (fun _ => True) W (.plain m u warns t)
  (.plain m u' warns t'))

include hlinked

theorem ok_of_linked {a : q.Answer} (h : t q = .ok a) : t' q = .ok a :=
  (Readers.plain_ask_eq_ok.1 (hlinked.ask q trivial none _ (Readers.plain_ask_eq_ok.2 ⟨h, rfl⟩))).1

theorem infer_tristate_of_hidden (hl : (m.symbol i).kind.isLogical)
    (hvis : ∀ vis, t (.visibility i) = .ok vis → vis = .no) {r : Tristate × Option Bool}
    (h : m.infer u warns t (.tristate i) = .ok r) : m.infer u' warns t' (.tristate i) = .ok r := by
  obtain ⟨vis, hask⟩ := tristate_asks_visibility hl h
  cases hvis vis hask
  rw [infer_tristate_eq hl hask] at h
  rw [infer_tristate_eq hl (ok_of_linked hlinked hask)]
  cases hc : (m.symbol i).choice with
  | some c =>
    rw [hc] at h
    exact h
  | none =>
    rw [hc] at h
    -- a hidden symbol has its default, whether or not a value is assigned
    refine hlinked.plainValue_of_unselected trivial (fun _ _ => trivial) (fun _ _ _ => trivial)
      ?_ _ _ h
    rw [unselectedValue_hidden, unselectedValue_hidden]
    exact hlinked.impliedValue trivial (fun _ _ _ _ => trivial) (fun _ _ => trivial)
      fun _ _ => trivial

theorem plainText_of_hidden : Link.gives.Rel ((plain m u warns t).plainText i .no)
      ((plain m u' warns t').plainText i .no) := by
  by_cases hkind : (m.symbol i).kind.isNumeric
  · rw [plainText_of_numeric hkind, plainText_of_numeric hkind]
    refine Link.gives.bind (hlinked.activeRange _ fun _ _ _ _ => trivial) fun range => ?_
    change Link.gives.Rel ((plain m u warns t).chosenNumber i .no range (u.user i))
      ((plain m u' warns t').chosenNumber i .no range (u'.user i))
    rw [chosenNumber_hidden, chosenNumber_hidden]
    exact hlinked.numericDefault trivial (fun _ _ _ _ => trivial) range
  · rw [plainText_of_not_numeric hkind, plainText_of_not_numeric hkind, stringText_hidden,
      stringText_hidden]
    exact Link.gives.bind (hlinked.givenDefault trivial fun _ _ _ _ => trivial)
      fun _ => Link.gives.pure _

theorem infer_text_of_hidden (hl : (m.symbol i).kind.isLogical = false)
    (hvis : ∀ vis, t (.visibility i) = .ok vis → vis = .no) {r : String × Option Bool}
    (h : m.infer u warns t (.text i) = .ok r) : m.infer u' warns t' (.text i) = .ok r := by
  by_cases hk : (m.symbol i).kind = .unknown
  · rw [infer_text_of_unknown hk] at h ⊢
    exact h
  · obtain ⟨vis, hask⟩ := text_asks_visibility hl hk h
    cases hvis vis hask
    rw [infer_text_eq hl hk hask] at h
    rw [infer_text_eq hl hk (ok_of_linked hlinked hask)]
    exact Link.gives.bind (plainText_of_hidden hlinked) (fun text _ _ h => h) _ r h

end Hidden

theorem isLogical_of_fixedTristate? (hi : m.shows (m.symbol i).entries = false)
    (hf : m.fixedTristate? i = none) : (m.symbol i).kind.isLogical := by
  simp only [fixedTristate?, hi] at hf
  by_contra hl
  grind

theorem infer_of_not_shows (ht : m.Respects t) (hq : q.item = .symbol i)
    (hi : m.shows (m.symbol i).entries = false) (hf : m.fixed? q = none)
    {r : q.Answer × Option Bool} (h : m.infer u false t q = .ok r) :
    m.infer u' false t q = .ok r := by
  have hvis : ∀ vis, t (.visibility i) = .ok vis → vis = .no :=
    fun vis => ht.eq_no_of_not_shows hi
  have hlinked : Linked Link.gives m (fun _ => True) (fun _ => False) (fun _ => True) False
      (.plain m u false t) (.plain m u' false t) :=
    linked_plain (fun h => absurd h Bool.false_ne_true) (fun _ _ _ h => h) (fun _ h => h.elim)
      fun _ h => h.elim
  cases q with
  | tristate j =>
    cases hq
    exact infer_tristate_of_hidden hlinked (isLogical_of_fixedTristate? hi hf) hvis h
  | text j =>
    cases hq
    cases hl : (m.symbol i).kind.isLogical with
    | true => exact (infer_text_of_logical hl).2 ((infer_text_of_logical hl).1 h)
    | false => exact infer_text_of_hidden hlinked hl hvis h
  | visibility j | assignable j =>
    cases hq
    simp [fixed?, hi] at hf
  | _ => cases hq

end Model

/-! ## Changes of what is assigned -/

/-- A change of what is assigned that leaves all that is remembered as it is. -/
structure SameMemory (v v' : Values) : Prop where
  symbols_size : v'.symbols.size = v.symbols.size
  choices_size : v'.choices.size = v.choices.size
  written : ∀ x, v'.written x = v.written x
  recalled? : ∀ q, v'.recalled? q = v.recalled? q

variable {v' v : Values}

theorem SameMemory.keeps (h : SameMemory v v') : Keeps v v' :=
  ⟨h.symbols_size, h.choices_size, h.written, fun q _ => h.recalled? q, fun _ => .inl fun q _ =>
    h.recalled? q⟩

theorem SameMemory.known (h : SameMemory v v') (x : Item) : v'.Known x ↔ v.Known x := by
  rw [Values.Known, isKnown_eq_recalled?, h.recalled?, Values.Known, isKnown_eq_recalled?]

/-- Whether a change of a symbol's state leaves what is remembered of it. -/
abbrev SymbolState.Remembers (f : SymbolState → SymbolState) : Prop :=
  ∀ x, (f x).text = x.text ∧ (f x).tristate = x.tristate ∧ (f x).visibility = x.visibility ∧
    (f x).assignable = x.assignable ∧ (f x).isWritten = x.isWritten

theorem sameMemory_modifySymbol (v : Values) (i : SymbolId) {f : SymbolState → SymbolState}
    (hf : SymbolState.Remembers f) : SameMemory v (v.modifySymbol i f) where
  symbols_size := by simp [modifySymbol]
  choices_size := rfl
  written x := by
    cases x with
    | symbol j =>
      simp only [written, symbol_modifySymbol]
      split
      · exact (hf _).2.2.2.2
      · rfl
    | choice c => rfl
  recalled? q := by
    cases q <;> simp only [recalled?, symbol_modifySymbol, choice_modifySymbol]
    all_goals
      split
      · simp [hf]
      · rfl

abbrev ChoiceState.Remembers (f : ChoiceState → ChoiceState) : Prop :=
  ∀ x, (f x).visibility = x.visibility ∧ (f x).assignable = x.assignable ∧
    (f x).selection = x.selection

theorem sameMemory_modifyChoice (v : Values) (c : ChoiceId) {f : ChoiceState → ChoiceState}
    (hf : ChoiceState.Remembers f) : SameMemory v (v.modifyChoice c f) where
  symbols_size := rfl
  choices_size := by simp [modifyChoice]
  written x := by cases x <;> rfl
  recalled? q := by
    cases q <;> simp only [recalled?, choice_modifyChoice, symbol_modifyChoice]
    all_goals
      split
      · simp [hf]
      · rfl

variable {m : Model} {u : Assigned} {v v₁ : Values}

/-- Whether the selections of users are symbols of their choices. -/
def Assigned.SelectsMembers (m : Model) (u : Assigned) : Prop :=
  ∀ c i, u.selection c = some i → (m.symbol i).choice = some c

theorem Coherent.reassign (h : Coherent m u v) (hsame : SameMemory v v₁)
    (hchange : ∀ q t r, m.fixed? q = none → m.Respects t →
      m.infer u false t q = .ok r → m.infer v₁.assigned false t q = .ok r) :
    Coherent m v₁.assigned v₁ := by
  refine h.keep hsame.keeps ⟨?_, ?_, ?_⟩ rfl
  · exact fun q p _ _ _ hp => .inl ((hsame.known _).2 hp)
  · exact fun c i _ _ hi => .inl ((hsame.known _).2 hi)
  · exact fun q t r hf _ => hchange q t r hf

/-! ## Operations -/

open EvalM (runOn_bind runOn_read)

/-- A state whose memory is coherent with what is assigned in it. -/
structure Sound (m : Model) (v : Values) : Prop where
  coherent : Coherent m v.assigned v
  members : v.assigned.SelectsMembers m

namespace Sound

variable {m : Model} {v v₁ : Values}

theorem warned (h : Sound m v) (ws : List String) : Sound m { v with warnings := ws } :=
  ⟨h.coherent.warned ws, h.members⟩

theorem of_same (h : Sound m v) {v' : Values} (hsame : SameMemory v v')
    (hu : v'.assigned = v.assigned) : Sound m v' := by
  refine ⟨h.coherent.reassign hsame fun q t r _ _ hr => ?_, hu ▸ h.members⟩
  rwa [hu]

/-! ## Reading -/

theorem answerTo (h : Sound m v) (q : Query) : Sound m ((answerTo q).runOn m v).2 := by
  rw [runOn_answerTo]
  obtain ⟨r, v', hrun, hv', -⟩ := answers_answerWithin m.readDepth q v h.coherent
  rw [hrun]
  refine ⟨?_, ?_⟩
  · rw [hv'.assigned]
    exact hv'
  · rw [hv'.assigned]
    exact h.members

/-! ## Changes to one item -/

theorem invalidate (hm : m.Wired) (h : Sound m v) (hsame : SameMemory v v₁)
    (hmembers : v₁.assigned.SelectsMembers m) {x : Item} (hx : ∀ i, x = .symbol i → SymbolId.yes < i)
    (hchange : ∀ q t r, m.fixed? q = none → q.item ≠ x → ¬m.Feeds x q.item → m.Respects t →
      m.infer v.assigned false t q = .ok r → m.infer v₁.assigned false t q = .ok r) :
    Sound m (v₁.invalidate m x) := by
  have hinv := invalidate_spec hm.toTidy v₁ hx
  have hclosed : ∀ y d, m.Feeds y d → m.Defines d → (v₁.invalidate m x).Known d →
      v.Known y → (v₁.invalidate m x).Known y :=
    fun y d hfeeds hd hknown hy => (hinv.closed y d hfeeds hd hknown).2 ((hsame.known y).2 hy)
  suffices hcoherent : Coherent m v₁.assigned (v₁.invalidate m x) from
    ⟨hinv.assigned ▸ hcoherent, hinv.assigned ▸ hmembers⟩
  refine h.coherent.keep (hsame.keeps.trans hinv.keeps) ⟨?_, ?_, ?_⟩ hinv.assigned
  · intro q p hf hknown hp hpknown
    rcases hm.asked q p hf hp with hfree | hitem | hfeeds
    · exact hfree.open _
    · exact .inl (hitem ▸ hknown)
    · exact .inl (hclosed _ _ hfeeds (hm.defined q hf) hknown hpknown)
  · intro c i hknown hsel hi
    obtain ⟨hdefined, hfeeds⟩ := hm.member i c (h.members c i hsel)
    exact .inl (hclosed _ _ hfeeds hdefined hknown hi)
  · intro q t r hf hknown ht hr
    refine hchange q t r hf (fun hq => ?_) (fun hfeeds => ?_) ht hr
    · exact hinv.gone (hq ▸ hm.defined q hf) (hq ▸ hknown)
    · exact (hinv.closed x q.item hfeeds (hm.defined q hf) hknown).1 rfl

variable {f : SymbolState → SymbolState} {i : SymbolId} {c : ChoiceId} {x : Item}

theorem agreesAt_modifySymbol (hx : x ≠ .symbol i) :
    v.assigned.AgreesAt (v.modifySymbol i f).assigned x := by
  cases x with
  | symbol j =>
    have hij : i ≠ j := fun hij => hx (hij ▸ rfl)
    simp [Assigned.AgreesAt, assigned, symbol_modifySymbol, hij]
  | choice c => exact ⟨rfl, rfl⟩

theorem agreesAt_modifyChoice {f : ChoiceState → ChoiceState} (hx : x ≠ .choice c) :
    v.assigned.AgreesAt (v.modifyChoice c f).assigned x := by
  cases x with
  | symbol i => exact rfl
  | choice d =>
    have hcd : c ≠ d := fun hcd => hx (hcd ▸ rfl)
    simp [Assigned.AgreesAt, assigned, choice_modifyChoice, hcd]

theorem infer_of_agreesAt {u u' : Assigned} {q : Query} (hu : u.AgreesAt u' q.item) {t : Table}
    {r : q.Answer × Option Bool} (h : m.infer u false t q = .ok r) : m.infer u' false t q = .ok r :=
  Model.infer_mono (fun _ _ _ h => h) (fun _ _ _ _ _ h => h) hu h

theorem changeChoice (hm : m.Wired) (h : Sound m v) (c : ChoiceId) {f : ChoiceState → ChoiceState}
    (hf : ChoiceState.Remembers f) (hmembers : (v.modifyChoice c f).assigned.SelectsMembers m) :
    Sound m ((v.modifyChoice c f).invalidate m (.choice c)) := by
  exact h.invalidate hm (sameMemory_modifyChoice v c hf) hmembers nofun
    fun q t r _ hq _ _ hr => infer_of_agreesAt (agreesAt_modifyChoice hq) hr

/-- What invalidating a symbol does if a prompt lets its value matter. -/
def invalidatedIfPrompted (m : Model) (warns : Bool) (i : SymbolId) (v : Values) : Values :=
  ((invalidatePrompted warns i).runOn m v).2

theorem runOn_invalidatePrompted (warns : Bool) (i : SymbolId) :
    (invalidatePrompted warns i).runOn m v = (.ok (), invalidatedIfPrompted m warns i v) := by
  unfold invalidatedIfPrompted invalidatePrompted
  simp only [runOn_bind, runOn_read]
  split
  · rfl
  · split <;> rfl

theorem changeSymbol (hm : m.Wired) (h : Sound m v) (warns : Bool) (i : SymbolId)
    (hf : SymbolState.Remembers f) :
    Sound m (invalidatedIfPrompted m warns i (v.modifySymbol i f)) := by
  have hsame := sameMemory_modifySymbol v i hf
  have hmembers : (v.modifySymbol i f).assigned.SelectsMembers m := h.members
  unfold invalidatedIfPrompted invalidatePrompted
  simp only [runOn_bind, runOn_read]
  split
  · -- the symbol has a prompt
    rename_i hprompt
    have hi : m.Defines (.symbol i) := by
      refine hm.entries i fun hentries => ?_
      simp [hentries] at hprompt
    have hx : ∀ j, Item.symbol i = .symbol j → SymbolId.yes < j := by
      rintro j ⟨⟩
      exact hm.notConstant i hi
    exact h.invalidate hm hsame hmembers hx
      fun q t r _ hq _ _ hr => infer_of_agreesAt (agreesAt_modifySymbol hq) hr
  · -- without a prompt it is invisible
    rename_i hprompt
    have hshows : m.shows (m.symbol i).entries = false := by
      simp only [Model.shows, List.any_eq_false]
      intro k hk
      simp only [List.any_eq_true, not_exists, not_and] at hprompt
      have := hprompt k hk
      simp_all
    have hcoherent : Coherent m (v.modifySymbol i f).assigned (v.modifySymbol i f) := by
      refine h.coherent.reassign hsame fun q t r hq ht hr => ?_
      by_cases hitem : q.item = .symbol i
      · exact Model.infer_of_not_shows ht hitem hshows hq hr
      · exact infer_of_agreesAt (agreesAt_modifySymbol hitem) hr
    split
    · exact Sound.warned ⟨hcoherent, hmembers⟩ _
    · exact ⟨hcoherent, hmembers⟩

theorem changeMember (hm : m.Wired) (h : Sound m v)
    (hc : (m.symbol i).choice = some c) (hl : (m.symbol i).kind.isLogical)
    {g : ChoiceState → ChoiceState} (hf : SymbolState.Remembers f) (hg : ChoiceState.Remembers g)
    (hmembers : ((v.modifySymbol i f).modifyChoice c g).assigned.SelectsMembers m) :
    Sound m (((v.modifySymbol i f).modifyChoice c g).invalidate m (.choice c)) := by
  have hsame : SameMemory v ((v.modifySymbol i f).modifyChoice c g) := by
    have hfirst := sameMemory_modifySymbol v i hf
    have hlast := sameMemory_modifyChoice (v.modifySymbol i f) c hg
    exact ⟨hlast.symbols_size.trans hfirst.symbols_size,
      hlast.choices_size.trans hfirst.choices_size,
      fun x => (hlast.written x).trans (hfirst.written x),
      fun q => (hlast.recalled? q).trans (hfirst.recalled? q)⟩
  refine h.invalidate hm hsame hmembers nofun fun q t r hq hchoice hfeeds _ hr => ?_
  have hsymbol : q.item ≠ .symbol i := by
    intro hitem
    have hshows := Model.shows_of_member hitem hc hl hq
    exact hfeeds (hitem ▸ hm.feeds_shown hc hshows)
  exact infer_of_agreesAt (agreesAt_modifyChoice hchoice)
    (infer_of_agreesAt (agreesAt_modifySymbol hsymbol) hr)

/-! ## Assigning -/

theorem isLogical_of_accepted {kind : Kind} {o : Offer} {x : Tristate}
    (h : o.accepted? kind = some (.tristate x)) : kind.isLogical := by
  unfold Offer.accepted? at h
  cases kind <;> grind [Kind.isLogical]

theorem selectsMembers_modifyChoice (h : v.assigned.SelectsMembers m)
    (hc : (m.symbol i).choice = some c) {f : ChoiceState → ChoiceState}
    (hf : ∀ x, (f x).userSelection = some i ∨ (f x).userSelection = x.userSelection ∨
      (f x).userSelection = none) : (v.modifyChoice c f).assigned.SelectsMembers m := by
  intro d j hj
  simp only [assigned, choice_modifyChoice] at hj
  split at hj
  · rename_i hd
    obtain ⟨rfl, -⟩ := hd
    rcases hf (v.choice c) with hi | hsame | hnone
    · rw [hi] at hj
      cases hj
      exact hc
    · rw [hsame] at hj
      exact h c j hj
    · rw [hnone] at hj
      cases hj
  · exact h d j hj

theorem markSymbol (h : Sound m v) (i : SymbolId) :
    Sound m (v.modifySymbol i fun x => { x with wasSet := true }) := by
  refine h.of_same (sameMemory_modifySymbol v i fun _ => ⟨rfl, rfl, rfl, rfl, rfl⟩) ?_
  simp [assigned, symbol_modifySymbol, apply_ite SymbolState.user]

theorem markChoice (h : Sound m v) (c : ChoiceId) :
    Sound m (v.modifyChoice c fun x => { x with wasSet := true }) := by
  refine h.of_same (sameMemory_modifyChoice v c fun _ => ⟨rfl, rfl, rfl⟩) ?_
  simp [assigned, choice_modifyChoice, apply_ite ChoiceState.user,
    apply_ite ChoiceState.userSelection]

theorem setSymbol (hm : m.Wired) (h : Sound m v) (warns : Bool) (i : SymbolId) (o : Offer) :
    Sound m ((setSymbol warns i o).runOn m v).2 := by
  simp only [Kconfig.setSymbol, runOn_bind, runOn_read, EvalM.runOn_symbolState]
  generalize (if (m.symbol i).kind.isLogical then o.ranked else o) = o'
  split
  · -- the value is what it was
    exact h.markSymbol i
  · split
    · exact h.warned _
    · rename_i x hx
      split
      · rename_i c hc
        refine changeMember hm h hc (isLogical_of_accepted hx) ?_ ?_ ?_
        · exact fun _ => ⟨rfl, rfl, rfl, rfl, rfl⟩
        · exact fun _ => ⟨rfl, rfl, rfl⟩
        · exact selectsMembers_modifyChoice h.members hc fun _ => .inl rfl
      · simp only [runOn_bind, runOn_invalidatePrompted]
        exact changeSymbol hm h warns i fun _ => ⟨rfl, rfl, rfl, rfl, rfl⟩

theorem setChoice (hm : m.Wired) (h : Sound m v) (c : ChoiceId) (o : Offer) :
    Sound m ((setChoice c o).runOn m v).2 := by
  simp only [Kconfig.setChoice, runOn_bind, runOn_read, EvalM.runOn_choiceState]
  split
  · exact h.markChoice c
  · split
    · refine changeChoice hm h c (fun _ => ⟨rfl, rfl, rfl⟩) ?_
      intro d j hj
      refine h.members d j ?_
      simpa [assigned, choice_modifyChoice, apply_ite ChoiceState.userSelection] using hj
    · exact h.warned _

theorem unsetSymbol (hm : m.Wired) (h : Sound m v) (warns : Bool) (i : SymbolId) :
    Sound m ((unsetSymbol warns i).runOn m v).2 := by
  simp only [Kconfig.unsetSymbol, runOn_bind, EvalM.runOn_symbolState]
  split
  · simp only [runOn_bind]
    exact changeSymbol hm h warns i fun _ => ⟨rfl, rfl, rfl, rfl, rfl⟩
  · exact h

theorem unsetChoice (hm : m.Wired) (h : Sound m v) (c : ChoiceId) :
    Sound m ((unsetChoice c).runOn m v).2 := by
  simp only [Kconfig.unsetChoice, runOn_bind, EvalM.runOn_choiceState]
  split
  · refine changeChoice hm h c (fun _ => ⟨rfl, rfl, rfl⟩) ?_
    intro d j hj
    simp only [assigned, choice_modifyChoice] at hj
    split at hj
    · cases hj
    · exact h.members d j hj
  · exact h

end Sound

end Buildsmith.Kconfig
