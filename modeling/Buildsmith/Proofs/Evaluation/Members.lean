import Buildsmith.Proofs.Assignment.Wiring
import Buildsmith.Proofs.Evaluation.Asking

/-!
# The symbols of a choice

The outcomes of all queries balance: each follows from the others by its rule (`balanced_outcome`).
In a table that balances, the mode of a choice limits the visibilities of its symbols, the selection
is one of the visible ones, and the values of the symbols follow from both.
-/

namespace Buildsmith.Kconfig

open Readers List
open PlainM (bind_ok_iff)


namespace Model

/-- A table in which each answer follows from the others by its rule. -/
structure Balanced (m : Model) (u : Assigned) (t : Table) : Prop where
  constants : ∀ q a, m.constant? q = some a → t q = .ok a
  rule : ∀ q a, t q = .ok a → asksConstant q = false → ∃ w, m.infer u true t q = .ok (a, w)

variable {m : Model} {u : Assigned} {t : Table} {q : Query}

theorem balanced_outcome (m : Model) (u : Assigned) : m.Balanced u (m.outcome u) where
  constants q a hq := by
    rw [outcome_eq_deepen, deepen, hq]
  rule q a hq hconstant := by
    rw [outcome_eq_infer (constant?_eq_none hconstant)] at hq
    cases hinfer : m.infer u true (m.outcome u) q with
    | error e =>
      rw [hinfer] at hq
      cases hq
    | ok r =>
      rw [hinfer] at hq
      cases hq
      exact ⟨r.2, rfl⟩

theorem outcome_of_infer (hq : asksConstant q = false) {r : q.Answer × Option Bool}
    (h : m.infer u true (m.outcome u) q = .ok r) : m.outcome u q = .ok r.1 := by
  rw [outcome_eq_infer (constant?_eq_none hq), h]
  rfl

theorem Balanced.no (h : m.Balanced u t) : t (.tristate SymbolId.no) = .ok .no :=
  h.constants (.tristate SymbolId.no) .no rfl

/-! ## Conditions under a choice -/

section Under

variable {warns : Bool} {c : ChoiceId} {s s' : Option Bool} {x y : Tristate} {e : Expr}

theorem value_le_of_conjunct (hmode : t (.mode c) = .ok y) (he : .item (.choice c) ∈ e.conjuncts)
    (h : (plain m u warns t).value e s = .ok (x, s')) : x ≤ y := by
  induction e generalizing s s' x with
  | item i =>
    cases mem_singleton.1 he
    obtain ⟨hx, -⟩ := plain_ask_eq_ok.1 h
    cases hx.symm.trans hmode
    exact Nat.le_refl _
  | and a b ha hb =>
    obtain ⟨z, s₁, hz, hrest⟩ := bind_ok_iff.1 h
    split at hrest
    · cases hrest
      exact Nat.zero_le _
    · obtain ⟨z', s₂, hz', hlast⟩ := bind_ok_iff.1 hrest
      cases hlast
      have hle : z ≤ y ∨ z' ≤ y :=
        (mem_append.1 he).imp (fun he => ha he hz) fun he => hb he hz'
      revert hle
      cases z <;> cases z' <;> cases y <;> decide
  | _ => cases mem_singleton.1 he

theorem value_le_of_under (ht : m.Balanced u t) (hmode : t (.mode c) = .ok y) (he : e.Under c)
    (h : (plain m u warns t).value e s = .ok (x, s')) : x ≤ y := by
  rcases he with rfl | he
  · obtain ⟨hx, -⟩ := plain_ask_eq_ok.1 h
    cases hx.symm.trans ht.no
    exact Nat.zero_le _
  · exact value_le_of_conjunct hmode he h

theorem promptValue_le_of_under
    (ht : m.Balanced u t) (hmode : t (.mode c) = .ok y) {ks : List EntryId}
    (hks : ∀ k ∈ ks, ∀ p, (m.entry k).prompt = some p → p.2.Under c) {acc : Tristate}
    (hacc : acc ≤ y) (h : (plain m u warns t).promptValue ks acc s = .ok (x, s')) : x ≤ y := by
  induction ks generalizing s acc with
  | nil =>
    cases h
    exact hacc
  | cons k ks ih =>
    have hrest := fun l hl => hks l (mem_cons_of_mem k hl)
    simp only [promptValue, plain_model] at h
    cases hp : (m.entry k).prompt with
    | none =>
      rw [hp] at h
      exact ih hrest hacc h
    | some p =>
      rw [hp] at h
      obtain ⟨z, s₁, hz, hlast⟩ := bind_ok_iff.1 h
      have hle := value_le_of_under ht hmode (hks k mem_cons_self p hp) hz
      refine ih hrest ?_ hlast
      revert hacc hle
      cases acc <;> cases z <;> cases y <;> decide

end Under

/-! ## Visibilities -/

variable {i : SymbolId} {c : ChoiceId} {vis : Tristate}

theorem Balanced.visibility_of_off (ht : m.Balanced u t) (hmode : t (.mode c) = .ok .no)
    (hprompts : ∀ k ∈ (m.symbol i).entries, ∀ p, (m.entry k).prompt = some p → p.2.Under c)
    (hvis : t (.visibility i) = .ok vis) : vis = .no := by
  obtain ⟨w, hinfer⟩ := ht.rule _ _ hvis rfl
  obtain ⟨x, s, hx, -⟩ := visibility_cases hinfer
  have hle := promptValue_le_of_under ht hmode hprompts (Nat.zero_le _) hx
  obtain rfl : x = .no := by cases x <;> first | rfl | cases hle
  exact visibility_eq_no hinfer hx

theorem Balanced.visibility_of_on (ht : m.Balanced u t) (hmode : t (.mode c) = .ok .yes)
    (hc : (m.symbol i).choice = some c) (hlogical : (m.symbol i).kind.isLogical)
    (hvis : t (.visibility i) = .ok vis) : vis = .no ∨ vis = .yes := by
  obtain ⟨w, hinfer⟩ := ht.rule _ _ hvis rfl
  obtain ⟨x, s, -, hno | ⟨s', hrest⟩⟩ := visibility_cases hinfer
  · exact .inl hno
  · have hkind : ∀ {k s s'}, (plain m u true t).kind i s = .ok (k, s') → k = .bool := by
      intro k s s' hk
      simp only [kind, plain_model, hc] at hk
      split at hk
      · obtain ⟨mode, hentry, hk⟩ := ask_bind_eq_ok.1 hk
        cases hentry.symm.trans hmode
        cases hk
        rfl
      · cases hk
        cases hs : (m.symbol i).kind <;> simp_all [Kind.isLogical]
    by_cases hx : x = .mod
    · subst hx
      obtain ⟨k, s₁, hk, hrest⟩ := bind_ok_iff.1 hrest
      cases hkind hk
      cases hrest
      exact .inr rfl
    · simp only [widened, if_neg hx] at hrest
      cases hrest
      cases vis <;> simp_all

/-! ## Selections -/

section Selection

variable {warns : Bool} {s s' : Option Bool} {a : Option SymbolId}

theorem firstVisible_spec {is : List SymbolId}
    (h : (plain m u warns t).firstVisible is s = .ok (a, s')) :
    (∀ i, a = some i → i ∈ is ∧ ∃ vis, t (.visibility i) = .ok vis ∧ vis ≠ .no) ∧
      (a = none → ∀ i ∈ is, t (.visibility i) = .ok .no) := by
  induction is generalizing s with
  | nil =>
    cases h
    exact ⟨nofun, fun _ => nofun⟩
  | cons j js ih =>
    obtain ⟨vis, hvis, hrest⟩ := ask_bind_eq_ok.1 h
    split at hrest
    · cases hrest
      refine ⟨fun i hi => ?_, nofun⟩
      cases hi
      exact ⟨mem_cons_self, vis, hvis, ‹_›⟩
    · obtain ⟨hsome, hnone⟩ := ih hrest
      refine ⟨fun i hi => ?_, fun ha => ?_⟩
      · exact ⟨mem_cons_of_mem _ (hsome i hi).1, (hsome i hi).2⟩
      · have hno : vis = .no := by simpa using ‹¬vis ≠ .no›
        exact forall_mem_cons.2 ⟨hno ▸ hvis, hnone ha⟩

theorem visibleDefault_spec {ds : List (Expr × Expr)}
    (h : (plain m u warns t).visibleDefault ds s = .ok (a, s')) :
    ∀ i, a = some i → (∃ d ∈ ds, d.1 = .item (.symbol i)) ∧
      ∃ vis, t (.visibility i) = .ok vis ∧ vis ≠ .no := by
  induction ds generalizing s with
  | nil =>
    cases h
    exact nofun
  | cons d ds ih =>
    have hlater : ∀ {s}, (plain m u warns t).visibleDefault ds s = .ok (a, s') →
        ∀ i, a = some i → (∃ e ∈ d :: ds, e.1 = .item (.symbol i)) ∧
          ∃ vis, t (.visibility i) = .ok vis ∧ vis ≠ .no := by
      intro s h i hi
      obtain ⟨⟨e, he, hvalue⟩, hvis⟩ := ih h i hi
      exact ⟨⟨e, mem_cons_of_mem _ he, hvalue⟩, hvis⟩
    obtain ⟨value, cond⟩ := d
    obtain ⟨x, s₁, -, hrest⟩ := bind_ok_iff.1 h
    split at hrest
    · split at hrest
      · rename_i j
        obtain ⟨vis, hvis, hrest⟩ := ask_bind_eq_ok.1 hrest
        split at hrest
        · cases hrest
          intro i hi
          cases hi
          exact ⟨⟨_, mem_cons_self, rfl⟩, vis, hvis, ‹_›⟩
        · exact hlater hrest
      · cases hrest
    · exact hlater hrest

theorem selection_cases {r : Option SymbolId × Option Bool} (hmode : t (.mode c) = .ok .yes)
    (h : m.infer u true t (.selection c) = .ok r) :
    (∃ j, u.selection c = some j ∧ r = (some j, none) ∧
      ∃ vis, t (.visibility j) = .ok vis ∧ vis ≠ .no) ∨
    (plain m u true t).defaultSelection c none = .ok r := by
  rw [infer_selection_of_on hmode] at h
  cases hselection : u.selection c with
  | none =>
    rw [hselection] at h
    exact .inr h
  | some j =>
    rw [hselection] at h
    obtain ⟨vis, hvis, hrest⟩ := ask_bind_eq_ok.1 h
    split at hrest
    · cases hrest
      exact .inl ⟨j, rfl, rfl, vis, hvis, ‹_›⟩
    · exact .inr hrest

theorem infer_selection_of_user (hmode : t (.mode c) = .ok .yes) {j : SymbolId}
    (hj : u.selection c = some j) (hvis : t (.visibility j) = .ok vis) (hne : vis ≠ .no) :
    m.infer u true t (.selection c) = .ok (some j, none) := by
  rw [infer_selection_of_on hmode, hj]
  refine (ask_bind_of_ok hvis _).trans ?_
  rw [if_pos hne]
  rfl

end Selection

variable {a : Option SymbolId}

/-- Where the defaults of a choice and what users select are symbols of it, the selection of a choice
that is set to `y` is a visible one of its symbols, and there is one unless all are invisible. -/
theorem Balanced.selection_of_on (ht : m.Balanced u t) (hmode : t (.mode c) = .ok .yes)
    (husers : ∀ i, u.selection c = some i → i ∈ (m.choice c).symbols)
    (hdefaults : ∀ d ∈ (m.choice c).defaults, ∀ i, d.1 = .item (.symbol i) →
      i ∈ (m.choice c).symbols) (ha : t (.selection c) = .ok a) :
    (∀ i, a = some i → i ∈ (m.choice c).symbols ∧ ∃ vis, t (.visibility i) = .ok vis ∧ vis ≠ .no) ∧
    (a = none → ∀ i ∈ (m.choice c).symbols, t (.visibility i) = .ok .no) := by
  obtain ⟨w, hinfer⟩ := ht.rule _ _ ha rfl
  obtain ⟨j, hj, hpair, hvisible⟩ | hdefault := selection_cases hmode hinfer
  · cases hpair
    refine ⟨fun i hi => ?_, nofun⟩
    cases hi
    exact ⟨husers j hj, hvisible⟩
  · obtain ⟨d, s₁, hd, hrest⟩ := bind_ok_iff.1 hdefault
    cases d with
    | none => exact firstVisible_spec hrest
    | some j =>
      cases hrest
      obtain ⟨⟨d, hd, hvalue⟩, hvis⟩ := visibleDefault_spec hd j rfl
      refine ⟨fun i hi => ?_, nofun⟩
      cases hi
      exact ⟨hdefaults d hd _ hvalue, hvis⟩

theorem Balanced.selection_of_not_on
    (ht : m.Balanced u t) {mode : Tristate} (hmode : t (.mode c) = .ok mode) (hon : mode ≠ .yes)
    (ha : t (.selection c) = .ok a) : a = none := by
  obtain ⟨w, hinfer⟩ := ht.rule _ _ ha rfl
  cases (infer_selection_of_not_on hmode hon).symm.trans hinfer
  rfl

/-! ## Values -/

theorem Balanced.tristate_of_member
    (ht : m.Balanced u t) (hi : SymbolId.yes < i) (hc : (m.symbol i).choice = some c)
    (hlogical : (m.symbol i).kind.isLogical) (hvis : t (.visibility i) = .ok vis)
    (ha : t (.selection c) = .ok a) {x : Tristate} (hx : t (.tristate i) = .ok x) :
    (vis = .no → x = .no) ∧ (vis = .mod → x ≠ .yes) ∧
      (vis = .yes → x = if a = some i then .yes else .no) := by
  obtain ⟨w, hinfer⟩ := ht.rule _ _ hx (by simpa [asksConstant] using hi)
  rw [infer_tristate_eq hlogical hvis, hc] at hinfer
  cases vis with
  | no =>
    cases hinfer
    exact ⟨fun _ => rfl, by simp, by simp⟩
  | mod =>
    obtain ⟨user, s₂, huser, hrest⟩ := bind_ok_iff.1 hinfer
    refine ⟨by simp, fun _ => ?_, by simp⟩
    split at hrest
    · split at hrest <;> cases hrest <;> simp
    · cases hrest
      simp
  | yes =>
    obtain ⟨b, hb, hrest⟩ := ask_bind_eq_ok.1 hinfer
    cases hb.symm.trans ha
    refine ⟨by simp, by simp, fun _ => ?_⟩
    split at hrest <;> cases hrest <;> simp [*]

/-- A choice over a table that balances and answers every query.  The symbols of the choice are its
own, with prompts under it, and only they can be selected. -/
structure Chooses (m : Model) (u : Assigned) (t : Table) (c : ChoiceId) : Prop
    extends m.Balanced u t where
  answers : ∀ q, ∃ a, t q = .ok a
  symbols : ∀ i ∈ (m.choice c).symbols,
    SymbolId.yes < i ∧ (m.symbol i).kind.isLogical = true ∧ (m.symbol i).choice = some c
  prompts : ∀ i ∈ (m.choice c).symbols, ∀ k ∈ (m.symbol i).entries, ∀ p,
    (m.entry k).prompt = some p → p.2.Under c
  users : ∀ i, u.selection c = some i → i ∈ (m.choice c).symbols
  defaults : ∀ d ∈ (m.choice c).defaults, ∀ i, d.1 = .item (.symbol i) → i ∈ (m.choice c).symbols

namespace Chooses

variable {a : Option SymbolId}

theorem exists_value
    (h : m.Chooses u t c) (hi : i ∈ (m.choice c).symbols) (ha : t (.selection c) = .ok a) :
    ∃ vis x, t (.visibility i) = .ok vis ∧ t (.tristate i) = .ok x ∧ (vis = .no → x = .no) ∧
      (vis = .mod → x ≠ .yes) ∧ (vis = .yes → x = if a = some i then .yes else .no) := by
  obtain ⟨hlt, hlogical, hc⟩ := h.symbols i hi
  obtain ⟨vis, hvis⟩ := h.answers (.visibility i)
  obtain ⟨x, hx⟩ := h.answers (.tristate i)
  exact ⟨vis, x, hvis, hx, h.tristate_of_member hlt hc hlogical hvis ha hx⟩

theorem tristate_of_on
    (h : m.Chooses u t c) (hmode : t (.mode c) = .ok .yes) (ha : t (.selection c) = .ok a)
    (hi : i ∈ (m.choice c).symbols) : t (.tristate i) = .ok (if a = some i then .yes else .no) := by
  obtain ⟨-, hlogical, hc⟩ := h.symbols i hi
  obtain ⟨vis, x, hvis, hx, hno, -, hyes⟩ := h.exists_value hi ha
  rcases h.visibility_of_on hmode hc hlogical hvis with rfl | rfl
  · -- an invisible symbol is not selected
    have hne : a ≠ some i := by
      intro hai
      obtain ⟨-, vis, hvis', hvisible⟩ := (h.selection_of_on hmode h.users h.defaults ha).1 i hai
      cases hvis.symm.trans hvis'
      exact hvisible rfl
    rw [hx, hno rfl, if_neg hne]
  · rw [hx, hyes rfl]

theorem tristate_of_mod (h : m.Chooses u t c) (hmode : t (.mode c) = .ok .mod)
    (hi : i ∈ (m.choice c).symbols) : ∃ x, t (.tristate i) = .ok x ∧ x ≠ .yes := by
  obtain ⟨a, ha⟩ := h.answers (.selection c)
  have hnone : a = none := h.selection_of_not_on hmode nofun ha
  obtain ⟨vis, x, -, hx, hno, hmod, hyes⟩ := h.exists_value hi ha
  refine ⟨x, hx, ?_⟩
  cases vis with
  | no => exact hno rfl ▸ nofun
  | mod => exact hmod rfl
  | yes =>
    rw [hyes rfl, hnone]
    exact nofun

theorem tristate_of_off (h : m.Chooses u t c) (hmode : t (.mode c) = .ok .no)
    (hi : i ∈ (m.choice c).symbols) : t (.tristate i) = .ok .no := by
  obtain ⟨a, ha⟩ := h.answers (.selection c)
  obtain ⟨vis, x, hvis, hx, hno, -⟩ := h.exists_value hi ha
  have hhidden := h.visibility_of_off hmode (h.prompts i hi) hvis
  rw [hx, hno hhidden]

end Chooses

end Model

/-!
## Assignments that agree

The selection of a choice matters only if the choice has mode `y`.
-/

namespace Model

variable {m : Model} {u u' : Assigned} {t t' : Table} {q : Query}

theorem linked_warning (u u' : Assigned) (htt : ∀ q a, t q = .ok a → t' q = .ok a) :
    Linked Link.gives m (fun _ => True) (u.AgreesAt u' ·) (fun _ => True) True
      (.plain m u true t) (.plain m u' true t') :=
  linked_plain (fun _ => ⟨rfl, trivial⟩) (fun q _ => htt q) (fun _ h => h) fun _ _ _ _ => trivial

theorem infer_of_agrees (htt : ∀ q a, t q = .ok a → t' q = .ok a) (hu : u.AgreesAt u' q.item)
    {r : q.Answer × Option Bool} (h : m.infer u true t q = .ok r) : m.infer u' true t' q = .ok r :=
  (linked_warning _ _ htt).answer (fun _ _ => trivial) hu (fun _ _ => trivial) (fun _ _ _ => trivial)
    none r h

theorem infer_of_same_mode (htt : ∀ q a, t q = .ok a → t' q = .ok a) {c : ChoiceId}
    (hitem : q.item = .choice c) (hmode : u.mode c = u'.mode c)
    (hon : q = .selection c → t (.mode c) ≠ .ok .yes) {r : q.Answer × Option Bool}
    (h : m.infer u true t q = .ok r) : m.infer u' true t' q = .ok r := by
  have hlinked := linked_warning (m := m) u u' htt
  cases q with
  | mode d =>
    cases hitem
    -- with the old selection the same is assigned, and the rule does not read selections
    have hagrees : u.AgreesAt { u' with selection := u.selection } (.choice c) := ⟨hmode, rfl⟩
    have hinfer := infer_of_agrees (q := .mode c) htt hagrees h
    exact hinfer
  | choiceVisibility d => exact hlinked.freshChoiceVisibility (fun _ _ => trivial) none r h
  | choiceAssignable d => exact hlinked.freshChoiceAssignable (fun _ _ => trivial) none r h
  | selection d =>
    cases hitem
    obtain ⟨mode, hask, -⟩ := ask_bind_eq_ok.1 h
    have hne : mode ≠ .yes := fun hyes => hon rfl (hyes ▸ hask)
    cases (infer_selection_of_not_on hask hne).symm.trans h
    exact infer_selection_of_not_on (htt _ _ hask) hne
  | _ => cases hitem

theorem isSome_fixed?_of_bare (h : m.Bare q.item) : (m.fixed? q).isSome := by
  cases hitem : q.item with
  | symbol i =>
    rw [hitem] at h
    obtain ⟨hentries, hchoice, hkind⟩ := h
    have htristate : (m.fixedTristate? i).isSome := by
      obtain hunknown | ⟨hle, -⟩ := hkind
      · grind [fixedTristate?, Kind.isLogical]
      · exact isSome_fixedTristate? hle
    cases q <;> cases hitem <;> grind [fixed?, shows]
  | choice c =>
    rw [hitem] at h
    have hentries : (m.choice c).entries = [] := h
    cases q <;> cases hitem <;> simp [fixed?, hentries, shows]

theorem outcome_of_bare (hbare : m.Bare q.item) {n : Nat} {a : q.Answer}
    (h : m.outcomeWithin u n q = .ok a) : m.outcome u' q = .ok a := by
  obtain ⟨f, hf⟩ := Option.isSome_iff_exists.1 (isSome_fixed?_of_bare hbare)
  have hfound : ∃ n ≤ 3, ∃ b, m.outcomeWithin u' n q = .ok b := by
    cases hitem : q.item with
    | symbol i => exact exists_outcome_of_bare_symbol hitem (hitem ▸ hbare)
    | choice c => exact exists_outcome_of_bare_choice hitem (hitem ▸ hbare)
  obtain ⟨k, -, b, hb⟩ := hfound
  obtain ⟨w, hw⟩ := means_of_outcome h
  obtain ⟨w', hw'⟩ := means_of_outcome hb
  have hab : b = a := by
    have hpair := (hw'.eq_fixed hf).symm.trans (hw.eq_fixed hf)
    exact (Prod.mk.inj hpair).1
  rw [outcome_of_decided (by rw [hb]; exact decided_ok b), hb, hab]

/-- Whether two assignments agree on an item as far as evaluation can tell. -/
def AgreesEnough (m : Model) (u u' : Assigned) (x : Item) : Prop :=
  m.Bare x ∨ u.AgreesAt u' x ∨
    ∃ c, x = .choice c ∧ u.mode c = u'.mode c ∧ m.outcome u (.mode c) ≠ .ok .yes

/-- Assignments that agree as far as evaluation can tell give the same outcomes. -/
theorem outcome_of_agrees (hu : ∀ x, m.AgreesEnough u u' x) {a : q.Answer}
    (h : m.outcome u q = .ok a) : m.outcome u' q = .ok a := by
  refine outcomeWithin_induction (P := fun q a => m.outcome u' q = .ok a)
    (balanced_outcome m u').constants (fun n q r hq ih hinfer hfound => ?_) _ q a h
  obtain hbare | hagrees | ⟨c, hitem, hmode, hon⟩ := hu q.item
  · exact outcome_of_bare hbare hfound
  · exact outcome_of_infer hq (infer_of_agrees ih hagrees hinfer)
  · refine outcome_of_infer hq (infer_of_same_mode ih hitem hmode (fun _ hyes => hon ?_) hinfer)
    rw [outcome_of_decided (by rw [hyes]; exact decided_ok _), hyes]

end Model

end Buildsmith.Kconfig
