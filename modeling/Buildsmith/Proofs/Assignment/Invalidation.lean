import Buildsmith.Proofs.Evaluation.Scratch

/-!
# Invalidation

Invalidating an item forgets it, and with each item that is forgotten all the known items that
depend on it.  So an item that is still known afterwards depends on nothing that has been forgotten
(`Invalidated.closed`).

The search stops at items that are not known.  This is sound since an item that is known was
computed from known items.
-/

namespace Buildsmith.Kconfig

open Model List

/-!
## Keeping a part of the memory

When the values that are assigned change, a part of what is remembered may be kept.  The rest of a
coherent state is coherent again if, with each item that stays known, all the items stay known that
its rules may ask about, and if the rules of these items give under the new assignment what they
gave under the old one.
-/

/-- The second state remembers a part of what the first one remembers, item by item. -/
structure Keeps (v v' : Values) : Prop where
  symbols_size : v'.symbols.size = v.symbols.size
  choices_size : v'.choices.size = v.choices.size
  written : ∀ x, v'.written x = v.written x
  constants : ∀ q, asksConstant q → v'.recalled? q = v.recalled? q
  /-- All that is remembered of an item is kept, or nothing is. -/
  all_or_nothing : ∀ x, (∀ q : Query, q.item = x → v'.recalled? q = v.recalled? q) ∨
    ∀ q : Query, q.item = x → asksConstant q = false → v'.recalled? q = none

namespace Keeps

variable {v v' v'' : Values}

theorem refl (v : Values) : Keeps v v :=
  ⟨rfl, rfl, fun _ => rfl, fun _ _ => rfl, fun _ => .inl fun _ _ => rfl⟩

theorem trans (h : Keeps v v') (h' : Keeps v' v'') : Keeps v v'' where
  symbols_size := h'.symbols_size.trans h.symbols_size
  choices_size := h'.choices_size.trans h.choices_size
  written x := (h'.written x).trans (h.written x)
  constants q hq := (h'.constants q hq).trans (h.constants q hq)
  all_or_nothing x := by
    rcases h'.all_or_nothing x with hall' | hnone'
    · rcases h.all_or_nothing x with hall | hnone
      · exact .inl fun q hq => (hall' q hq).trans (hall q hq)
      · exact .inr fun q hq hc => (hall' q hq).trans (hnone q hq hc)
    · exact .inr hnone'

theorem recalled?_eq (h : Keeps v v') {q : Query} {a : q.Answer} (hq : v'.recalled? q = some a) :
    v.recalled? q = some a := by
  cases hc : asksConstant q with
  | true => rwa [h.constants q hc] at hq
  | false =>
    rcases h.all_or_nothing q.item with hall | hnone
    · rwa [hall q rfl] at hq
    · cases (hnone q rfl hc).symm.trans hq

theorem item_visibility_item (x : Item) : x.visibility.item = x := by
  cases x <;> rfl

theorem known_of_recall (h : Keeps v v') {q : Query} (hc : asksConstant q = false)
    {a : q.Answer} (hq : v'.recalled? q = some a) (hknown : v.Known q.item) : v'.Known q.item := by
  rcases h.all_or_nothing q.item with hall | hnone
  · rw [Values.Known, Values.isKnown_eq_recalled?] at hknown ⊢
    rwa [hall _ (item_visibility_item _)]
  · cases (hnone q rfl hc).symm.trans hq

theorem known_of_known (h : Keeps v v') {x : Item} (hx : v'.Known x) : v.Known x := by
  rw [Values.Known, Values.isKnown_eq_recalled?] at hx ⊢
  obtain ⟨a, ha⟩ := Option.isSome_iff_exists.1 hx
  rw [h.recalled?_eq ha]
  rfl

end Keeps

/-! ## Free queries -/

namespace Model

variable {m : Model}

/-- Whether a query may be asked whatever is known. -/
def Free (m : Model) (q : Query) : Prop := ¬m.Has q.item ∨ m.asksNothing q

theorem Free.open {q : Query} (h : m.Free q) (K : Item → Prop) : m.Open K q := .inr h

theorem isSome_fixed?_of_not_has {q : Query} (h : ¬m.Has q.item) : (m.fixed? q).isSome := by
  cases hitem : q.item with
  | symbol i =>
    rw [hitem] at h
    have hi := symbol_of_not_has h
    cases q <;> cases hitem <;> grind [fixed?, fixedTristate?, shows, Kind.isLogical]
  | choice c =>
    rw [hitem] at h
    have hc := choice_of_not_has h
    cases q <;> cases hitem <;> simp [fixed?, hc, shows]

theorem isSome_fixedTristate? {i : SymbolId} (hi : i ≤ SymbolId.yes) :
    (m.fixedTristate? i).isSome := by
  obtain ⟨a, ha⟩ := Option.isSome_iff_exists.1
    (isSome_constant? (m := m) (q := .tristate i) (decide_eq_true hi))
  obtain ⟨w, hw⟩ := constant?_eq_some ha
  exact Option.isSome_iff_exists.2 ⟨(a, w), hw⟩

theorem Free.isSome_fixed? {q : Query} (h : m.Free q) : (m.fixed? q).isSome := by
  rcases h with hhas | hnothing
  · exact isSome_fixed?_of_not_has hhas
  · cases q with
    | tristate i =>
      simp only [asksNothing, Bool.or_eq_true, decide_eq_true_eq] at hnothing
      rcases hnothing with hi | hl
      · exact isSome_fixedTristate? hi
      · grind [fixed?, fixedTristate?]
    | text i =>
      simp only [asksNothing, Bool.or_eq_true, Bool.and_eq_true, decide_eq_true_eq] at hnothing
      rcases hnothing with hk | ⟨hl, hi⟩
      · simp [fixed?, hk, Kind.isLogical]
      · simpa [fixed?, hl] using isSome_fixedTristate? hi
    | assignable i =>
      simp only [asksNothing, Bool.not_eq_true'] at hnothing
      simp [fixed?, hnothing]
    | _ => cases hnothing

theorem Open.known
    {K : Item → Prop} {q : Query} (h : m.Open K q) (hf : m.fixed? q = none) : K q.item := by
  rcases h with hK | hfree
  · exact hK
  · have hsome := Free.isSome_fixed? hfree
    simp [hf] at hsome

end Model

/-! ## Coherence of what is kept -/

variable {m : Model} {u u' : Assigned} {v v' : Values}

/-- What is needed for the kept part of a coherent state to be coherent again. -/
structure Sustained (m : Model) (u u' : Assigned) (v v' : Values) : Prop where
  /-- With an item that stays known, the items stay known that its rules may ask about. -/
  asked : ∀ q p, m.fixed? q = none → v'.Known q.item → p ∈ m.mayAsk q → v.Known p.item →
    m.Open v'.Known p
  /-- With a choice that stays known, its user's selection stays known. -/
  selected : ∀ c i, v'.Known (.choice c) → u.selection c = some i → v.Known (.symbol i) →
    m.Open v'.Known (.visibility i)
  /-- The rules of items that stay known give what they gave before. -/
  unchanged : ∀ q t r, m.fixed? q = none → v'.Known q.item → m.Respects t →
    m.infer u false t q = .ok r → m.infer u' false t q = .ok r

open Classical in
theorem Sustained.means (h : Sustained m u u' v v') {q : Query} {a : q.Answer} {w : Option Bool}
    (hmeans : m.Means u v.Known q a w) (hopen : m.Open v'.Known q) : m.Means u' v'.Known q a w := by
  induction hmeans with
  | fixed hf => exact .fixed hf
  | @rule q a w t ws hf hopen' hmeans' hinfer ih =>
    have hq : v'.Known q.item := hopen.known hf
    -- the table without the entries that are not kept
    let t' : Table := fun p => if m.Open v'.Known p then t p else .error .unbounded
    have ht' : ∀ p b, t' p = .ok b → m.Open v'.Known p ∧ t p = .ok b := by
      intro p b hp
      by_cases hp' : m.Open v'.Known p
      · exact ⟨hp', by simpa only [t', if_pos hp'] using hp⟩
      · simp only [t', if_neg hp'] at hp
        cases hp
    have hkept : ∀ p b, t p = .ok b → (v.Known p.item → m.Open v'.Known p) → t' p = .ok b := by
      intro p b hp hknown
      have hp' : m.Open v'.Known p := (hopen' p b hp).elim hknown .inr
      simp only [t', if_pos hp', hp]
    have hrespects : m.Respects t' := by
      intro p b hp f hf
      rw [(hmeans' p b (ht' p b hp).2).eq_fixed hf]
    have hinfer' : m.infer u false t' q = .ok (a, w) := by
      refine infer_mono (fun p hp b hb => ?_) (fun c hc i hi b hb => ?_) (.refl u _) hinfer
      · exact hkept p b hb (h.asked q p hf hq hp)
      · exact hkept _ b hb (h.selected c i (hc ▸ hq) hi)
    refine .rule t' ws hf (fun p b hp => (ht' p b hp).1) (fun p b hp => ?_)
      (h.unchanged q t' _ hf hq hrespects hinfer')
    exact ih p b (ht' p b hp).2 (ht' p b hp).1

theorem Coherent.keep (h : Coherent m u v) (hk : Keeps v v') (hs : Sustained m u u' v v')
    (hu' : v'.assigned = u') : Coherent m u' v' := by
  have hopen : ∀ q a, v'.recalled? q = some a → m.Open v'.Known q := by
    intro q a hq
    cases hc : asksConstant q with
    | true =>
      cases q with
      | tristate i => exact .inr (.inr (by simp_all [asksConstant, asksNothing]))
      | _ => cases hc
    | false =>
      exact (h.isOpen q a (hk.recalled?_eq hq)).elim
        (fun hknown => .inl (hk.known_of_recall hc hq hknown)) .inr
  refine ⟨hu', ?_, ?_, ?_, hopen, ?_, ?_, ?_⟩
  · rw [hk.symbols_size, h.symbols_size]
  · rw [hk.choices_size, h.choices_size]
  · intro q hq
    rw [hk.constants q hq]
    exact h.constants q hq
  · intro q a hq
    obtain ⟨w, hw, hwritten⟩ := h.means q a (hk.recalled?_eq hq)
    refine ⟨w, hs.means hw (hopen q a hq), fun b hb => ?_⟩
    rw [hk.written, hwritten b hb]
  · intro i hi htext
    obtain ⟨b, hb⟩ := Option.isSome_iff_exists.1 htext
    have hold := h.paired i hi (by simp [hk.recalled?_eq hb])
    rcases hk.all_or_nothing (.symbol i) with hall | hnone
    · rwa [hall (.tristate i) rfl]
    · cases (hnone (.text i) rfl rfl).symm.trans hb
  · exact fun i hi => (hk.written (.symbol i)).trans (h.unwritten i hi)

/-! ## Forgotten items -/

open SymbolId (modules yes)

namespace Model

/-- Whether an item has a definition. -/
def Defines (m : Model) : Item → Prop
  | .symbol i => i ∈ m.uniqueDefined
  | .choice c => c ∈ m.uniqueChoices

def items (m : Model) : Finset Item :=
  ((range m.symbols.size).map Item.symbol ++
    (range m.choices.size).map Item.choice).toFinset

theorem mem_items {m : Model} {x : Item} : x ∈ m.items ↔ m.Has x := by
  cases x <;> simp [items, Has]

theorem card_items_le (m : Model) : m.items.card ≤ m.symbols.size + m.choices.size := by
  refine (toFinset_card_le _).trans ?_
  simp

/-- Whether a change of the first item invalidates the second one. -/
def Feeds (m : Model) (x y : Item) : Prop :=
  x = .symbol modules ∨ y ∈ m.dependentsOf x

/-- Whether dependents are recorded for defined items only, and these are in the tables. -/
structure Tidy (m : Model) : Prop where
  has : ∀ x, m.Defines x → m.Has x
  notConstant : ∀ i, m.Defines (.symbol i) → yes < i
  dependents : ∀ x, ∀ d ∈ m.dependentsOf x, m.Defines d

end Model

namespace Values

variable {v : Values} {x y : Item} {q : Query}

/-! ## Forgetting one item -/

theorem recalled?_forget_self (hq : q.item = x) : (v.forget x).recalled? q = none := by
  cases q <;> cases x <;> cases hq <;>
    simp only [forget, recalled?, symbol_modifySymbol, choice_modifyChoice] <;>
    grind [Values.symbol, Values.choice]

theorem recalled?_forget_ne (hq : q.item ≠ x) : (v.forget x).recalled? q = v.recalled? q := by
  cases q <;> cases x <;>
    simp_all [forget, recalled?, symbol_modifySymbol, choice_modifyChoice, Query.item] <;>
    grind

@[simp]
theorem assigned_forget : (v.forget x).assigned = v.assigned := by
  cases x <;>
    simp [forget, assigned, symbol_modifySymbol, choice_modifyChoice, apply_ite SymbolState.user,
      apply_ite ChoiceState.user, apply_ite ChoiceState.userSelection]

theorem written_forget (y : Item) : (v.forget x).written y = v.written y := by
  cases x <;> cases y <;>
    simp [forget, written, symbol_modifySymbol, apply_ite SymbolState.isWritten]

theorem keeps_forget (hx : ∀ i, x = .symbol i → yes < i) : Keeps v (v.forget x) where
  symbols_size := by cases x <;> simp [forget, modifySymbol, modifyChoice]
  choices_size := by cases x <;> simp [forget, modifySymbol, modifyChoice]
  written := written_forget
  constants q hq := by
    refine recalled?_forget_ne fun hitem => ?_
    cases q with
    | tristate i =>
      have hi : i ≤ yes := of_decide_eq_true hq
      exact absurd (hx i hitem.symm) (Nat.not_lt_of_le hi)
    | _ => cases hq
  all_or_nothing y := by
    by_cases hxy : y = x
    · exact .inr fun q hq _ => recalled?_forget_self (hq.trans hxy)
    · exact .inl fun q hq => recalled?_forget_ne (hq ▸ hxy)

theorem not_known_forget (x : Item) : ¬(v.forget x).Known x := by
  rw [Known, isKnown_eq_recalled?, recalled?_forget_self (Keeps.item_visibility_item x)]
  simp

theorem known_forget (hxy : y ≠ x) : (v.forget x).Known y ↔ v.Known y := by
  rw [Known, isKnown_eq_recalled?, recalled?_forget_ne (by rwa [Keeps.item_visibility_item]), Known,
    isKnown_eq_recalled?]

/-! ## Forgetting many items -/

theorem foldl_forget {xs : List Item} (hxs : ∀ i, .symbol i ∈ xs → yes < i) (v : Values) :
    Keeps v (xs.foldl forget v) ∧ (xs.foldl forget v).assigned = v.assigned ∧
      ∀ x ∈ xs, ¬(xs.foldl forget v).Known x := by
  induction xs generalizing v with
  | nil => exact ⟨.refl v, rfl, by simp⟩
  | cons x xs ih =>
    obtain ⟨hkeeps, hassigned, hgone⟩ := ih (fun i hi => hxs i (.tail _ hi)) (v.forget x)
    have hfirst : Keeps v (v.forget x) := keeps_forget fun i hi => hxs i (hi ▸ .head _)
    refine ⟨hfirst.trans hkeeps, hassigned.trans assigned_forget, fun y hy => ?_⟩
    rcases mem_cons.1 hy with rfl | hy
    · exact fun hknown => not_known_forget y (hkeeps.known_of_known hknown)
    · exact hgone y hy

variable {m : Model}

theorem forgetAll_eq (m : Model) (v : Values) :
    v.forgetAll m = (m.uniqueDefined.map Item.symbol ++ m.uniqueChoices.map Item.choice).foldl
      forget v := by
  simp [forgetAll, foldl_map]

theorem forgetAll_spec (hm : m.Tidy) (v : Values) :
    Keeps v (v.forgetAll m) ∧ (v.forgetAll m).assigned = v.assigned ∧
      ∀ x, m.Defines x → ¬(v.forgetAll m).Known x := by
  rw [forgetAll_eq]
  have hxs : ∀ i, .symbol i ∈ m.uniqueDefined.map Item.symbol ++ m.uniqueChoices.map Item.choice →
      yes < i :=
    fun i hi => hm.notConstant i (by simpa [Model.Defines] using hi)
  obtain ⟨hkeeps, hassigned, hgone⟩ := foldl_forget hxs v
  refine ⟨hkeeps, hassigned, fun x hx => hgone x ?_⟩
  cases x <;> simpa [Model.Defines] using hx

/-! ## The search along dependents -/

def knownItems (m : Model) (v : Values) : Finset Item := m.items.filter (v.isKnown ·)

theorem mem_knownItems : x ∈ knownItems m v ↔ m.Has x ∧ v.Known x := by
  rw [knownItems, Finset.mem_filter, mem_items]

theorem card_knownItems_le (m : Model) (v : Values) :
    (knownItems m v).card ≤ m.symbols.size + m.choices.size :=
  (Finset.card_le_card (Finset.filter_subset _ _)).trans m.card_items_le

theorem card_knownItems_of_keeps {v' : Values} (h : Keeps v v') :
    (knownItems m v').card ≤ (knownItems m v).card := by
  refine Finset.card_le_card fun x hx => ?_
  rw [mem_knownItems] at hx ⊢
  exact ⟨hx.1, h.known_of_known hx.2⟩

theorem card_knownItems_forget (hx : m.Has x) (hknown : v.Known x) :
    (knownItems m (v.forget x)).card < (knownItems m v).card := by
  refine Finset.card_lt_card (Finset.ssubset_iff_of_subset ?_ |>.2 ⟨x, ?_, ?_⟩)
  · intro y hy
    rw [mem_knownItems] at hy ⊢
    have hxy : y ≠ x := fun hxy => not_known_forget x (hxy ▸ hy.2)
    exact ⟨hy.1, (known_forget hxy).1 hy.2⟩
  · exact mem_knownItems.2 ⟨hx, hknown⟩
  · exact fun h => not_known_forget x (mem_knownItems.1 h).2

structure Invalidated (m : Model) (x : Item) (v v' : Values) : Prop where
  keeps : Keeps v v'
  assigned : v'.assigned = v.assigned
  gone : m.Defines x → ¬v'.Known x
  /-- What feeds an item that is still known is still known, and not what was invalidated. -/
  closed : ∀ y d, m.Feeds y d → m.Defines d → v'.Known d → y ≠ x ∧ (v.Known y → v'.Known y)

/-- What invalidating several known items one after the other amounts to. -/
structure InvalidatedAll (m : Model) (ds : List Item) (v v' : Values) : Prop where
  keeps : Keeps v v'
  assigned : v'.assigned = v.assigned
  gone : ∀ d ∈ ds, ¬v'.Known d
  closed : ∀ y d, m.Feeds y d → m.Defines d → v'.Known d → v.Known y → v'.Known y

theorem foldl_invalidate {f : Values → Item → Values} {n : Nat}
    (hf : ∀ v d, m.Defines d → v.Known d → (knownItems m v).card ≤ n → Invalidated m d v (f v d))
    {ds : List Item} (hds : ∀ d ∈ ds, m.Defines d) {v : Values} (hv : (knownItems m v).card ≤ n) :
    InvalidatedAll m ds v (ds.foldl (fun v d => if v.isKnown d then f v d else v) v) := by
  induction ds generalizing v with
  | nil => exact ⟨.refl v, rfl, by simp, fun _ _ _ _ _ h => h⟩
  | cons d ds ih =>
    have hrest := fun v hv => @ih (fun d' hd' => hds d' (.tail _ hd')) v hv
    by_cases hd : v.isKnown d
    · have hfirst := hf v d (hds d (.head _)) hd hv
      have hlast := hrest (f v d) ((card_knownItems_of_keeps hfirst.keeps).trans hv)
      rw [foldl_cons, if_pos hd]
      refine ⟨hfirst.keeps.trans hlast.keeps, hlast.assigned.trans hfirst.assigned, ?_, ?_⟩
      · intro e he hknown
        rcases mem_cons.1 he with rfl | he
        · exact hfirst.gone (hds e (.head _)) (hlast.keeps.known_of_known hknown)
        · exact hlast.gone e he hknown
      · intro y e hfeeds he hknown hy
        have hmiddle := hfirst.closed y e hfeeds he (hlast.keeps.known_of_known hknown)
        exact hlast.closed y e hfeeds he hknown (hmiddle.2 hy)
    · have hlast := hrest v hv
      rw [foldl_cons, if_neg hd]
      refine ⟨hlast.keeps, hlast.assigned, fun e he hknown => ?_, hlast.closed⟩
      rcases mem_cons.1 he with rfl | he
      · exact hd (hlast.keeps.known_of_known hknown)
      · exact hlast.gone e he hknown

theorem invalidateFrom_spec (hm : m.Tidy) (fuel : Nat) {v : Values} {x : Item}
    (hx : ∀ i, x = .symbol i → yes < i) (hfuel : (knownItems m (v.forget x)).card < fuel) :
    Invalidated m x v (invalidateFrom m fuel v x) := by
  induction fuel generalizing v x with
  | zero => exact absurd hfuel (Nat.not_lt_zero _)
  | succ fuel ih =>
    unfold invalidateFrom
    by_cases hmodules : x = .symbol modules
    · rw [if_pos hmodules]
      obtain ⟨hkeeps, hassigned, hgone⟩ := forgetAll_spec hm v
      exact ⟨hkeeps, hassigned, hgone x, fun y d _ hd hknown => absurd hknown (hgone d hd)⟩
    · rw [if_neg hmodules]
      have hstep : ∀ v d, m.Defines d → v.Known d → (knownItems m v).card ≤ fuel →
          Invalidated m d v (invalidateFrom m fuel v d) := by
        intro v d hd hknown hcard
        refine ih (fun i hi => hm.notConstant i (hi ▸ hd)) ?_
        exact (card_knownItems_forget (hm.has d hd) hknown).trans_le hcard
      have hall := foldl_invalidate hstep (hm.dependents x) (Nat.le_of_lt_succ hfuel)
      have hfirst : Keeps v (v.forget x) := keeps_forget hx
      refine ⟨hfirst.trans hall.keeps, hall.assigned.trans assigned_forget, fun _ hknown => ?_,
        fun y d hfeeds hd hknown => ?_⟩
      · exact not_known_forget x (hall.keeps.known_of_known hknown)
      · have hyx : y ≠ x := by
          rintro rfl
          exact hall.gone d (hfeeds.resolve_left hmodules) hknown
        exact ⟨hyx, fun hy => hall.closed y d hfeeds hd hknown ((known_forget hyx).2 hy)⟩

theorem invalidate_spec (hm : m.Tidy) (v : Values) {x : Item} (hx : ∀ i, x = .symbol i → yes < i) :
    Invalidated m x v (v.invalidate m x) := by
  refine invalidateFrom_spec hm _ hx (Nat.lt_of_le_of_lt (card_knownItems_le m _) ?_)
  omega

end Values

end Buildsmith.Kconfig
