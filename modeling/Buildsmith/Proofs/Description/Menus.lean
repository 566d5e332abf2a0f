import Buildsmith.Proofs.Description.Statements

/-!
# From the outline to the menu

Every entry inherits from its surroundings once (`Outline.passed_inheritAll`): the conditions of the
blocks and menus around it, back to the nearest choice, which stands for all that is further out.

Whatever a choice has below it in the menu was below it in the outline, and inherited the choice as a
dependency.  So the prompt of an entry right below a choice requires the choice in its condition,
unless the condition never holds (`Outline.HandedAll.toMenu`).

The menu mentions the entries of the outline, in the same order (`idsAll_toMenu`).
-/

namespace Buildsmith.Kconfig

open List Outline Entry Buildsmith.Kconfig.Expr Option Menu

/-! ## Conditions under a choice -/

theorem Expr.yes_both (e : Expr) : yes.both e = e := if_pos rfl

/-- Whether a condition requires a choice or never holds. -/
def Expr.Under (c : ChoiceId) (e : Expr) : Prop := e = .no ∨ .item (.choice c) ∈ e.conjuncts

theorem Expr.items_subset_of_mem_conjuncts {a e : Expr} (h : a ∈ e.conjuncts) :
    ∀ x ∈ a.items, x ∈ e.items := by
  induction e with
  | and b c hb hc =>
    intro x hx
    rcases mem_append.1 h with h | h
    · exact mem_append_left _ (hb h x hx)
    · exact mem_append_right _ (hc h x hx)
  | _ => exact mem_singleton.1 h ▸ fun x hx => hx

namespace Expr.Under

variable {c : ChoiceId} {a b : Expr}

theorem ne_yes (h : a.Under c) : a ≠ .yes := by
  rintro rfl
  rcases h with h | h
  · cases h
  · simp [yes, symbol, conjuncts] at h

theorem both_right (h : b.Under c) (a : Expr) : (a.both b).Under c := by
  unfold both
  rw [if_neg h.ne_yes]
  split
  · exact h
  · split
    · exact .inl rfl
    · rename_i hno
      have hb : b ≠ .no := fun hb => hno (by simp [hb])
      exact .inr (mem_append_right _ (h.resolve_left hb))

theorem mem_items (h : a.Under c) (ha : a ≠ .no) : .choice c ∈ a.items :=
  items_subset_of_mem_conjuncts (h.resolve_left ha) _ (by simp [items])

end Expr.Under

/-! ## Surroundings -/

theorem Entry.subject_inherit (base visibleIf : Expr) (e : Entry) :
    (e.inherit base visibleIf).subject = e.subject := by
  unfold inherit
  split <;> rfl

theorem Entry.dep_inherit (base visibleIf : Expr) (e : Entry) :
    (e.inherit base visibleIf).dep = e.dep.both base := by
  unfold inherit
  split <;> rfl

theorem Entry.prompt_inherit {base visibleIf : Expr} {e : Entry} {p : String × Expr}
    (h : (e.inherit base visibleIf).prompt = some p) :
    ∃ q x, e.prompt = some q ∧ p.2 = q.2.both (both x (e.dep.both base)) := by
  unfold inherit at h
  split at h <;> obtain ⟨q, hq, rfl⟩ := map_eq_some_iff.1 h
  · exact ⟨q, visibleIf, hq, rfl⟩
  · exact ⟨q, visibleIf, hq, rfl⟩
  · exact ⟨q, .yes, hq, by rw [yes_both]⟩

/-- The conditions around a place of the description. -/
structure Surroundings where
  /-- What entries at the place depend on, from the inside out. -/
  conds : List Expr := []
  /-- When the menus around the place show what they contain, from the outside in. -/
  visible : List Expr := []

namespace Surroundings

/-- The surroundings inside a block. -/
def under (σ : Surroundings) (cond : Expr) : Surroundings := { σ with conds := cond :: σ.conds }

/-- The surroundings inside an entry.  A choice stands for all that is around it. -/
def inside (σ : Surroundings) (e : Entry) : Surroundings :=
  match e.subject with
  | .choice c => { σ with conds := [.item (.choice c)] }
  | .menu => { conds := e.dep :: σ.conds, visible := σ.visible ++ [e.visibility] }
  | _ => σ.under e.dep

/-- The dependency that is handed down to a place. -/
def base (σ : Surroundings) : Expr := σ.conds.foldr Expr.both .yes

/-- The visibility that is handed down to a place. -/
def visibleIf (σ : Surroundings) : Expr := σ.visible.foldl Expr.both .yes

theorem base_inside (σ : Surroundings) (e : Entry) :
    (σ.inside e).base = (e.inherit σ.base σ.visibleIf).handsDown := by
  unfold inside handsDown
  rw [subject_inherit, dep_inherit]
  cases e.subject <;> rfl

theorem visibleIf_inside (σ : Surroundings) (e : Entry) :
    (σ.inside e).visibleIf = (e.inherit σ.base σ.visibleIf).visibleInside σ.visibleIf := by
  have hvisibility : (e.inherit σ.base σ.visibleIf).visibility = e.visibility := by
    unfold Entry.inherit
    cases e.subject <;> rfl
  unfold inside visibleInside
  rw [subject_inherit, hvisibility]
  cases e.subject with
  | menu => exact foldl_append
  | symbol i | choice c | comment => rfl

variable {c : ChoiceId}

theorem under_inside {σ : Surroundings} {e : Entry} (h : σ.base.Under c)
    (he : ∀ d, e.subject ≠ .choice d) : (σ.inside e).base.Under c := by
  unfold inside
  split
  · rename_i d hd
    exact absurd hd (he d)
  · exact h.both_right _
  · exact h.both_right _

theorem under_inside_choice (σ : Surroundings) {e : Entry} (he : e.subject = .choice c) :
    (σ.inside e).base.Under c := by
  unfold inside
  rw [he]
  exact .inr (by simp [base, both, yes, symbol, conjuncts])

end Surroundings

mutual

/-- The entries of an outline, each with its surroundings. -/
def Outline.around (entries : Array Entry) (σ : Surroundings) : Outline → List (EntryId × Surroundings)
  | .entry i children =>
    (i, σ) ::
      match entries[i]? with
      | some e => aroundAll entries (σ.inside e) children
      | none => []
  | .block cond children => aroundAll entries (σ.under cond) children

def Outline.aroundAll (entries : Array Entry) (σ : Surroundings) :
    List Outline → List (EntryId × Surroundings)
  | [] => []
  | o :: os => o.around entries σ ++ aroundAll entries σ os

end

/-- Whether some entries of `start` have inherited from their surroundings in `after`, which is
like `before` elsewhere. -/
structure Passed (start before after : Array Entry) (places : List (EntryId × Surroundings)) :
    Prop where
  inherited : ∀ p ∈ places,
    after[p.1]? = (start[p.1]?).map (·.inherit p.2.base p.2.visibleIf)
  others : ∀ k, k ∉ places.map Prod.fst → after[k]? = before[k]?

namespace Passed

variable {start before middle after : Array Entry} {places places' : List (EntryId × Surroundings)}

theorem nil : Passed start before before [] := ⟨nofun, fun _ _ => rfl⟩

theorem append (h : Passed start before middle places) (h' : Passed start middle after places')
    (hdisjoint : ∀ p ∈ places, p.1 ∉ places'.map Prod.fst) :
    Passed start before after (places ++ places') where
  inherited p hp := by
    rcases mem_append.1 hp with hp | hp
    · rw [h'.others p.1 (hdisjoint p hp), h.inherited p hp]
    · exact h'.inherited p hp
  others k hk := by
    rw [map_append, mem_append, not_or] at hk
    rw [h'.others k hk.2, h.others k hk.1]

theorem modify {i : EntryId} (hi : before[i]? = start[i]?) (σ : Surroundings) :
    Passed start before (before.modify i (·.inherit σ.base σ.visibleIf)) [(i, σ)] where
  inherited p hp := by
    obtain rfl := mem_singleton.1 hp
    rw [Array.getElem?_modify, if_pos rfl, hi]
  others k hk := by
    have hne : i ≠ k := fun h => hk (by simp [h])
    rw [Array.getElem?_modify, if_neg hne]

theorem map_eq {β : Type} {f : Entry → β} (h : Passed start start after places)
    (hf : ∀ base visibleIf e, f (inherit base visibleIf e) = f e) (k : EntryId) :
    (after[k]?).map f = (start[k]?).map f := by
  by_cases hk : k ∈ places.map Prod.fst
  · obtain ⟨p, hp, rfl⟩ := mem_map.1 hk
    rw [h.inherited p hp, Option.map_map]
    exact congrArg (Option.map · _) (funext fun e => hf _ _ e)
  · rw [h.others k hk]

end Passed

variable {start after : Array Entry}

mutual

theorem Outline.map_around :
    ∀ (o : Outline) (σ : Surroundings), (∀ k ∈ o.ids, k < start.size) →
      (o.around start σ).map Prod.fst = o.ids
  | .entry i children, σ, hsize => by
    have hi := hsize i mem_cons_self
    rw [around, Array.getElem?_eq_getElem hi, ids, map_cons]
    exact congrArg _ (map_aroundAll children _ fun k hk => hsize k (mem_cons_of_mem _ hk))
  | .block cond children, σ, hsize => map_aroundAll children (σ.under cond) hsize

theorem Outline.map_aroundAll :
    ∀ (os : List Outline) (σ : Surroundings), (∀ k ∈ idsAll os, k < start.size) →
      (aroundAll start σ os).map Prod.fst = idsAll os
  | [], _, _ => rfl
  | o :: os, σ, hsize => by
    rw [aroundAll, map_append, idsAll, map_around o σ fun k hk => hsize k (mem_append_left _ hk),
      map_aroundAll os σ fun k hk => hsize k (mem_append_right _ hk)]

end

mutual

theorem Outline.passed_inherit :
    ∀ (o : Outline) (σ : Surroundings) (before : Array Entry), o.ids.Nodup →
      (∀ k ∈ o.ids, k < start.size ∧ before[k]? = start[k]?) →
      Passed start before (o.inherit σ.base σ.visibleIf before).1 (o.around start σ)
  | .entry i children, σ, before, hnodup, hbefore => by
    obtain ⟨hi, hchildren⟩ := nodup_cons.1 hnodup
    obtain ⟨hlt, hold⟩ := hbefore i mem_cons_self
    have hself := Passed.modify hold σ
    have hread : (before.modify i (·.inherit σ.base σ.visibleIf))[i]? =
        some (start[i].inherit σ.base σ.visibleIf) := by
      rw [hself.inherited (i, σ) (mem_singleton.2 rfl), Array.getElem?_eq_getElem hlt]
      rfl
    have hchild : ∀ k ∈ idsAll children, k < start.size ∧
        (before.modify i (·.inherit σ.base σ.visibleIf))[k]? = start[k]? := by
      intro k hk
      obtain ⟨hlt', hold'⟩ := hbefore k (mem_cons_of_mem _ hk)
      have hne : k ≠ i := fun h => hi (h ▸ hk)
      exact ⟨hlt', (hself.others k (by simpa using hne)).trans hold'⟩
    have hbelow := passed_inheritAll children (σ.inside start[i]) _ hchildren hchild
    rw [Surroundings.base_inside, Surroundings.visibleIf_inside] at hbelow
    rw [inherit, around, Array.getElem?_eq_getElem hlt]
    simp only [hread]
    refine hself.append hbelow fun p hp => ?_
    obtain rfl := mem_singleton.1 hp
    rwa [map_aroundAll children _ fun k hk => (hchild k hk).1]
  | .block cond children, σ, before, hnodup, hbefore =>
    passed_inheritAll children (σ.under cond) before hnodup hbefore

/-- Each entry of an outline inherits from its surroundings, and no other entry changes. -/
theorem Outline.passed_inheritAll :
    ∀ (os : List Outline) (σ : Surroundings) (before : Array Entry), (idsAll os).Nodup →
      (∀ k ∈ idsAll os, k < start.size ∧ before[k]? = start[k]?) →
      Passed start before (inheritAll σ.base σ.visibleIf before os).1
        (aroundAll start σ os)
  | [], _, _, _, _ => Passed.nil
  | o :: os, σ, before, hnodup, hbefore => by
    obtain ⟨ho, hos, hdisjoint⟩ := nodup_append.1 hnodup
    have hids : (o.around start σ).map Prod.fst = o.ids := map_around o σ
      fun k hk => (hbefore k (mem_append_left _ hk)).1
    have hids' : (aroundAll start σ os).map Prod.fst = idsAll os :=
      map_aroundAll os σ
      fun k hk => (hbefore k (mem_append_right _ hk)).1
    have hfirst := passed_inherit o σ before ho
      fun k hk => hbefore k (mem_append_left _ hk)
    have hrest := passed_inheritAll os σ (o.inherit σ.base σ.visibleIf before).1 hos
      fun k hk => by
        obtain ⟨hlt, hold⟩ := hbefore k (mem_append_right _ hk)
        refine ⟨hlt, (hfirst.others k ?_).trans hold⟩
        rw [hids]
        exact fun h => hdisjoint k h k hk rfl
    refine hfirst.append hrest fun p hp => ?_
    rw [hids']
    have hp' : p.1 ∈ o.ids := hids ▸ mem_map_of_mem hp
    exact fun h => hdisjoint p.1 hp' p.1 h rfl

end

/-! ## Prompts below choices -/

mutual

theorem Outline.size_inherit : ∀ (o : Outline) (base visibleIf : Expr) (entries : Array Entry),
    (o.inherit base visibleIf entries).1.size = entries.size
  | .entry i children, base, visibleIf, entries => by
    simp only [inherit]
    split
    · exact (size_inheritAll children ..).trans Array.size_modify
    · exact Array.size_modify
  | .block _ children, _, _, _ => size_inheritAll children ..

theorem Outline.size_inheritAll : ∀ (os : List Outline) (base visibleIf : Expr)
    (entries : Array Entry), (inheritAll base visibleIf entries os).1.size = entries.size
  | [], _, _, _ => rfl
  | o :: os, _, _, _ => (size_inheritAll os ..).trans (size_inherit o ..)

end

/-- Whether the prompt of an entry is under a choice. -/
def PromptUnder (c : ChoiceId) (entries : Array Entry) (k : EntryId) : Prop :=
  ∀ e p, entries[k]? = some e → e.prompt = some p → p.2.Under c

mutual

/-- The entries that an outline shows unless a choice stands between. -/
def Outline.reach (entries : Array Entry) : Outline → List EntryId
  | .entry i children =>
    i :: (match (entries[i]?).map subject with
      | some (.choice _) => []
      | _ => reachAll entries children)
  | .block _ children => reachAll entries children

def Outline.reachAll (entries : Array Entry) : List Outline → List EntryId
  | [] => []
  | o :: os => o.reach entries ++ reachAll entries os

end

/-- Whether the prompts of some entries are under the choice that an entry stands for, if any. -/
def Shelters (entries : Array Entry) (i : EntryId) (below : List EntryId) : Prop :=
  ∀ c, (entries[i]?).map subject = some (.choice c) → ∀ k ∈ below, PromptUnder c entries k

mutual

/-- Whether the prompts below each choice of an outline are under the choice. -/
def Outline.Handed (entries : Array Entry) : Outline → Prop
  | .entry i children =>
    Shelters entries i (reachAll entries children) ∧ Outline.HandedAll entries children
  | .block _ children => Outline.HandedAll entries children

def Outline.HandedAll (entries : Array Entry) : List Outline → Prop
  | [] => True
  | o :: os => o.Handed entries ∧ Outline.HandedAll entries os

end

theorem promptUnder_of_inherit {c : ChoiceId} {k : EntryId} {σ : Surroundings} (hσ : σ.base.Under c)
    (h : after[k]? = (start[k]?).map (·.inherit σ.base σ.visibleIf)) : PromptUnder c after k := by
  intro e p he hp
  rw [h] at he
  obtain ⟨e', -, rfl⟩ := map_eq_some_iff.1 he
  obtain ⟨q, x, -, hcond⟩ := prompt_inherit hp
  rw [hcond]
  exact ((hσ.both_right _).both_right _).both_right _

mutual

-- what is handed down meanwhile does not matter, since all prompts are taken from `after`
theorem Outline.handed_inherit
    (hsame : ∀ k : EntryId, (after[k]?).map subject = (start[k]?).map subject) :
    ∀ (o : Outline) (σ : Surroundings) (base visibleIf : Expr) (before : Array Entry),
      before.size = start.size → (∀ k ∈ o.ids, k < start.size) →
      (∀ p ∈ o.around start σ, after[p.1]? = (start[p.1]?).map (·.inherit p.2.base p.2.visibleIf)) →
      (o.inherit base visibleIf before).2.Handed after ∧ ∀ c, σ.base.Under c →
        ∀ k ∈ (o.inherit base visibleIf before).2.reach after, PromptUnder c after k
  | .entry i children, σ, base, visibleIf, before, hsize, hids, hpassed => by
    have hi : i < start.size := hids i mem_cons_self
    obtain ⟨e, he⟩ : ∃ e, (before.modify i (·.inherit base visibleIf))[i]? = some e := by
      simp [hsize, hi]
    have hsubject : (after[i]?).map subject = some start[i].subject := by
      rw [hsame, Array.getElem?_eq_getElem hi, map_some]
    rw [around, Array.getElem?_eq_getElem hi] at hpassed
    obtain ⟨hself, hbelow⟩ := forall_mem_cons.1 hpassed
    obtain ⟨hhanded, hunder⟩ := handed_inheritAll hsame children (σ.inside start[i])
      e.handsDown (e.visibleInside visibleIf) (before.modify i (·.inherit base visibleIf)) (by simpa using hsize)
      (fun k hk => hids k (mem_cons_of_mem _ hk)) hbelow
    simp only [inherit, he]
    refine ⟨⟨fun c hc => hunder c ?_, hhanded⟩, fun c hc k hk => ?_⟩
    · exact σ.under_inside_choice (some.inj (hsubject.symm.trans hc))
    · simp only [reach, hsubject, mem_cons] at hk
      rcases hk with rfl | hk
      · exact promptUnder_of_inherit hc hself
      · split at hk
        · cases hk
        · rename_i hchoice
          exact hunder c (Surroundings.under_inside hc fun d hd => hchoice d (hd ▸ rfl)) k hk
  | .block cond children, σ, base, visibleIf, before, hsize, hids, hpassed => by
    obtain ⟨hhanded, hunder⟩ := handed_inheritAll hsame children (σ.under cond)
      (cond.both base) visibleIf before hsize hids hpassed
    exact ⟨hhanded, fun c hc => hunder c (hc.both_right _)⟩

theorem Outline.handed_inheritAll
    (hsame : ∀ k : EntryId, (after[k]?).map subject = (start[k]?).map subject) :
    ∀ (os : List Outline) (σ : Surroundings) (base visibleIf : Expr) (before : Array Entry),
      before.size = start.size → (∀ k ∈ idsAll os, k < start.size) →
      (∀ p ∈ aroundAll start σ os,
        after[p.1]? = (start[p.1]?).map (·.inherit p.2.base p.2.visibleIf)) →
      Outline.HandedAll after (inheritAll base visibleIf before os).2 ∧ ∀ c, σ.base.Under c →
        ∀ k ∈ reachAll after (inheritAll base visibleIf before os).2, PromptUnder c after k
  | [], _, _, _, _, _, _, _ => ⟨trivial, fun _ _ _ hk => nomatch hk⟩
  | o :: os, σ, base, visibleIf, before, hsize, hids, hpassed => by
    obtain ⟨hfirst, hrest⟩ := forall_mem_append.1 hpassed
    obtain ⟨hids, hids'⟩ := forall_mem_append.1 hids
    obtain ⟨ho, hunder⟩ := handed_inherit hsame o σ base visibleIf before hsize hids hfirst
    obtain ⟨hos, hunder'⟩ := handed_inheritAll hsame os σ base visibleIf
      (o.inherit base visibleIf before).1 ((size_inherit o ..).trans hsize) hids' hrest
    exact ⟨⟨ho, hos⟩, fun c hc => forall_mem_append.2 ⟨hunder c hc, hunder' c hc⟩⟩

end

/-! ## Menus -/

mutual

def Menu.ids : Menu → List EntryId
  | .entry i children => i :: idsAll children

def Menu.idsAll : List Menu → List EntryId
  | [] => []
  | x :: xs => x.ids ++ idsAll xs

end

mutual

/-- The entries of a menu, each with those right below it, from top to bottom. -/
def Menu.nodes : Menu → List (EntryId × List EntryId)
  | .entry i children => (i, children.map id) :: nodesAll children

def Menu.nodesAll : List Menu → List (EntryId × List EntryId)
  | [] => []
  | x :: xs => x.nodes ++ nodesAll xs

end

def Menu.HandedAll (entries : Array Entry) (xs : List Menu) : Prop :=
  ∀ n ∈ nodesAll xs, Shelters entries n.1 n.2

theorem Menu.idsAll_append (xs ys : List Menu) :
    idsAll (xs ++ ys) = idsAll xs ++ idsAll ys := by
  induction xs with
  | nil => rfl
  | cons x xs ih => simp [idsAll, ih]

variable {entries : Array Entry}

theorem Menu.handedAll_append {xs ys : List Menu} (hxs : Menu.HandedAll entries xs)
    (hys : Menu.HandedAll entries ys) : Menu.HandedAll entries (xs ++ ys) := by
  induction xs with
  | nil => exact hys
  | cons x xs ih =>
    obtain ⟨hx, hxs⟩ := forall_mem_append.1 hxs
    exact forall_mem_append.2 ⟨hx, ih hxs⟩

namespace Piece

def ids : Piece → List EntryId
  | .entry i children => i :: idsAll children
  | .block _ children => idsAll children

/-- Whether the prompts right below each choice of a part are under the choice. -/
def Handed (entries : Array Entry) : Piece → Prop
  | .entry i children =>
    Shelters entries i (children.map Menu.id) ∧ Menu.HandedAll entries children
  | .block _ children => Menu.HandedAll entries children

/-- Whether all that a part leaves on its level is among some entries. -/
def Within (entries : Array Entry) (S : List EntryId) : Piece → Prop
  | .entry i children => i ∈ S ∧ (isTransparent entries i = true → ∀ x ∈ children, x.id ∈ S)
  | .block _ children => ∀ x ∈ children, x.id ∈ S

theorem idsAll_dissolve (p : Piece) : Menu.idsAll (p.dissolve entries) = p.ids := by
  cases p with
  | block cond children => rfl
  | entry i children =>
    simp only [dissolve]
    split <;> simp [Menu.idsAll, Menu.ids, ids]

variable {S : List EntryId} {p : Piece}

theorem Handed.dissolve (h : p.Handed entries) : Menu.HandedAll entries (p.dissolve entries) := by
  cases p with
  | block cond children => exact h
  | entry i children =>
    simp only [Piece.dissolve]
    split
    · exact forall_mem_cons.2 ⟨fun _ _ _ hk => (nomatch hk), h.2⟩
    · rw [Menu.HandedAll, Menu.nodesAll, Menu.nodesAll, append_nil]
      exact forall_mem_cons.2 h

theorem Within.dissolve (h : p.Within entries S) : ∀ x ∈ p.dissolve entries, x.id ∈ S := by
  cases p with
  | block cond children => exact h
  | entry i children =>
    simp only [Piece.dissolve]
    split
    · rename_i htransparent
      intro x hx
      rcases mem_cons.1 hx with rfl | hx
      · exact h.1
      · exact h.2 htransparent x hx
    · intro x hx
      rw [mem_singleton.1 hx]
      exact h.1

theorem Within.mono {S' : List EntryId} (hS : ∀ k ∈ S, k ∈ S') (h : p.Within entries S) :
    p.Within entries S' := by
  cases p with
  | block cond children => exact fun x hx => hS _ (h x hx)
  | entry i children => exact ⟨hS _ h.1, fun ht x hx => hS _ (h.2 ht x hx)⟩

end Piece

theorem idsAll_dissolveAll (ps : List Piece) :
    idsAll (dissolveAll entries ps) = ps.flatMap Piece.ids := by
  induction ps with
  | nil => rfl
  | cons p ps ih =>
    rw [dissolveAll, flatMap_cons, Menu.idsAll_append, Piece.idsAll_dissolve, flatMap_cons, ← ih]
    rfl

theorem handedAll_dissolveAll (h : ∀ p ∈ ps, p.Handed entries) :
    Menu.HandedAll entries (dissolveAll entries ps) := by
  induction ps with
  | nil => exact nofun
  | cons p ps ih =>
    exact handedAll_append (h p mem_cons_self).dissolve
      (ih fun q hq => h q (mem_cons_of_mem _ hq))

theorem mem_dissolveAll {S : List EntryId} (h : ∀ p ∈ ps, p.Within entries S) :
    ∀ x ∈ dissolveAll entries ps, x.id ∈ S := by
  intro x hx
  obtain ⟨p, hp, hx⟩ := mem_flatMap.1 hx
  exact (h p hp).dissolve x hx

/-! ## Levels -/

theorem not_isTransparent_of_choice (h : (entries[i]?).map subject = some (.choice c)) :
    ¬ isTransparent entries i := by
  obtain ⟨e, he, hsubject⟩ := map_eq_some_iff.1 h
  simp [isTransparent, he, hsubject]

mutual

theorem Outline.within_place
    {S : List EntryId} {behind : List Piece} (hbehind : ∀ p ∈ behind, p.Within entries S) :
    ∀ o : Outline, (∀ k ∈ o.reach entries, k ∈ S) → ∀ p ∈ o.place entries behind, p.Within entries S
  | .block cond children, hS => by
    rw [place]
    refine forall_mem_cons.2 ⟨fun x hx => hS _ ?_, hbehind⟩
    exact mem_dissolveAll (within_level children) x hx
  | .entry i children, hS => by
    have hi : i ∈ S := hS i mem_cons_self
    rw [place]
    split
    · refine forall_mem_cons.2 ⟨⟨hi, fun _ => ?_⟩, fun p hp => ?_⟩
      · exact mem_dissolveAll fun p hp => hbehind p ((takeWhile_sublist _).subset hp)
      · exact hbehind p ((dropWhile_sublist _).subset hp)
    · refine forall_mem_cons.2 ⟨⟨hi, fun htransparent x hx => hS _ ?_⟩, hbehind⟩
      have hx := mem_dissolveAll (within_level children) x hx
      rw [reach]
      refine mem_cons_of_mem _ ?_
      split
      · rename_i c hc
        exact absurd htransparent (not_isTransparent_of_choice hc)
      · exact hx

theorem Outline.within_level :
    ∀ os : List Outline, ∀ p ∈ level entries os, p.Within entries (reachAll entries os)
  | [] => nofun
  | o :: os => by
    rw [level]
    refine within_place (fun p hp => ?_) o fun k hk => mem_append_left _ hk
    exact (within_level os p hp).mono fun k hk => mem_append_right _ hk

end

mutual

theorem Outline.Handed.place {behind : List Piece} (hbehind : ∀ p ∈ behind, p.Handed entries) :
    ∀ {o : Outline}, o.Handed entries → ∀ p ∈ o.place entries behind, p.Handed entries
  | .block cond children, ho => by
    rw [place]
    exact forall_mem_cons.2 ⟨handedAll_dissolveAll (Outline.HandedAll.level ho), hbehind⟩
  | .entry i children, ⟨hbelow, hchildren⟩ => by
    rw [place]
    split
    · rename_i s hs
      refine forall_mem_cons.2 ⟨⟨fun c hc => ?_, handedAll_dissolveAll fun p hp => ?_⟩,
        fun p hp => ?_⟩
      · rw [hs] at hc
        cases hc
      · exact hbehind p ((takeWhile_sublist _).subset hp)
      · exact hbehind p ((dropWhile_sublist _).subset hp)
    · refine forall_mem_cons.2 ⟨⟨fun c hc => forall_mem_map.2 fun x hx => ?_, ?_⟩, hbehind⟩
      · exact hbelow c hc x.id (mem_dissolveAll (within_level children) x hx)
      · exact handedAll_dissolveAll (Outline.HandedAll.level hchildren)

theorem Outline.HandedAll.level :
    ∀ {os : List Outline}, Outline.HandedAll entries os → ∀ p ∈ level entries os, p.Handed entries
  | [], _ => nofun
  | o :: os, ⟨ho, hos⟩ => by
    rw [level]
    exact Outline.Handed.place (Outline.HandedAll.level hos) ho

end

theorem Outline.HandedAll.toMenu (h : Outline.HandedAll entries os) :
    Menu.HandedAll entries (toMenu entries os) :=
  handedAll_dissolveAll h.level

/-! ## What the menu mentions -/

mutual

theorem Outline.ids_place {ss : List Subject} (hss : entries.toList.map subject = ss)
    (behind : List Piece) :
    ∀ {o : Outline}, o.Fits ss →
      (o.place entries behind).flatMap Piece.ids = o.ids ++ behind.flatMap Piece.ids
  | .block cond children, ho => by
    have hchildren : Outline.FitsAll ss children := ho
    rw [place, flatMap_cons, Piece.ids, idsAll_dissolveAll, ids_level hss hchildren, ids]
  | .entry i children, ⟨⟨x, hx, hleaf⟩, hchildren⟩ => by
    have hsubject : (entries[i]?).map subject = some x := by
      rw [← hx, ← hss, getElem?_map, Array.getElem?_toList]
    rw [place, hsubject]
    split
    · rename_i s hs
      rw [hleaf ⟨s, some.inj hs⟩, flatMap_cons, Piece.ids, idsAll_dissolveAll,
        cons_append, ← flatMap_append, takeWhile_append_dropWhile]
      rfl
    · rw [flatMap_cons, Piece.ids, idsAll_dissolveAll, ids_level hss hchildren, ids]

theorem Outline.ids_level {ss : List Subject} (hss : entries.toList.map subject = ss) :
    ∀ {os : List Outline}, Outline.FitsAll ss os → (level entries os).flatMap Piece.ids = idsAll os
  | [], _ => rfl
  | o :: os, ⟨ho, hos⟩ => by
    rw [level, ids_place hss _ ho, ids_level hss hos, idsAll]

end

/-- The menu mentions the entries of the outline, in the same order. -/
theorem Outline.idsAll_toMenu {ss : List Subject} (hss : entries.toList.map subject = ss)
    (hos : Outline.FitsAll ss os) : Menu.idsAll (toMenu entries os) = idsAll os := by
  rw [toMenu, idsAll_dissolveAll, ids_level hss hos]

mutual

theorem Outline.Fits.inherit {ss : List Subject} (base visibleIf : Expr) (entries : Array Entry) :
    ∀ {o : Outline}, o.Fits ss → (o.inherit base visibleIf entries).2.Fits ss ∧
      (o.inherit base visibleIf entries).2.ids = o.ids
  | .block cond children, ho => by
    have hchildren : Outline.FitsAll ss children := ho
    exact hchildren.inheritAll (cond.both base) visibleIf entries
  | .entry i children, ⟨⟨x, hx, hleaf⟩, hchildren⟩ => by
    simp only [inherit]
    split
    · rename_i e he
      obtain ⟨hfits, hids⟩ := Outline.FitsAll.inheritAll e.handsDown (e.visibleInside visibleIf)
        (entries.modify i (·.inherit base visibleIf)) hchildren
      refine ⟨⟨⟨x, hx, fun hs => ?_⟩, hfits⟩, congrArg (i :: ·) hids⟩
      rw [hleaf hs]
      rfl
    · exact ⟨⟨⟨x, hx, hleaf⟩, hchildren⟩, rfl⟩

theorem Outline.FitsAll.inheritAll {ss : List Subject} (base visibleIf : Expr)
    (entries : Array Entry) :
    ∀ {os : List Outline}, Outline.FitsAll ss os →
      Outline.FitsAll ss (inheritAll base visibleIf entries os).2 ∧
      idsAll (inheritAll base visibleIf entries os).2 = idsAll os
  | [], _ => ⟨trivial, rfl⟩
  | o :: os, ⟨ho, hos⟩ => by
    obtain ⟨hofits, hoids⟩ := ho.inherit base visibleIf entries
    obtain ⟨hfits, hids⟩ := Outline.FitsAll.inheritAll base visibleIf
      (o.inherit base visibleIf entries).1 hos
    refine ⟨⟨hofits, hfits⟩, ?_⟩
    simp only [inheritAll, idsAll, hoids, hids]

end

end Buildsmith.Kconfig
