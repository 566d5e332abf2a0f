import Buildsmith.Proofs.Description.Menus
import Mathlib.Data.List.Nodup

/-!
# The finished model

When all files are read, the model gets its menu, and properties are gathered from entries on symbols
and choices.  The model stays well formed (`Gathered.wellFormed`), the menu mentions every entry
once, and prompts right below a choice are under the choice (`Model.Finished`).
-/

namespace Buildsmith.Kconfig

open List Menu Model Outline

/-!
## Links between entries

The model records for each entry of the menu what is above it and what is right below it.  What is
recorded agrees with the menu (`Menu.tied_linkAll`), since an entry stands in the menu only once.
-/

/-! ## Entries and those below them -/

mutual

theorem Menu.map_fst_nodes : ∀ x : Menu, x.nodes.map Prod.fst = x.ids
  | .entry i children => congrArg (i :: ·) (map_fst_nodesAll children)

theorem Menu.map_fst_nodesAll : ∀ xs : List Menu, (nodesAll xs).map Prod.fst = idsAll xs
  | [] => rfl
  | x :: xs => by rw [nodesAll, map_append, x.map_fst_nodes, map_fst_nodesAll xs, idsAll]

end

theorem Menu.map_id_sublist : ∀ xs : List Menu, List.Sublist (xs.map id) (idsAll xs)
  | [] => List.Sublist.slnil
  | .entry i children :: xs => by
    rw [idsAll]
    exact ((map_id_sublist xs).trans (sublist_append_right _ _)).cons_cons i

mutual

theorem Menu.below_sublist : ∀ (x : Menu), ∀ n ∈ x.nodes, List.Sublist n.2 (x.ids.tail)
  | .entry _ children => forall_mem_cons.2 ⟨map_id_sublist children, fun n hn =>
    (below_sublistAll children n hn)⟩

theorem Menu.below_sublistAll : ∀ (xs : List Menu), ∀ n ∈ nodesAll xs, List.Sublist n.2 (idsAll xs)
  | [] => nofun
  | x :: xs => forall_mem_append.2 ⟨fun n hn => ((x.below_sublist n hn).trans
      (tail_sublist _)).trans (sublist_append_left _ _),
    fun n hn => (below_sublistAll xs n hn).trans (sublist_append_right _ _)⟩

end

mutual

theorem Menu.exists_node : ∀ x : Menu, ∀ k ∈ x.ids, k = x.id ∨ ∃ n ∈ x.nodes, k ∈ n.2
  | .entry i children, k, hk => by
    refine (mem_cons.1 hk).imp_right fun hk => ?_
    rcases exists_nodeAll children k hk with hroot | ⟨n, hn, hk⟩
    · exact ⟨_, mem_cons_self, hroot⟩
    · exact ⟨n, mem_cons_of_mem _ hn, hk⟩

theorem Menu.exists_nodeAll : ∀ xs : List Menu, ∀ k ∈ idsAll xs,
    k ∈ xs.map id ∨ ∃ n ∈ nodesAll xs, k ∈ n.2
  | x :: xs, k, hk => by
    rcases mem_append.1 hk with hk | hk
    · rcases x.exists_node k hk with rfl | ⟨n, hn, hk⟩
      · exact .inl mem_cons_self
      · exact .inr ⟨n, mem_append_left _ hn, hk⟩
    · rcases exists_nodeAll xs k hk with hroot | ⟨n, hn, hk⟩
      · exact .inl (mem_cons_of_mem _ hroot)
      · exact .inr ⟨n, mem_append_right _ hn, hk⟩

end

/-! ## Linking -/

variable {m m' : Model} {parent : EntryId}

/-- Whether the links between an entry and those right below it are recorded. -/
def Model.Ties (m : Model) (i : EntryId) (below : List EntryId) : Prop :=
  m.childrenOf i = below ∧ ∀ k ∈ below, m.parentOf k = some i

/-- The second model differs from the first one only in the links of some entries. -/
structure Relinked (ids : List EntryId) (m m' : Model) : Prop where
  parents_size : m'.parents.size = m.parents.size
  children_size : m'.children.size = m.children.size
  parentOf : ∀ k, k ∉ ids → m'.parentOf k = m.parentOf k
  childrenOf : ∀ k, k ∉ ids → m'.childrenOf k = m.childrenOf k
  rest : m' = { m with parents := m'.parents, children := m'.children }

theorem Relinked.trans {ids ids' : List EntryId} {m'' : Model} (h : Relinked ids m m')
    (h' : Relinked ids' m' m'') : Relinked (ids ++ ids') m m'' where
  parents_size := h'.parents_size.trans h.parents_size
  children_size := h'.children_size.trans h.children_size
  parentOf k hk := by
    rw [mem_append, not_or] at hk
    rw [h'.parentOf k hk.2, h.parentOf k hk.1]
  childrenOf k hk := by
    rw [mem_append, not_or] at hk
    rw [h'.childrenOf k hk.2, h.childrenOf k hk.1]
  rest := by rw [h'.rest, h.rest]

/-- The model after an entry has been linked to what is above and below it. -/
def Model.tie (m : Model) (i parent : EntryId) (below : List EntryId) : Model :=
  { m with
    parents := m.parents.setIfInBounds i (some parent)
    children := m.children.setIfInBounds i below }

theorem relinked_tie (i parent : EntryId) (below : List EntryId) :
    Relinked [i] m (m.tie i parent below) where
  parents_size := by simp [tie]
  children_size := by simp [tie]
  parentOf k hk := by
    have hne : i ≠ k := fun h => hk (by simp [h])
    simp [parentOf, tie, hne]
  childrenOf k hk := by
    have hne : i ≠ k := fun h => hk (by simp [h])
    simp [childrenOf, tie, hne]
  rest := rfl

mutual

theorem Menu.relinked_link :
    ∀ (x : Menu) (parent : EntryId) (m : Model), Relinked x.ids m (x.link parent m)
  | .entry i children, parent, m =>
    (relinked_tie i parent (children.map id)).trans
      (relinked_linkAll children i (m.tie i parent (children.map id)))

theorem Menu.relinked_linkAll :
    ∀ (xs : List Menu) (parent : EntryId) (m : Model), Relinked (idsAll xs) m (linkAll parent m xs)
  | [], _, _ => ⟨rfl, rfl, fun _ _ => rfl, fun _ _ => rfl, rfl⟩
  | x :: xs, parent, m =>
    (relinked_link x parent m).trans (relinked_linkAll xs parent (x.link parent m))

end

mutual

theorem Menu.tied_link :
    ∀ (x : Menu) (parent : EntryId) (m : Model), x.ids.Nodup →
      (∀ k ∈ x.ids, k < m.parents.size ∧ k < m.children.size) →
      (x.link parent m).parentOf x.id = some parent ∧ ∀ n ∈ x.nodes, (x.link parent m).Ties n.1 n.2
  | .entry i children, parent, m, hnodup, hsize => by
    obtain ⟨hi, hchildren⟩ := nodup_cons.1 hnodup
    obtain ⟨⟨hparents, hbelow⟩, hsize⟩ := forall_mem_cons.1 hsize
    -- what is linked below leaves the links of `i` alone
    have hlink := relinked_linkAll children i (m.tie i parent (children.map id))
    obtain ⟨hroots, hties⟩ := tied_linkAll children i (m.tie i parent (children.map id)) hchildren
      (by simpa [tie] using hsize)
    refine ⟨(hlink.parentOf i hi).trans ?_, forall_mem_cons.2 ⟨⟨?_, hroots⟩, hties⟩⟩
    · simp [parentOf, tie, hparents]
    · refine (hlink.childrenOf i hi).trans ?_
      simp [childrenOf, tie, hbelow]

/-- Linking makes the links of entries as the menus have them. -/
theorem Menu.tied_linkAll :
    ∀ (xs : List Menu) (parent : EntryId) (m : Model), (idsAll xs).Nodup →
      (∀ k ∈ idsAll xs, k < m.parents.size ∧ k < m.children.size) →
      (∀ k ∈ xs.map id, (linkAll parent m xs).parentOf k = some parent) ∧
      ∀ n ∈ nodesAll xs, (linkAll parent m xs).Ties n.1 n.2
  | [], _, _, _, _ => ⟨nofun, nofun⟩
  | x :: xs, parent, m, hnodup, hsize => by
    obtain ⟨hx, hxs, hdisjoint⟩ := nodup_append.1 hnodup
    obtain ⟨hxsize, hxssize⟩ := forall_mem_append.1 hsize
    have hfirst := relinked_link x parent m
    have hrest := relinked_linkAll xs parent (x.link parent m)
    obtain ⟨hroot, hties⟩ := tied_link x parent m hx hxsize
    obtain ⟨hroots, hties'⟩ := tied_linkAll xs parent (x.link parent m) hxs (by
      rwa [hfirst.parents_size, hfirst.children_size])
    have hold : ∀ k ∈ x.ids, k ∉ idsAll xs := fun k hk h => hdisjoint k hk k h rfl
    refine ⟨forall_mem_cons.2 ⟨?_, hroots⟩, forall_mem_append.2 ⟨fun n hn => ?_, hties'⟩⟩
    · have hid : x.id ∈ x.ids := by
        cases x
        exact mem_cons_self
      exact (hrest.parentOf _ (hold _ hid)).trans hroot
    · have hid : n.1 ∈ x.ids := x.map_fst_nodes ▸ mem_map_of_mem hn
      refine ⟨(hrest.childrenOf _ (hold _ hid)).trans (hties n hn).1, fun k hk => ?_⟩
      have hk' : k ∈ x.ids := mem_of_mem_tail ((x.below_sublist n hn).subset hk)
      exact (hrest.parentOf k (hold k hk')).trans ((hties n hn).2 k hk)

end

/-! ## Who is below whom -/

/-- Whether the prompts right below each choice are under the choice. -/
def Model.Nested (m : Model) : Prop :=
  ∀ k p c, m.parentOf k = some p → (m.entry p).subject = .choice c → PromptUnder c m.entries k

/-! ## Gathering properties -/

/-- The second model has come from the first one by gathering properties. -/
structure Gathered (m m' : Model) : Prop where
  wellFormed : m'.WellFormed
  rest : m' = { m with symbols := m'.symbols, choices := m'.choices }
  /-- Choices only grow. -/
  members : ∀ c, ∀ i ∈ (m.choice c).symbols, i ∈ (m'.choice c).symbols

namespace Gathered

variable {m'' : Model}

theorem refl (h : m.WellFormed) : Gathered m m :=
  ⟨h, rfl, fun _ _ hi => hi⟩

theorem trans (h : Gathered m m') (h' : Gathered m' m'') : Gathered m m'' where
  wellFormed := h'.wellFormed
  rest := by rw [h'.rest, h.rest]
  members c i hi := h'.members c i (h.members c i hi)

theorem foldl {α : Type} (xs : List α) {step : Model → α → Model} (hm : m.WellFormed)
    (h : ∀ x ∈ xs, ∀ m', Gathered m m' → Gathered m' (step m' x)) : Gathered m (xs.foldl step m) :=
  foldlRecOn xs step (motive := Gathered m) (refl hm)
    fun m' hm' x hx => hm'.trans (h x hx m' hm')

theorem modifySymbol {i : SymbolId} {f : Symbol → Symbol} (h : (m.modifySymbol i f).WellFormed) :
    Gathered m (m.modifySymbol i f) :=
  ⟨h, rfl, fun _ _ hi => hi⟩

variable {c : ChoiceId}

theorem modifyChoice {f : Choice → Choice} (h : (m.modifyChoice c f).WellFormed)
    (hkept : ∀ i ∈ (m.choice c).symbols, i ∈ (f (m.choice c)).symbols) :
    Gathered m (m.modifyChoice c f) := by
  refine ⟨h, rfl, fun d i hi => ?_⟩
  rw [choice_modifyChoice]
  split
  · rename_i hcd
    obtain ⟨rfl, -⟩ := hcd
    exact hkept i hi
  · exact hi

theorem gather (h : m.WellFormed) (k : EntryId) : Gathered m (m.gather k) := by
  unfold Model.gather
  dsimp only
  split
  · rename_i s hs
    have hgather := modifySymbol (h.modifySymbol s
      (f := fun x => { x with
        directDep := x.directDep.either (m.entry k).dep
        defaults := x.defaults ++ (m.entry k).defaults
        ranges := x.ranges ++ (m.entry k).ranges
        selects := x.selects ++ (m.entry k).selects
        implies := x.implies ++ (m.entry k).implies })
      (fun _ => ⟨rfl, rfl, rfl⟩) (.inr (h.symbolSubjects k s hs)) (.inl rfl))
    have hselect := hgather.trans (foldl (m.entry k).selects hgather.wellFormed
      fun x _ m' hm' => modifySymbol (hm'.wellFormed.modifySymbol x.1
        (f := fun y => { y with reverseDep := y.reverseDep.either ((Expr.symbol s).both x.2) })
        (fun _ => ⟨rfl, rfl, rfl⟩) (.inl ⟨rfl, rfl⟩) (.inl rfl)))
    exact hselect.trans (foldl (m.entry k).implies hselect.wellFormed
      fun x _ m' hm' => modifySymbol (hm'.wellFormed.modifySymbol x.1
        (fun _ => ⟨rfl, rfl, rfl⟩) (.inl ⟨rfl, rfl⟩) (.inl rfl)))
  · exact refl h

theorem addMembers (h : m.WellFormed) (hc : c ∈ m.choiceUses) {below : List SymbolId}
    (hbelow : ∀ i ∈ below, i ∈ m.defined) (directDep : Expr) (defaults : List (Expr × Expr)) :
    Gathered m (below.foldl (fun m s => m.modifySymbol s fun x => { x with choice := some c })
      (m.modifyChoice c fun x =>
        { x with
          directDep := x.directDep.either directDep
          defaults := x.defaults ++ defaults
          symbols := x.symbols ++ below })) := by
  have hadd := modifyChoice (h.modifyChoice c
    (f := fun x => { x with
      directDep := x.directDep.either directDep
      defaults := x.defaults ++ defaults
      symbols := x.symbols ++ below })
    (fun _ => rfl) (fun i hi => mem_append_left _ hi)
    fun i hi => (mem_append.1 hi).imp_right (hbelow i)) fun i hi => mem_append_left _ hi
  refine hadd.trans (foldl below hadd.wellFormed fun i hi m' hm' => ?_)
  refine modifySymbol (hm'.wellFormed.modifySymbol i (fun _ => ⟨rfl, rfl, rfl⟩) (.inl ⟨rfl, rfl⟩)
    (.inr ⟨c, ?_, rfl, ?_⟩))
  · rw [hm'.rest]
    exact hc
  · refine hm'.members c i ?_
    rw [choice_modifyChoice, if_pos ⟨rfl, h.choiceUses c hc⟩]
    exact mem_append_right _ hi

theorem shareKind (h : m.WellFormed) (c : ChoiceId) (kind : Kind) :
    Gathered m ((m.choice c).symbols.foldl
      (fun m s => m.modifySymbol s fun x => if x.kind = .unknown then { x with kind } else x) m) := by
  refine foldl _ h fun i hi m' hm' =>
    modifySymbol (hm'.wellFormed.modifySymbol i (fun x => ?_) (.inr ?_) (.inl ?_))
  · split <;> exact ⟨rfl, rfl, rfl⟩
  · rw [hm'.rest]
    exact h.membersDefined c i hi
  · split <;> rfl

theorem gatherChoice (h : m.WellFormed) (k : EntryId) : Gathered m (m.gatherChoice k) := by
  unfold Model.gatherChoice
  extract_lets e below
  split
  · rename_i c hc
    extract_lets m₁ m₂ kindOf m₃ kind
    have hbelow : ∀ i ∈ below, i ∈ m.defined := by
      intro i hi
      obtain ⟨l, -, hl⟩ := mem_filterMap.1 hi
      refine h.symbolSubjects l i ?_
      split at hl
      · rename_i s hs
        rw [hs, Option.some.inj hl]
      · cases hl
    have hadd : Gathered m m₂ :=
      addMembers h (h.choiceSubjects c (mem_subjects hc nofun)) hbelow e.dep e.defaults
    have hkind : Gathered m m₃ := by
      refine hadd.trans ?_
      unfold m₃
      split
      · split
        · exact modifyChoice (hadd.wellFormed.modifyChoice c (fun _ => rfl) (fun _ hi => hi)
            fun _ hi => .inl hi) fun _ hi => hi
        · exact refl hadd.wellFormed
      · exact refl hadd.wellFormed
    exact hkind.trans (shareKind hkind.wellFormed c kind)
  · exact refl h

end Gathered

mutual

theorem Menu.gatherChoices_induct {P : Model → Prop} (hstep : ∀ m k, P m → P (m.gatherChoice k)) :
    ∀ (x : Menu) {m : Model}, P m → P (x.gatherChoices m)
  | .entry k children, _, hm => hstep _ k (gatherAllChoices_induct hstep children hm)

theorem Menu.gatherAllChoices_induct {P : Model → Prop}
    (hstep : ∀ m k, P m → P (m.gatherChoice k)) :
    ∀ (xs : List Menu) {m : Model}, P m → P (gatherAllChoices m xs)
  | [], _, hm => hm
  | x :: xs, _, hm => gatherAllChoices_induct hstep xs (x.gatherChoices_induct hstep hm)

end

/-! ## Lists without repetitions -/

section OrderedUnique

variable {α : Type} [BEq α] [LawfulBEq α]

theorem mem_orderedUnique {xs : List α} {x : α} : x ∈ orderedUnique xs ↔ x ∈ xs := by
  have hseen : ∀ seen : List α,
      x ∈ xs.foldl (fun seen x => if seen.contains x then seen else x :: seen) seen ↔
        x ∈ seen ∨ x ∈ xs := by
    induction xs with
    | nil => simp
    | cons y ys ih =>
      intro seen
      rw [foldl_cons]
      split
      · rename_i hy
        grind
      · grind
  rw [orderedUnique, mem_reverse, hseen]
  simp

theorem nodup_orderedUnique (xs : List α) : (orderedUnique xs).Nodup := by
  rw [orderedUnique, nodup_reverse]
  refine foldlRecOn xs _ (motive := List.Nodup) nodup_nil fun seen hseen x _ => ?_
  split
  · exact hseen
  · rename_i hx
    exact nodup_cons.2 ⟨fun hmem => hx (contains_iff_mem.2 hmem), hseen⟩

end OrderedUnique

/-! ## Finishing -/

/-- What every model satisfies that is finished. -/
structure Model.Finished (m : Model) : Prop where
  wellFormed : m.WellFormed
  nested : m.Nested
  /-- The menu mentions every entry but the one at the top. -/
  menu : Menu.idsAll m.menu = List.range' 1 (m.entries.size - 1)
  /-- Entries are linked as they stand in the menu, below the one at the top. -/
  tied : ∀ n ∈ (Menu.entry top m.menu).nodes, m.Ties n.1 n.2
  top : m.parentOf top = none ∧ 0 < m.entries.size
  links : m.parents.size = m.entries.size ∧ m.children.size = m.entries.size
  uniqueDefined : m.uniqueDefined = orderedUnique m.defined
  uniqueChoices : m.uniqueChoices = orderedUnique m.choiceUses

theorem Model.WellFormed.withUnique (h : m.WellFormed) (ss : List SymbolId) (cs : List ChoiceId) :
    Model.WellFormed { m with uniqueDefined := ss, uniqueChoices := cs } :=
  { h with }

theorem Model.finished_finish (hm : m.WellFormed) {ss : List Subject}
    (hss : m.entries.toList.map Entry.subject = .menu :: ss) {os : List Outline}
    (hids : idsAll os = range' 1 ss.length)
    (hfits : Outline.FitsAll (.menu :: ss) os) : (m.finish os).Finished := by
  have hsize : m.entries.size = ss.length + 1 := by
    rw [← Array.length_toList, ← length_map, hss, length_cons]
  have hlt : ∀ k ∈ idsAll os, k < m.entries.size := by
    intro k hk
    rw [hids, mem_range'_1] at hk
    rw [hsize, Nat.add_comm]
    exact hk.2
  have hpassed : Passed m.entries m.entries (inheritAll .yes .yes m.entries os).1 _ :=
    passed_inheritAll os {} m.entries (hids ▸ nodup_range') fun k hk => ⟨hlt k hk, rfl⟩
  have hsame := hpassed.map_eq Entry.subject_inherit
  obtain ⟨hhanded, -⟩ :=
    handed_inheritAll hsame os {} .yes .yes m.entries rfl hlt hpassed.inherited
  have hsize' := (size_inheritAll os .yes .yes m.entries).trans hsize
  obtain ⟨hfits', hids'⟩ := hfits.inheritAll .yes .yes m.entries
  unfold finish
  split
  rename_i entries os' hinherit
  simp only [hinherit] at hsame hhanded hsize' hfits' hids'
  extract_lets menu m₁ m₂ m₃ m₄
  have hsubjects : entries.toList.map Entry.subject = .menu :: ss := by
    rw [← hss]
    refine ext_getElem? fun k => ?_
    simpa using hsame k
  have hmenu : Menu.idsAll menu = range' 1 ss.length := by
    rw [← hids, ← hids', ← idsAll_toMenu hsubjects hfits']
  -- the entry at the top stands in no menu, so that its links are those it was given
  have htop : top ∉ Menu.idsAll menu := by
    rw [hmenu, mem_range'_1]
    exact fun h => absurd h.1 (by decide)
  have hrelinked : Relinked (Menu.idsAll menu) m₁ m₂ := Menu.relinked_linkAll menu top m₁
  have hbounds : m₁.parents.size = entries.size ∧ m₁.children.size = entries.size := by simp [m₁]
  have htied : ∀ n ∈ (Menu.entry top menu).nodes, m₂.Ties n.1 n.2 := by
    obtain ⟨hroots, hties⟩ := Menu.tied_linkAll menu top m₁ (hmenu ▸ nodup_range') fun k hk => by
      rw [hmenu, mem_range'_1, Nat.add_comm] at hk
      rw [hbounds.1, hbounds.2, hsize']
      exact ⟨hk.2, hk.2⟩
    refine forall_mem_cons.2 ⟨⟨(hrelinked.childrenOf top htop).trans ?_, hroots⟩, hties⟩
    simp [m₁, childrenOf, top, hsize']
  have hparent : ∀ k, k ∉ Menu.idsAll menu → m₂.parentOf k = none := by
    intro k hk
    rw [hrelinked.parentOf k hk]
    simp only [m₁, parentOf, Array.getD_eq_getD_getElem?, Array.getElem?_replicate]
    split <;> rfl
  have hsame₂ : m₂.entries = entries ∧ m₂.menu = menu := by
    rw [hrelinked.rest]
    exact ⟨rfl, rfl⟩
  have hnested : m₂.Nested := by
    intro k p c hp hc
    rw [hsame₂.1]
    rw [subject_eq_iff (x := .choice c) (by simp), getElem?_subjects, hsame₂.1] at hc
    have hk : k ∈ Menu.idsAll menu := by
      by_contra hk
      cases (hparent k hk).symm.trans hp
    have hne : k ≠ top := fun h => htop (h ▸ hk)
    obtain ⟨n, hn, hk⟩ :=
      ((Menu.entry top menu).exists_node k (mem_cons_of_mem _ hk)).resolve_left hne
    obtain rfl : n.1 = p := Option.some.inj (((htied n hn).2 k hk).symm.trans hp)
    rcases mem_cons.1 hn with rfl | hn
    · have hfirst := congrArg (·[0]?) hsubjects
      simp only [getElem?_map, Array.getElem?_toList] at hfirst
      cases hfirst.symm.trans hc
    · exact hhanded.toMenu n hn c hc k hk
  have hwell₂ : m₂.WellFormed := by
    rw [hrelinked.rest]
    exact hm.withEntries hsame ..
  have hgathered : Gathered m₂ m₄ := by
    have hentries : Gathered m₂ m₃ := .foldl _ hwell₂ fun k _ m' hm' => .gather hm'.wellFormed k
    exact Menu.gatherAllChoices_induct (fun m' k hm' => hm'.trans (.gatherChoice hm'.wellFormed k)) menu
      hentries
  have hwell := hgathered.wellFormed
  rw [hgathered.rest] at hwell ⊢
  refine ⟨hwell.withUnique .., hnested, ?_, ?_, ⟨hparent top htop, ?_⟩, ⟨?_, ?_⟩, rfl, rfl⟩
  · show Menu.idsAll m₂.menu = range' 1 (m₂.entries.size - 1)
    rw [hsame₂.1, hsame₂.2, hmenu, hsize', Nat.add_sub_cancel]
  · show ∀ n ∈ (Menu.entry top m₂.menu).nodes, m₂.Ties n.1 n.2
    rwa [hsame₂.2]
  · show 0 < m₂.entries.size
    rw [hsame₂.1, hsize']
    exact Nat.succ_pos _
  · show m₂.parents.size = m₂.entries.size
    rw [hsame₂.1, hrelinked.parents_size, hbounds.1]
  · show m₂.children.size = m₂.entries.size
    rw [hsame₂.1, hrelinked.children_size, hbounds.2]

end Buildsmith.Kconfig
