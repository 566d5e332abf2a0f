import Buildsmith.Proofs.Description.Walk

/-!
# Propagated dependencies

Handing dependencies down and gathering them preserves what conditions are worth.  Under any values
of symbols and choices, the conditions of each entry are worth what was written, limited by the
surroundings of the entry, and the conditions of each symbol the greatest of those of its definitions
and of the demands on it (`dependencies_propagate`).

What entries depend on can be stripped off their conditions again (`stripped_conditions_agree`).
-/

namespace Buildsmith.Kconfig

open Buildsmith.Kconfig.Valuation Tristate List Model Entry

/-!
## What entries hang under

An entry is listed below the symbol in front of it if its condition needs the symbol.  Conditions
that name the symbol, or compare it with a constant so that `n` is ruled out, do need it.  But a
comparison `!= y` counts as well, and it holds where the symbol is `n` (`needs_of_hangsUnder`).
-/

variable {m : Model} {v : Valuation} {i : SymbolId} {e : Expr}

theorem Valuation.value_rel {a b : SymbolId} (ha : (m.symbol a).kind.isLogical)
    (hb : (m.symbol b).kind.isLogical) (r : Relation) :
    v.value m (.rel r a b) = .ofBool (r.holds
      (compare ((v.answer (.tristate a)).toNat : Int) (v.answer (.tristate b)).toNat)) := by
  have hstring : (m.symbol a).kind ≠ .string := by
    intro h
    rw [h] at ha
    cases ha
  have hcompare : (v.readers m).compareSymbols a b =
      compare ((v.answer (.tristate a)).toNat : Int) (v.answer (.tristate b)).toNat := by
    simp only [Readers.compareSymbols, Readers.number?, readers, ha, hb, hstring]
    rfl
  exact congrArg (fun o => ofBool (r.holds o)) hcompare

/-- The comparisons that say that a symbol is not `y`. -/
def Expr.saysNotYes (i : SymbolId) (e : Expr) : Prop :=
  e = .rel .unequal i SymbolId.yes ∨ e = .rel .unequal SymbolId.yes i

section

variable (hm : ∀ k ≤ SymbolId.yes, (m.symbol k).kind.isLogical = true)
  (hmod : v.answer (.tristate SymbolId.mod) = .mod) (hi : (m.symbol i).kind.isLogical = true)

include hm hi

theorem saysNotYes_iff (he : e.saysNotYes i) :
    e.hangsUnder (.symbol i) ∧ (v.value m e ≠ .no ↔ v.answer (.tristate i) ≠ .yes) := by
  have hyes := hm _ (Nat.le_refl _)
  have hunequal : ∀ x : Tristate, ∀ y : Int, y = x.toNat →
      (ofBool (Relation.unequal.holds (compare y 2)) ≠ .no ↔ x ≠ .yes) ∧
      (ofBool (Relation.unequal.holds (compare 2 y)) ≠ .no ↔ x ≠ .yes) := by
    rintro x _ rfl
    cases x <;> decide
  rcases he with rfl | rfl
  · rw [value_rel hi hyes, v.yes]
    refine ⟨?_, (hunequal _ _ rfl).1⟩
    by_cases h : SymbolId.yes = i <;> simp [Expr.hangsUnder, Expr.relationNeeds, h]
  · rw [value_rel hyes hi, v.yes]
    exact ⟨by simp [Expr.hangsUnder, Expr.relationNeeds], (hunequal _ _ rfl).2⟩

include hmod

theorem needs_of_relationNeeds {r : Relation} {k : SymbolId} (hr : r = .equal ∨ r = .unequal)
    (hneeds : Expr.relationNeeds r k) (he : e = .rel r i k ∨ e = .rel r k i)
    (hvalue : v.value m e ≠ .no) : v.answer (.tristate i) ≠ .no ∨ e.saysNotYes i := by
  refine (Decidable.em (v.answer (.tristate i) = .no)).symm.imp_right fun hno => ?_
  have hcompared : ∀ x : Tristate, v.answer (.tristate k) = x → k ≤ SymbolId.yes →
      r.holds (compare (0 : Int) x.toNat) ∨ r.holds (compare (x.toNat : Int) 0) := by
    rintro _ rfl hk
    have hof : ∀ b : Bool, ofBool b ≠ .no → b := by decide
    rcases he with rfl | rfl
    · rw [value_rel hi (hm k hk), hno] at hvalue
      exact .inl (hof _ hvalue)
    · rw [value_rel (hm k hk) hi, hno] at hvalue
      exact .inr (hof _ hvalue)
  simp only [Expr.relationNeeds, Bool.or_eq_true, Bool.and_eq_true, decide_eq_true_eq] at hneeds
  rcases hneeds with (⟨rfl, rfl⟩ | rfl) | ⟨rfl, rfl⟩
  · exact absurd (hcompared _ hmod (by decide)) (by decide)
  · rcases hr with rfl | rfl
    · exact absurd (hcompared _ v.yes (by decide)) (by decide)
    · exact he
  · exact absurd (hcompared _ v.no (by decide)) (by decide)

theorem needs_or_saysNotYes (hunder : e.hangsUnder (.symbol i)) (hvalue : v.value m e ≠ .no) :
    v.answer (.tristate i) ≠ .no ∨ ∃ d ∈ e.conjuncts, d.saysNotYes i := by
  induction e with
  | item x =>
    obtain rfl : x = .symbol i := by simpa [Expr.hangsUnder] using hunder
    exact .inl hvalue
  | rel r a b =>
    simp only [Expr.hangsUnder, Item.symbol.injEq] at hunder
    split at hunder
    · rename_i hr
      have hr' : r = .equal ∨ r = .unequal := by simpa using hr
      have hself : Expr.rel r a b ∈ (Expr.rel r a b).conjuncts := mem_singleton_self _
      split at hunder
      · rename_i hb
        exact (needs_of_relationNeeds hm hmod hi hr' hunder (.inr (hb ▸ rfl)) hvalue).imp_right
          fun h => ⟨_, hself, h⟩
      · split at hunder
        · rename_i ha
          exact (needs_of_relationNeeds hm hmod hi hr' hunder (.inl (ha ▸ rfl)) hvalue).imp_right
            fun h => ⟨_, hself, h⟩
        · cases hunder
    · cases hunder
  | and a b iha ihb =>
    -- a conjunction holds only where both parts do, so that either of them may bring the need
    rw [value_and] at hvalue
    have ha : v.value m a ≠ .no := fun h => hvalue (by rw [h, no_min])
    have hb : v.value m b ≠ .no := fun h => hvalue (by rw [h, min_no])
    obtain h | h := Bool.or_eq_true_iff.1 hunder
    · exact (iha h ha).imp_right (.imp fun _ => .imp_left (mem_append_left _))
    · exact (ihb h hb).imp_right (.imp fun _ => .imp_left (mem_append_right _))
  | not | or => cases hunder

end

/-- In a session that is opened, a condition that hangs under a symbol does not hold without it,
unless one of the conditions that are joined in it says that the symbol is not `y`.  That hangs under
the symbol and holds without it. -/
theorem needs_of_hangsUnder {w : Workspace} {o : LoadOptions} {s : Session} {r : Reading}
    (hopen : openSession w o = (.ok s, r)) (v : Valuation)
    (hmod : v.answer (.tristate SymbolId.mod) = .mod) {i : SymbolId}
    (hi : (s.model.symbol i).kind.isLogical = true) (e : Expr) :
    (e.hangsUnder (.symbol i) = true → v.value s.model e ≠ .no →
      v.answer (.tristate i) ≠ .no ∨ ∃ d ∈ e.conjuncts, d.saysNotYes i) ∧
    (e.saysNotYes i → e.hangsUnder (.symbol i) = true ∧
      (v.value s.model e ≠ .no ↔ v.answer (.tristate i) ≠ .yes)) := by
  obtain ⟨hloaded, -⟩ := loaded_of_openSession hopen
  have hm : ∀ k ≤ SymbolId.yes, (s.model.symbol k).kind.isLogical = true := by
    intro k hk
    rw [(hloaded.finished.wellFormed.constants k hk).1]
    rfl
  exact ⟨needs_or_saysNotYes hm hmod hi, saysNotYes_iff hm hi⟩

/-- Values where all but the constants is off. -/
def Valuation.off : Valuation where
  answer
    | .tristate i => if i = SymbolId.yes then .yes else if i = SymbolId.mod then .mod else .no
    | .visibility _ | .mode _ | .choiceVisibility _ => .no
    | .text _ => ""
    | .selection _ => none
    | .assignable _ | .choiceAssignable _ => []
  no := rfl
  yes := rfl

/-- A symbol that is there only if the one in front of it is not `y`. -/
def notYesWorkspace : Workspace :=
  { files := { entries := [(["Kconfig"],
      .file "config A\n\tbool \"a\"\nconfig B\n\tbool \"b\"\n\tdepends on A != y\n".toUTF8)] } }

/-- The second symbol is listed below the first one, and its condition holds where that one is `n`. -/
theorem needs_of_hangsUnder_notYes :
    ∃ s r, openSession notYesWorkspace {} = (.ok s, r) ∧ s.model.parentOf 2 = some 1 ∧
      (s.model.entry 2).dep.hangsUnder (.symbol 4) = true ∧
      Valuation.off.answer (.tristate 4) = .no ∧
      Valuation.off.value s.model (s.model.entry 2).dep ≠ .no := by
  obtain ⟨s, r, hopen, hrun⟩ := exists_of_opensTo notYesWorkspace (fun s =>
      s.model.parentOf 2 == some 1 && (s.model.symbol 4).kind.isLogical &&
      decide ((s.model.entry 2).dep = .rel .unequal 4 SymbolId.yes))
    (by decide +kernel)
  simp only [Bool.and_eq_true, decide_eq_true_eq, beq_iff_eq] at hrun
  obtain ⟨⟨hparent, hi⟩, hdep⟩ := hrun
  obtain ⟨hunder, hholds⟩ :=
    (needs_of_hangsUnder hopen Valuation.off rfl hi (s.model.entry 2).dep).2 (.inl hdep)
  exact ⟨s, r, hopen, hparent, hunder, rfl, hholds.2 (by decide)⟩

/-! ## Propagation -/

variable {os : List Outline} {r : Reading} {x : Tristate} {k : EntryId}

/-- What a line about an entry makes of it. -/
inductive Entry.Adds (m : Model) (e : Entry) : Keyword → List Token → Entry → Prop where
  | depends {ts : List Token} {cond : Expr} : readWholeExpr ts = .ok cond →
    Adds m e .depends (.keyword .on :: ts) { e with dep := e.dep.both cond }
  | default {ts rest : List Token} {value cond : Expr} :
    readExpr false ts = .ok (value, rest) → readIfClause rest = .ok cond →
    Adds m e .default ts { e with defaults := e.defaults ++ [(value, cond)] }
  | range {low high : SymbolId} {rest : List Token} {cond : Expr} : readIfClause rest = .ok cond →
    Adds m e .range (.symbol low :: .symbol high :: rest)
      { e with ranges := e.ranges ++ [(low, high, cond)] }
  | select {i target : SymbolId} {rest : List Token} {cond : Expr} : e.subject = .symbol i →
    (m.symbol target).isConstant = false → readIfClause rest = .ok cond →
    Adds m e .select (.symbol target :: rest) { e with selects := e.selects ++ [(target, cond)] }
  | imply {i target : SymbolId} {rest : List Token} {cond : Expr} : e.subject = .symbol i →
    (m.symbol target).isConstant = false → readIfClause rest = .ok cond →
    Adds m e .imply (.symbol target :: rest) { e with implies := e.implies ++ [(target, cond)] }

theorem Entry.Adds.readProperty {key : Keyword} {ts : List Token} {e : Entry}
    (h : (r.model.entry k).Adds r.model key ts e) (hk : k < r.model.entries.size) :
    ∃ r', runFrom (readProperty k key ts) r = (.ok true, r') ∧ r'.model.entry k = e ∧
      ∀ j ≠ k, r'.model.entry j = r.model.entry j := by
  suffices ∃ f, runFrom (Kconfig.readProperty k key ts) r =
      (.ok true, { r with model := r.model.modifyEntry k f }) ∧ f (r.model.entry k) = e by
    obtain ⟨f, hread, rfl⟩ := this
    refine ⟨_, hread, ?_, fun j hj => ?_⟩
    · show (r.model.modifyEntry k f).entry k = _
      rw [entry_modifyEntry, if_pos ⟨rfl, hk⟩]
    · show (r.model.modifyEntry k f).entry j = _
      rw [entry_modifyEntry, if_neg fun hh => hj hh.1.symm]
  cases h with
  | depends hcond =>
    refine ⟨fun e => { e with dep := e.dep.both _ }, ?_, rfl⟩
    simp only [Kconfig.readProperty, Keyword.kind?, Keyword.defaultKind?, parsed, hcond]
    rfl
  | default hvalue hcond =>
    refine ⟨fun e => { e with defaults := e.defaults ++ [(_, _)] }, ?_, rfl⟩
    simp only [Kconfig.readProperty, Keyword.kind?, Keyword.defaultKind?, readDefault, parsed, hvalue,
      pure_bind, hcond]
    rfl
  | range hcond =>
    refine ⟨fun e => { e with ranges := e.ranges ++ [(_, _, _)] }, ?_, rfl⟩
    simp only [Kconfig.readProperty, Keyword.kind?, Keyword.defaultKind?, parsed, readSymbol,
      pure_bind, hcond]
    rfl
  | select hsubject hconstant hcond =>
    refine ⟨fun e => { e with selects := e.selects ++ [(_, _)] }, ?_, rfl⟩
    simp [Kconfig.readProperty, Keyword.kind?, Keyword.defaultKind?, readTarget, parsed, hcond,
      runFrom_bind, getEntry, hsubject, hconstant]
    rfl
  | imply hsubject hconstant hcond =>
    refine ⟨fun e => { e with implies := e.implies ++ [(_, _)] }, ?_, rfl⟩
    simp [Kconfig.readProperty, Keyword.kind?, Keyword.defaultKind?, readTarget, parsed, hcond,
      runFrom_bind, getEntry, hsubject, hconstant]
    rfl

theorem Reading.Completes.inherited (h : r.Completes os m) {p : EntryId × Surroundings}
    (hp : p ∈ places r os) : m.entry p.1 = (r.model.entry p.1).inherit p.2.base p.2.visibleIf := by
  obtain ⟨hpassed, hids, hsize⟩ := h.passed
  have hlt : p.1 < r.model.entries.size := by
    have hmem := mem_map_of_mem (f := Prod.fst) hp
    rw [hids, mem_range'_1] at hmem
    exact Nat.lt_of_lt_of_le hmem.2 (by omega)
  simp only [entry, Array.getD_eq_getD_getElem?]
  rw [hpassed.inherited p hp, Array.getElem?_eq_getElem hlt]
  rfl

theorem Reading.Completes.limits (h : r.Completes os m) (v : Valuation)
    {p : EntryId × Surroundings} (hp : p ∈ places r os) :
    v.Limits m p.2 (r.model.entry p.1) (m.entry p.1) := by
  rw [h.inherited hp]
  exact v.limits_inherit m p.2 (r.model.entry p.1)

theorem Reading.Completes.exists_place (h : r.Completes os m) (hk : k ∈ m.allEntries) :
    ∃ σ, (k, σ) ∈ places r os := by
  obtain ⟨-, hids, hsize⟩ := h.passed
  have hpassed : k ∈ (places r os).map Prod.fst := by
    rw [hids, ← hsize, ← h.loaded.finished.allEntries_eq]
    exact hk
  obtain ⟨p, hp, rfl⟩ := mem_map.1 hpassed
  exact ⟨p.2, hp⟩

theorem Reading.Completes.sums (h : r.Completes os m) (v : Valuation)
    (hi : i < m.symbols.size) : v.Sums m i (m.allEntries.map m.entry) (m.symbol i) := by
  obtain ⟨ss, hr, -⟩ := h.outlined
  obtain ⟨hentries, hsymbols⟩ := h.tables
  have hi' : i < r.model.symbols.size := by
    rwa [hsymbols, (finish_tables r.model os hr.wellFormed.lt_size).2.1] at hi
  have hproperties := (finish_tables r.model os hi').2.2
  have hentry : (r.model.finish os).entry = m.entry := by
    funext k
    rw [entry, ← hentries, entry]
  have hsymbol : m.symbol i = (r.model.finish os).symbol i := by
    rw [symbol, hsymbols, symbol]
  obtain ⟨n, hn⟩ : ∃ n, m.entries.size = n + 1 := Nat.exists_eq_succ_of_ne_zero
    (Nat.ne_of_gt h.loaded.finished.top.2)
  have hrange : range m.entries.size = top :: m.allEntries := by
    rw [h.loaded.finished.allEntries_eq, hn, range_eq_range']
    rfl
  -- the entry at the top adds nothing
  have htop : (m.entry top).gatherOn i (r.model.symbol i) = r.model.symbol i := by
    rw [gatherOn, h.entry_top]
  have hall : v.Sums m i (m.allEntries.map m.entry)
      ((m.allEntries.map m.entry).foldl (fun x e => e.gatherOn i x) (r.model.symbol i)) :=
    (Valuation.Sums.nil (hr.ungathered i)).foldl (m.allEntries.map m.entry)
  refine hall.of_properties ?_
  rw [hsymbol, hproperties, ← hentries, hentry, hrange, map_cons, foldl_cons, htop]

theorem Tristate.max_eq_no {y : Tristate} : max x y = .no ↔ x = .no ∧ y = .no := by
  cases x <;> cases y <;> decide

theorem Tristate.greatest_ne_no {ts : List Tristate} (hx : x ∈ ts) (hne : x ≠ .no) :
    greatest ts ≠ .no := by
  induction ts with
  | nil => cases hx
  | cons y ts ih =>
    intro hno
    obtain ⟨rfl, hrest⟩ := max_eq_no.1 hno
    exact ih ((mem_cons.1 hx).resolve_left hne) hrest

theorem Reading.Completes.directDep_ne_no (h : r.Completes os m) (v : Valuation)
    (hi : i < m.symbols.size) (hk : k ∈ (m.symbol i).entries) {p : String × Expr}
    (hp : (m.entry k).prompt = some p) (hne : v.value m p.2 ≠ .no) :
    v.value m (m.symbol i).directDep ≠ .no := by
  have hfinished := h.loaded.finished
  rw [hfinished.wellFormed.places i hi, mem_placesIn] at hk
  have hall : k ∈ m.allEntries := by
    rw [hfinished.allEntries_eq, mem_range'_1]
    have hlt : k < m.entries.size := by
      by_contra hge
      rw [entry, Array.getD_eq_getD_getElem?, Array.getElem?_eq_none (Nat.le_of_not_lt hge)] at hk
      cases hk
    have htop : k ≠ top := by
      rintro rfl
      cases hk.symm.trans h.entry_top
    exact ⟨Nat.pos_of_ne_zero htop, Nat.lt_of_lt_of_le hlt (by omega)⟩
  obtain ⟨σ, hplace⟩ := h.exists_place hall
  obtain ⟨hsubject, -, hprompt, -⟩ := h.limits v hplace
  have hdep : v.value m (m.entry k).dep ≠ .no := by
    intro hno
    rw [hp, hno] at hprompt
    cases hwritten : (r.model.entry k).prompt with
    | none =>
      rw [hwritten] at hprompt
      cases hprompt
    | some q =>
      simp only [hwritten, Option.map_some, Option.some.injEq, Prod.mk.injEq] at hprompt
      refine hne (hprompt.2.trans ?_)
      split <;> simp only [min_no]
  rw [(h.sums v hi).directDep]
  refine greatest_ne_no (mem_map.2 ⟨_, ?_, rfl⟩) hdep
  refine mem_map.2 ⟨_, mem_filter.2 ⟨mem_map.2 ⟨_, hall, rfl⟩, ?_⟩, rfl⟩
  exact decide_eq_true hk

/-- Under any values of symbols and choices, what entries depend on in a session that is opened is
what was written around them, and symbols sum up their definitions and the demands on them. -/
theorem dependencies_propagate {w : Workspace} {o : LoadOptions} {s : Session} {r : Reading}
    (hopen : openSession w o = (.ok s, r)) (v : Valuation) :
    (∃ os r₀, runFrom (readRoot o.root) (Reading.start w o) = (.ok os, r₀) ∧
      (Outline.aroundAll r₀.model.entries {} os).map Prod.fst = s.model.allEntries ∧
      ∀ p ∈ Outline.aroundAll r₀.model.entries {} os,
        v.Limits s.model p.2 (r₀.model.entry p.1) (s.model.entry p.1)) ∧
    (∀ i < s.model.symbols.size,
      v.Sums s.model i (s.model.allEntries.map s.model.entry) (s.model.symbol i)) ∧
    (∀ (rest : List Token) (cond : Expr) (k : EntryId) (r₁ : Reading),
      readWholeExpr rest = .ok cond → k < r₁.model.entries.size →
      ∃ r₂, runFrom (readProperty k .depends (.keyword .on :: rest)) r₁ = (.ok true, r₂) ∧
        v.value s.model (r₂.model.entry k).dep =
          min (v.value s.model (r₁.model.entry k).dep) (v.value s.model cond)) ∧
    ∀ (key : Keyword) (ts : List Token) (e : Entry) (k : EntryId) (r₁ : Reading),
      (r₁.model.entry k).Adds r₁.model key ts e → k < r₁.model.entries.size →
      ∃ r₂, runFrom (readProperty k key ts) r₁ = (.ok true, r₂) ∧ r₂.model.entry k = e ∧
        ∀ j ≠ k, r₂.model.entry j = r₁.model.entry j := by
  obtain ⟨⟨os, r₀, hread, hcompletes⟩, -⟩ := completes_of_openSession hopen
  refine ⟨⟨os, r₀, hread, ?_, fun p hp => hcompletes.limits v hp⟩,
    fun i hi => hcompletes.sums v hi, fun rest cond k r₁ hcond hk => ?_,
    fun key ts e k r₁ hadds hk => hadds.readProperty hk⟩
  · obtain ⟨-, hids, hsize⟩ := hcompletes.passed
    rw [hcompletes.loaded.finished.allEntries_eq, hsize]
    exact hids
  · obtain ⟨r₂, hread, hentry, -⟩ := (Entry.Adds.depends hcond).readProperty hk
    exact ⟨r₂, hread, by rw [hentry, value_both]⟩

/-- The first symbol, which is defined again in a menu inside a block, is worth the greater of what
its two definitions depend on, and the second one is limited by the menu and the block. -/
theorem dependencies_nestedMenu :
    ∃ s r, openSession nestedWorkspace {} = (.ok s, r) ∧ ∀ v : Valuation,
      v.value s.model (s.model.symbol 4).directDep =
        max (v.value s.model (s.model.entry 1).dep) (v.value s.model (s.model.entry 5).dep) ∧
      ∃ os r₀, runFrom (readRoot "Kconfig") (Reading.start nestedWorkspace {}) = (.ok os, r₀) ∧
        (r₀.model.entry 5).dep = .yes ∧ v.Limits s.model
          { conds := [.yes, .symbol 4], visible := [.yes] } (r₀.model.entry 5) (s.model.entry 5) := by
  obtain ⟨s, r, hopen, hrun⟩ := exists_of_opensTo nestedWorkspace (fun s =>
      decide (4 < s.model.symbols.size) && s.model.allEntries == [1, 2, 3, 4, 5, 6, 7] &&
      decide (s.model.subjects = [.menu, .symbol 4, .symbol 5, .symbol 6, .menu, .symbol 4,
        .choice 0, .symbol 7]))
    (by decide +kernel)
  simp only [Bool.and_eq_true, decide_eq_true_eq, beq_iff_eq] at hrun
  obtain ⟨⟨hsize, hall⟩, hsubjects⟩ := hrun
  have hfifth : (let x := runFrom (readRoot "Kconfig") (Reading.start nestedWorkspace {})
      x.1.toOption.any fun os => decide ((x.2.model.entry 5).dep = .yes) &&
        (Outline.aroundAll x.2.model.entries {} os).any fun p =>
          p.1 == 5 && p.2.conds == [.yes, .symbol 4] && p.2.visible == [.yes]) = true := by
    decide +kernel
  refine ⟨s, r, hopen, fun v => ?_⟩
  obtain ⟨⟨os, r₀, hread, -, hlimits⟩, hsums, -⟩ := dependencies_propagate hopen v
  have hsubject : ∀ k x, s.model.subjects[k]? = some x → (s.model.entry k).subject = x := by
    intro k x hx
    rw [Model.getElem?_subjects] at hx
    rw [Model.entry, Array.getD_eq_getD_getElem?]
    cases hentry : s.model.entries[k]? with
    | none => simp [hentry] at hx
    | some e => simpa [hentry] using hx
  constructor
  · rw [(hsums 4 hsize).directDep, hall]
    rw [hsubjects] at hsubject
    have hdefines : ([1, 2, 3, 4, 5, 6, 7].map s.model.entry).filter (·.subject = .symbol 4) =
        [s.model.entry 1, s.model.entry 5] := by
      simp [hsubject 1 _ rfl, hsubject 2 _ rfl, hsubject 3 _ rfl, hsubject 4 _ rfl,
        hsubject 5 _ rfl, hsubject 6 _ rfl, hsubject 7 _ rfl]
    rw [hdefines]
    exact congrArg _ (Tristate.max_no _)
  · dsimp only at hfifth
    rw [show runFrom (readRoot "Kconfig") (Reading.start nestedWorkspace {}) = _ from hread] at hfifth
    simp only [Except.toOption, Option.any_some, Bool.and_eq_true, decide_eq_true_eq, any_eq_true,
      beq_iff_eq] at hfifth
    obtain ⟨hdep, ⟨k, conds, visible⟩, hplace, ⟨rfl, rfl⟩, rfl⟩ := hfifth
    exact ⟨os, r₀, hread, hdep, hlimits _ hplace⟩

/-! ## Stripping -/

theorem Valuation.value_stripDep {v : Valuation} {c dep : Expr}
    (h : min (v.value m c) (v.value m dep) = v.value m c) :
    min (v.value m (c.stripDep dep)) (v.value m dep) = v.value m c := by
  unfold Expr.stripDep
  split
  · rename_i hself
    rw [← hself, value_yes, yes_min]
  · split
    · split
      · rename_i hlast
        rw [value_and, hlast]
      · exact h
    · exact h

theorem Tristate.min_self (t : Tristate) : min t t = t := by cases t <;> rfl

theorem Valuation.value_stripDep_both (v : Valuation) (c dep : Expr) :
    min (v.value m ((c.both dep).stripDep dep)) (v.value m dep) = v.value m (c.both dep) := by
  refine v.value_stripDep ?_
  rw [value_both, min_assoc, min_self]

/-- Whether the properties that are shown of an entry, limited by what the entry depends on, have the
conditions that are stored. -/
structure Valuation.Restates (v : Valuation) (m : Model) (e : Entry) : Prop where
  defaults : (e.writtenDefaults.map fun d => (d.1, min (v.value m d.2) (v.value m e.dep))) =
    e.defaults.map fun d => (d.1, v.value m d.2)
  selects : (e.writtenSelects.map fun d => (d.1, min (v.value m d.2) (v.value m e.dep))) =
    e.selects.map fun d => (d.1, v.value m d.2)
  implies : (e.writtenImplies.map fun d => (d.1, min (v.value m d.2) (v.value m e.dep))) =
    e.implies.map fun d => (d.1, v.value m d.2)
  ranges : (e.writtenRanges.map fun d => (d.1, d.2.1, min (v.value m d.2.2) (v.value m e.dep))) =
    e.ranges.map fun d => (d.1, d.2.1, v.value m d.2.2)

theorem Valuation.restates_inherit (v : Valuation) (m : Model) (base visibleIf : Expr) {e : Entry}
    (he : e.subject.item?.isSome) : v.Restates m (e.inherit base visibleIf) := by
  unfold inherit
  cases hsubject : e.subject with
  | symbol _ | choice _ =>
    constructor <;>
      simp [writtenDefaults, writtenSelects, writtenImplies, writtenRanges,
        v.value_stripDep_both, -value_both]
  | menu | comment => simp [hsubject, Subject.item?] at he

theorem Valuation.writtenPrompt_inherit (v : Valuation) (m : Model) (base visibleIf : Expr)
    (e : Entry) : (e.inherit base visibleIf).writtenPrompt.map (fun p =>
        (p.1, min (v.value m p.2) (v.value m (e.inherit base visibleIf).dep))) =
      (e.inherit base visibleIf).prompt.map fun p => (p.1, v.value m p.2) := by
  have hlimited : ∀ c dep : Expr, min (v.value m (c.both (visibleIf.both dep))) (v.value m dep) =
      v.value m (c.both (visibleIf.both dep)) := by
    intro c dep
    rw [value_both, value_both, min_assoc, min_assoc, min_self]
  unfold inherit writtenPrompt
  cases e.subject <;> cases e.prompt <;>
    simp [v.value_stripDep_both, v.value_stripDep (hlimited _ _), -value_both]

/-- In a session that is opened, the conditions of an entry without what the entry depends on are,
limited by it, worth what is stored; but a menu or comment keeps the conditions of defaults and ranges
that were written for it. -/
theorem stripped_conditions_agree {w : Workspace} {o : LoadOptions} {s : Session} {r : Reading}
    (hopen : openSession w o = (.ok s, r)) (v : Valuation) (hk : k ∈ s.model.allEntries) :
    ((s.model.entry k).writtenPrompt.map fun p =>
        (p.1, min (v.value s.model p.2) (v.value s.model (s.model.entry k).dep))) =
      ((s.model.entry k).prompt.map fun p => (p.1, v.value s.model p.2)) ∧
    ((s.model.entry k).subject.item?.isSome → v.Restates s.model (s.model.entry k)) ∧
    ∃ os r₀, runFrom (readRoot o.root) (Reading.start w o) = (.ok os, r₀) ∧
      ((s.model.entry k).subject.item? = none →
        (s.model.entry k).defaults = (r₀.model.entry k).defaults ∧
        (s.model.entry k).ranges = (r₀.model.entry k).ranges) := by
  obtain ⟨⟨os, r₀, hread, hcompletes⟩, -⟩ := completes_of_openSession hopen
  obtain ⟨σ, hplace⟩ := hcompletes.exists_place hk
  rw [hcompletes.inherited hplace]
  refine ⟨v.writtenPrompt_inherit s.model σ.base σ.visibleIf _, fun hitem => ?_, os, r₀, hread, ?_⟩
  · rw [subject_inherit] at hitem
    exact v.restates_inherit s.model σ.base σ.visibleIf hitem
  · intro hitem
    rw [subject_inherit] at hitem
    obtain ⟨hdefaults, hranges, -⟩ := (v.limits_inherit s.model σ _).kept hitem
    exact ⟨hdefaults, hranges⟩

/-- The condition of the second symbol is shown apart from its prompt. -/
theorem stripped_conditions_notYes :
    ∃ s r, openSession notYesWorkspace {} = (.ok s, r) ∧
      (s.model.entry 2).writtenPrompt = some ("b", .yes) ∧
      ∀ v : Valuation, v.Restates s.model (s.model.entry 2) ∧
        (s.model.entry 2).prompt.map (fun p => (p.1, v.value s.model p.2)) =
          some ("b", v.value s.model (s.model.entry 2).dep) := by
  obtain ⟨s, r, hopen, hrun⟩ := exists_of_opensTo notYesWorkspace (fun s =>
      s.model.allEntries.contains 2 && (s.model.entry 2).subject.item?.isSome &&
      decide ((s.model.entry 2).writtenPrompt = some ("b", .yes)))
    (by decide +kernel)
  simp only [Bool.and_eq_true, decide_eq_true_eq, List.contains_iff_mem] at hrun
  obtain ⟨⟨hmem, hitem⟩, hwritten⟩ := hrun
  refine ⟨s, r, hopen, hwritten, fun v => ?_⟩
  obtain ⟨hprompt, hrestates, -⟩ := stripped_conditions_agree hopen v hmem
  refine ⟨hrestates hitem, hprompt.symm.trans ?_⟩
  rw [hwritten, Option.map_some, Valuation.value_yes, Tristate.yes_min]

end Buildsmith.Kconfig
