import Buildsmith.Proofs.Description.Finishing

/-!
# Gathered properties

Properties are gathered entry by entry.  Seen from one symbol, each entry adds what it defines of the
symbol and what it demands of it (`Model.symbol_foldl_gather`).  So lists are joined in the order of
the definitions, and conditions become worth the greatest of those they are joined from
(`Valuation.sums_foldl`).
-/

namespace Buildsmith.Kconfig

open List Tristate Entry

/-!
## What conditions mean after they are handed down

Conditions are joined by constructors that drop constants.  Under any values of symbols and choices
the joined condition is worth the least, or the greatest, of its parts (`Valuation.value_both`,
`Valuation.value_either`).

What an entry inherits from its surroundings limits its own conditions (`Valuation.limits_inherit`).
-/

/-! ## Least and greatest values -/

namespace Tristate

/-- The least of some values; `y` if there are none. -/
def least (ts : List Tristate) : Tristate := ts.foldr min .yes

/-- The greatest of some values; `n` if there are none. -/
def greatest (ts : List Tristate) : Tristate := ts.foldr max .no

variable (a : Tristate)

theorem yes_min : min .yes a = a := by cases a <;> rfl

theorem min_yes : min a .yes = a := by cases a <;> rfl

theorem no_min : min .no a = .no := by cases a <;> rfl

theorem min_no : min a .no = .no := by cases a <;> rfl

theorem no_max : max .no a = a := by cases a <;> rfl

theorem max_no : max a .no = a := by cases a <;> rfl

theorem yes_max : max .yes a = .yes := by cases a <;> rfl

theorem max_yes : max a .yes = .yes := by cases a <;> rfl

theorem min_assoc (a b c : Tristate) : min (min a b) c = min a (min b c) := by
  cases a <;> cases b <;> cases c <;> rfl

theorem max_assoc (a b c : Tristate) : max (max a b) c = max a (max b c) := by
  cases a <;> cases b <;> cases c <;> rfl

theorem greatest_append (ts us : List Tristate) :
    greatest (ts ++ us) = max (greatest ts) (greatest us) := by
  induction ts with
  | nil => exact (no_max _).symm
  | cons t ts ih =>
    show max t (greatest (ts ++ us)) = max (max t (greatest ts)) (greatest us)
    rw [ih, max_assoc]

end Tristate

/-! ## Values of joined conditions -/

/-- Values of all that conditions can refer to. -/
structure Valuation where
  answer : (q : Query) → q.Answer
  no : answer (.tristate SymbolId.no) = .no
  yes : answer (.tristate SymbolId.yes) = .yes

namespace Valuation

variable (v : Valuation) (m : Model)

def readers : Readers Id where
  model := m
  ask := v.answer
  user _ := none
  userMode _ := none
  userSelection _ := none
  setWritten _ := ()
  warn _ := ()

def value (e : Expr) : Tristate := (v.readers m).value e

@[simp]
theorem value_no : v.value m .no = .no := v.no

@[simp]
theorem value_yes : v.value m .yes = .yes := v.yes

theorem value_and (a b : Expr) : v.value m (.and a b) = min (v.value m a) (v.value m b) := by
  show (if v.value m a = .no then .no else min (v.value m a) (v.value m b)) = _
  split
  · rename_i ha
    rw [ha, no_min]
  · rfl

theorem value_or (a b : Expr) : v.value m (.or a b) = max (v.value m a) (v.value m b) := by
  show (if v.value m a = .yes then .yes else max (v.value m a) (v.value m b)) = _
  split
  · rename_i ha
    rw [ha, yes_max]
  · rfl

/-- Joining conditions is taking the minimum. -/
@[simp]
theorem value_both (a b : Expr) : v.value m (a.both b) = min (v.value m a) (v.value m b) := by
  unfold Expr.both
  split
  · rename_i ha
    rw [ha, value_yes, yes_min]
  split
  · rename_i hb
    rw [hb, value_yes, min_yes]
  split
  · rename_i hno
    rcases (by simpa using hno) with rfl | rfl
    · rw [value_no, no_min]
    · rw [value_no, min_no]
  · exact v.value_and m a b

/-- Joining alternatives is taking the maximum. -/
@[simp]
theorem value_either (a b : Expr) : v.value m (a.either b) = max (v.value m a) (v.value m b) := by
  unfold Expr.either
  split
  · rename_i ha
    rw [ha, value_no, no_max]
  split
  · rename_i hb
    rw [hb, value_no, max_no]
  split
  · rename_i hyes
    rcases (by simpa using hyes) with rfl | rfl
    · rw [value_yes, yes_max]
    · rw [value_yes, max_yes]
  · exact v.value_or m a b

/-- The least value of some conditions. -/
def least (es : List Expr) : Tristate := Tristate.least (es.map (v.value m))

def greatest (es : List Expr) : Tristate := Tristate.greatest (es.map (v.value m))

theorem value_foldr_both (es : List Expr) : v.value m (es.foldr Expr.both .yes) = v.least m es := by
  induction es with
  | nil => exact v.value_yes m
  | cons e es ih => rw [foldr_cons, value_both, ih]; rfl

theorem value_foldl_both (e : Expr) (es : List Expr) :
    v.value m (es.foldl Expr.both e) = min (v.value m e) (v.least m es) := by
  induction es generalizing e with
  | nil => exact (min_yes _).symm
  | cons e' es ih =>
    rw [foldl_cons, ih, value_both, min_assoc]
    rfl

end Valuation

/-! ## What an entry is worth -/

/-- Whether the conditions of an entry are worth what was written, limited by its surroundings. -/
structure Valuation.Limits (v : Valuation) (m : Model) (σ : Surroundings) (e e' : Entry) : Prop where
  subject : e'.subject = e.subject
  dep : v.value m e'.dep = min (v.value m e.dep) (v.least m σ.conds)
  /-- The prompt of an item is limited also by the menus around it. -/
  prompt : e'.prompt.map (fun p => (p.1, v.value m p.2)) = e.prompt.map fun p =>
    (p.1, min (v.value m p.2)
      (if e.subject.item?.isSome then min (v.least m σ.visible) (v.value m e'.dep)
        else v.value m e'.dep))
  properties : e.subject.item?.isSome →
    (e'.defaults.map fun d => (d.1, v.value m d.2)) =
      (e.defaults.map fun d => (d.1, min (v.value m d.2) (v.value m e'.dep))) ∧
    (e'.ranges.map fun d => (d.1, d.2.1, v.value m d.2.2)) =
      (e.ranges.map fun d => (d.1, d.2.1, min (v.value m d.2.2) (v.value m e'.dep))) ∧
    (e'.selects.map fun d => (d.1, v.value m d.2)) =
      (e.selects.map fun d => (d.1, min (v.value m d.2) (v.value m e'.dep))) ∧
    (e'.implies.map fun d => (d.1, v.value m d.2)) =
      (e.implies.map fun d => (d.1, min (v.value m d.2) (v.value m e'.dep)))
  /-- Menus and comments keep what was written for them. -/
  kept : e.subject.item? = none → e'.defaults = e.defaults ∧ e'.ranges = e.ranges ∧
    e'.selects = e.selects ∧ e'.implies = e.implies

theorem Valuation.limits_inherit (v : Valuation) (m : Model) (σ : Surroundings) (e : Entry) :
    v.Limits m σ e (e.inherit σ.base σ.visibleIf) := by
  have hdep : v.value m (e.dep.both σ.base) = min (v.value m e.dep) (v.least m σ.conds) := by
    rw [value_both, Surroundings.base, value_foldr_both]
  have hvisible : v.value m σ.visibleIf = v.least m σ.visible := by
    rw [Surroundings.visibleIf, value_foldl_both, value_yes, yes_min]
  refine ⟨subject_inherit .., ?_, ?_, ?_, ?_⟩
  · rw [dep_inherit, hdep]
  · rw [dep_inherit]
    unfold inherit
    cases e.subject <;> cases e.prompt <;> simp [Subject.item?, hvisible]
  · intro hitem
    unfold inherit
    cases hsubject : e.subject with
    | symbol i | choice c => simp [Function.comp_def]
    | menu | comment => simp [hsubject, Subject.item?] at hitem
  · intro hitem
    unfold inherit
    cases hsubject : e.subject with
    | symbol i | choice c => simp [hsubject, Subject.item?] at hitem
    | menu | comment => simp

/-! ## Gathering -/

/-! ## One symbol -/

/-- What an entry that defines the symbol `s` adds to the symbol `i`. -/
def Entry.addTo (i s : SymbolId) (e : Entry) (x : Symbol) : Symbol :=
  let x := if s = i then
    { x with
      directDep := x.directDep.either e.dep
      defaults := x.defaults ++ e.defaults
      ranges := x.ranges ++ e.ranges
      selects := x.selects ++ e.selects
      implies := x.implies ++ e.implies }
    else x
  let x := (e.selects.filter (·.1 = i)).foldl
    (fun x t => { x with reverseDep := x.reverseDep.either ((Expr.symbol s).both t.2) }) x
  (e.implies.filter (·.1 = i)).foldl
    (fun x t => { x with weakReverseDep := x.weakReverseDep.either ((Expr.symbol s).both t.2) }) x

variable (g : SymbolId × Expr → Expr) (ts : List (SymbolId × Expr)) (x : Symbol)

theorem foldl_reverseDep :
    ts.foldl (fun x t => { x with reverseDep := x.reverseDep.either (g t) }) x =
      { x with reverseDep := ts.foldl (fun d t => d.either (g t)) x.reverseDep } := by
  induction ts generalizing x with
  | nil => rfl
  | cons t ts ih => exact ih _

theorem foldl_weakReverseDep :
    ts.foldl (fun x t => { x with weakReverseDep := x.weakReverseDep.either (g t) }) x =
      { x with weakReverseDep := ts.foldl (fun d t => d.either (g t)) x.weakReverseDep } := by
  induction ts generalizing x with
  | nil => rfl
  | cons t ts ih => exact ih _

def Entry.gatherOn (i : SymbolId) (e : Entry) (x : Symbol) : Symbol :=
  match e.subject with
  | .symbol s => e.addTo i s x
  | _ => x

namespace Model

variable {m : Model}

/-- Whether the table of symbols has kept its size and the entries are the same. -/
def SameTables (m m' : Model) : Prop :=
  m'.symbols.size = m.symbols.size ∧ m'.entries = m.entries

theorem SameTables.refl (m : Model) : SameTables m m := ⟨rfl, rfl⟩

theorem SameTables.trans {m' m'' : Model} (h : SameTables m m') (h' : SameTables m' m'') :
    SameTables m m'' :=
  ⟨h'.1.trans h.1, h'.2.trans h.2⟩

theorem sameTables_modifySymbol (i : SymbolId) (f : Symbol → Symbol) :
    SameTables m (m.modifySymbol i f) := by
  constructor
  · simp [modifySymbol]
  · rfl

theorem symbol_foldl_modifySymbol
    {α : Type} (f : α → Symbol → Symbol) (xs : List (SymbolId × α)) {i : SymbolId}
    (hi : i < m.symbols.size) : SameTables m (xs.foldl (fun m t => m.modifySymbol t.1 (f t.2)) m) ∧
    (xs.foldl (fun m t => m.modifySymbol t.1 (f t.2)) m).symbol i =
      (xs.filter (·.1 = i)).foldl (fun x t => f t.2 x) (m.symbol i) := by
  induction xs generalizing m with
  | nil => exact ⟨.refl _, rfl⟩
  | cons t ts ih =>
    have hstep := sameTables_modifySymbol (m := m) t.1 (f t.2)
    obtain ⟨hrest, hsymbol⟩ := ih (m := m.modifySymbol t.1 (f t.2)) (hstep.1 ▸ hi)
    refine ⟨hstep.trans hrest, ?_⟩
    rw [foldl_cons, hsymbol, symbol_modifySymbol]
    by_cases ht : t.1 = i
    · simp [ht, hi]
    · simp [ht]

theorem symbol_gather (k : EntryId) {i : SymbolId} (hi : i < m.symbols.size) :
    SameTables m (m.gather k) ∧ (m.gather k).symbol i = (m.entry k).gatherOn i (m.symbol i) := by
  unfold gather gatherOn
  dsimp only
  cases hsubject : (m.entry k).subject with
  | symbol s =>
    dsimp only
    generalize m.entry k = e
    have hown := sameTables_modifySymbol (m := m) s fun x =>
      { x with
        directDep := x.directDep.either e.dep
        defaults := x.defaults ++ e.defaults
        ranges := x.ranges ++ e.ranges
        selects := x.selects ++ e.selects
        implies := x.implies ++ e.implies }
    obtain ⟨hselects, hselected⟩ := symbol_foldl_modifySymbol
      (fun cond x => { x with reverseDep := x.reverseDep.either ((Expr.symbol s).both cond) })
      e.selects (hown.1 ▸ hi)
    obtain ⟨himplies, himplied⟩ := symbol_foldl_modifySymbol
      (fun cond x => { x with weakReverseDep := x.weakReverseDep.either ((Expr.symbol s).both cond) })
      e.implies (hselects.1 ▸ hown.1 ▸ hi)
    refine ⟨hown.trans (hselects.trans himplies), himplied.trans ?_⟩
    rw [hselected, symbol_modifySymbol, addTo]
    by_cases hs : s = i
    · simp [hi]
    · simp [hs]
  | choice c | menu | comment => exact ⟨.refl _, rfl⟩

/-- Seen from one symbol, gathering goes over the entries one by one. -/
theorem symbol_foldl_gather (ks : List EntryId) {i : SymbolId} (hi : i < m.symbols.size) :
    SameTables m (ks.foldl (fun m k => m.gather k) m) ∧
    (ks.foldl (fun m k => m.gather k) m).symbol i =
      (ks.map m.entry).foldl (fun x e => e.gatherOn i x) (m.symbol i) := by
  induction ks generalizing m with
  | nil => exact ⟨.refl _, rfl⟩
  | cons k ks ih =>
    obtain ⟨hsame, hsymbol⟩ := symbol_gather (m := m) k hi
    have hentry : (m.gather k).entry = m.entry := by
      funext l
      rw [entry, hsame.2, entry]
    obtain ⟨hrest, hsymbols⟩ := ih (hsame.1 ▸ hi)
    refine ⟨hsame.trans hrest, ?_⟩
    rw [foldl_cons, hsymbols, hentry, hsymbol]
    rfl

/-! ## Choices -/

/-- Whether the properties of symbols are the same. -/
structure SameProperties (m m' : Model) : Prop where
  tables : SameTables m m'
  properties : ∀ i, (m'.symbol i).properties = (m.symbol i).properties

namespace SameProperties

theorem refl (m : Model) : SameProperties m m := ⟨.refl m, fun _ => rfl⟩

theorem trans {m' m'' : Model} (h : SameProperties m m') (h' : SameProperties m' m'') :
    SameProperties m m'' :=
  ⟨h.tables.trans h'.tables, fun i => (h'.properties i).trans (h.properties i)⟩

theorem modifyChoice (c : ChoiceId) (f : Choice → Choice) :
    SameProperties m (m.modifyChoice c f) := ⟨⟨rfl, rfl⟩, fun _ => rfl⟩

theorem foldl_modifySymbol
    (is : List SymbolId) {f : Symbol → Symbol} (hf : ∀ x, (f x).properties = x.properties) :
    SameProperties m (is.foldl (fun m i => m.modifySymbol i f) m) := by
  refine List.foldlRecOn is _ (motive := SameProperties m) (refl m) fun m' hm' i _ => ?_
  refine hm'.trans ⟨sameTables_modifySymbol i f, fun j => ?_⟩
  rw [symbol_modifySymbol]
  split
  · exact hf _
  · rfl

theorem gatherChoice (k : EntryId) : SameProperties m (m.gatherChoice k) := by
  unfold Model.gatherChoice
  extract_lets e below
  split
  · rename_i c hc
    extract_lets m₁ m₂ kindOf m₃ kind
    have hadd : SameProperties m m₁ := modifyChoice c _
    have hbelow : SameProperties m₁ m₂ := foldl_modifySymbol below fun _ => rfl
    have hkind : SameProperties m₂ m₃ := by
      unfold m₃
      split
      · split
        · exact modifyChoice c _
        · exact refl m₂
      · exact refl m₂
    have hshared := foldl_modifySymbol (m := m₃) (m₃.choice c).symbols
      (f := fun x => if x.kind = .unknown then { x with kind } else x) fun x => by
        split <;> rfl
    exact ((hadd.trans hbelow).trans hkind).trans hshared
  · exact refl m

end SameProperties

end Model

/-! ## The finished model -/

theorem Model.finish_tables (m : Model) (os : List Outline) {i : SymbolId}
    (hi : i < m.symbols.size) :
    (m.finish os).entries = (Outline.inheritAll .yes .yes m.entries os).1 ∧
    (m.finish os).symbols.size = m.symbols.size ∧ ((m.finish os).symbol i).properties =
      (((List.range (m.finish os).entries.size).map (m.finish os).entry).foldl
        (fun x e => e.gatherOn i x) (m.symbol i)).properties := by
  unfold Model.finish
  split
  rename_i entries os' hinherit
  rw [hinherit]
  extract_lets menu m₁ m₂ m₃ m₄
  have hlinked : Relinked (Menu.idsAll menu) m₁ m₂ := Menu.relinked_linkAll menu top m₁
  obtain ⟨hsymbols₂, hentries₂⟩ : m₂.symbols = m.symbols ∧ m₂.entries = entries := by
    rw [hlinked.rest]
    exact ⟨rfl, rfl⟩
  have hi₂ : i < m₂.symbols.size := hsymbols₂ ▸ hi
  obtain ⟨htables, hsymbol⟩ := Model.symbol_foldl_gather (List.range m₂.entries.size) hi₂
  have hchoices : m₃.SameProperties m₄ := Menu.gatherAllChoices_induct
    (fun m' k hm' => hm'.trans (.gatherChoice k)) menu (.refl m₃)
  have hentries : m₄.entries = m₂.entries := hchoices.tables.2.trans htables.2
  have hentry : m₄.entry = m₂.entry := by
    funext k
    rw [Model.entry, hentries, Model.entry]
  refine ⟨hentries.trans hentries₂, ?_, ?_⟩
  · exact (hchoices.tables.1.trans htables.1).trans (congrArg Array.size hsymbols₂)
  · have hold : m₂.symbol i = m.symbol i := by
      rw [Model.symbol, hsymbols₂, Model.symbol]
    show (m₄.symbol i).properties = (((List.range m₄.entries.size).map m₄.entry).foldl
      (fun x e => e.gatherOn i x) (m.symbol i)).properties
    rw [hchoices.properties i, hsymbol, hentry, hentries, hold]

/-! ## What a symbol is worth -/

namespace Valuation

variable (v : Valuation) (m : Model)

/-- What an entry demands of the symbol `i` by its `select` or `imply` properties: the value of its
own symbol, limited by the condition. -/
def demands (targets : Entry → List (SymbolId × Expr)) (i : SymbolId) (e : Entry) : List Tristate :=
  match e.subject with
  | .symbol s => ((targets e).filter (·.1 = i)).map fun t =>
    min (v.value m (.symbol s)) (v.value m t.2)
  | _ => []

/-- Whether the properties of a symbol are those of its definitions among some entries, in order,
and its demands are all that these entries make. -/
structure Sums (i : SymbolId) (es : List Entry) (x : Symbol) : Prop where
  defaults : x.defaults = (es.filter (·.subject = .symbol i)).flatMap defaults
  ranges : x.ranges = (es.filter (·.subject = .symbol i)).flatMap Entry.ranges
  selects : x.selects = (es.filter (·.subject = .symbol i)).flatMap selects
  implies : x.implies = (es.filter (·.subject = .symbol i)).flatMap implies
  directDep : v.value m x.directDep =
    v.greatest m ((es.filter (·.subject = .symbol i)).map dep)
  reverseDep : v.value m x.reverseDep =
    Tristate.greatest (es.flatMap (v.demands m Entry.selects i))
  weakReverseDep : v.value m x.weakReverseDep =
    Tristate.greatest (es.flatMap (v.demands m Entry.implies i))

variable {v m} {i : SymbolId} {es : List Entry} {x : Symbol}

theorem Sums.of_properties {y : Symbol} (h : v.Sums m i es x) (hy : y.properties = x.properties) :
    v.Sums m i es y := by
  simp only [Symbol.properties, Prod.mk.injEq] at hy
  obtain ⟨hdefaults, hranges, hselects, himplies, hdirect, hreverse, hweak⟩ := hy
  refine ⟨?_, ?_, ?_, ?_, ?_, ?_, ?_⟩
  · rw [hdefaults, h.defaults]
  · rw [hranges, h.ranges]
  · rw [hselects, h.selects]
  · rw [himplies, h.implies]
  · rw [hdirect, h.directDep]
  · rw [hreverse, h.reverseDep]
  · rw [hweak, h.weakReverseDep]

theorem Sums.nil (hx : x.properties = ([], [], [], [], .no, .no, .no)) : v.Sums m i [] x := by
  simp only [Symbol.properties, Prod.mk.injEq] at hx
  obtain ⟨hdefaults, hranges, hselects, himplies, hdirect, hreverse, hweak⟩ := hx
  refine ⟨hdefaults, hranges, hselects, himplies, ?_, ?_, ?_⟩
  · rw [hdirect]
    exact v.value_no m
  · rw [hreverse]
    exact v.value_no m
  · rw [hweak]
    exact v.value_no m

theorem value_foldl_either (e : Expr) (ts : List (SymbolId × Expr)) (s : SymbolId) :
    v.value m (ts.foldl (fun d t => d.either ((Expr.symbol s).both t.2)) e) =
      max (v.value m e) (Tristate.greatest
        (ts.map fun t => min (v.value m (.symbol s)) (v.value m t.2))) := by
  induction ts generalizing e with
  | nil => exact (Tristate.max_no _).symm
  | cons t ts ih =>
    rw [foldl_cons, ih, value_either, value_both, Tristate.max_assoc]
    rfl

theorem greatest_concat (ts us : List Expr) :
    v.greatest m (ts ++ us) = max (v.greatest m ts) (v.greatest m us) := by
  rw [greatest, map_append, greatest_append]
  rfl

theorem Sums.addTo (h : v.Sums m i es x) {e : Entry} {s : SymbolId} (he : e.subject = .symbol s) :
    v.Sums m i (es ++ [e]) (e.addTo i s x) := by
  have hdefines : (es ++ [e]).filter (·.subject = .symbol i) =
      es.filter (·.subject = .symbol i) ++ if s = i then [e] else [] := by
    by_cases hs : s = i <;> simp [he, hs]
  have hdemands : ∀ targets : Entry → List (SymbolId × Expr),
      (es ++ [e]).flatMap (v.demands m targets i) = es.flatMap (v.demands m targets i) ++
        ((targets e).filter (·.1 = i)).map fun t =>
          min (v.value m (.symbol s)) (v.value m t.2) := by
    intro targets
    rw [flatMap_append, flatMap_singleton, demands, he]
  unfold Entry.addTo
  dsimp only
  rw [foldl_reverseDep, foldl_weakReverseDep]
  refine ⟨?_, ?_, ?_, ?_, ?_, ?_, ?_⟩
  · rw [hdefines, flatMap_append, ← h.defaults]
    by_cases hs : s = i <;> simp [hs]
  · rw [hdefines, flatMap_append, ← h.ranges]
    by_cases hs : s = i <;> simp [hs]
  · rw [hdefines, flatMap_append, ← h.selects]
    by_cases hs : s = i <;> simp [hs]
  · rw [hdefines, flatMap_append, ← h.implies]
    by_cases hs : s = i <;> simp [hs]
  · rw [hdefines, map_append, greatest_concat, ← h.directDep]
    by_cases hs : s = i
    · simp only [hs, if_true, value_either]
      exact congrArg _ (max_no _).symm
    · simp only [hs]
      exact (max_no _).symm
  · rw [hdemands, Tristate.greatest_append, ← h.reverseDep, value_foldl_either]
    by_cases hs : s = i <;> simp [hs]
  · rw [hdemands, Tristate.greatest_append, ← h.weakReverseDep, value_foldl_either]
    by_cases hs : s = i <;> simp [hs]

theorem Sums.gatherOn (h : v.Sums m i es x) (e : Entry) : v.Sums m i (es ++ [e]) (e.gatherOn i x) := by
  unfold Entry.gatherOn
  split
  · rename_i s hs
    exact h.addTo hs
  · rename_i hnone
    -- an entry that defines no symbol adds nothing and demands nothing
    have hdefines : (es ++ [e]).filter (·.subject = .symbol i) =
        es.filter (·.subject = .symbol i) := by
      have hne : e.subject ≠ .symbol i := hnone i
      simp [hne]
    have hdemands : ∀ targets : Entry → List (SymbolId × Expr),
        (es ++ [e]).flatMap (v.demands m targets i) = es.flatMap (v.demands m targets i) := by
      intro targets
      have hno : v.demands m targets i e = [] := by
        unfold demands
        split
        · rename_i s hs
          exact absurd hs (hnone s)
        · rfl
      rw [flatMap_append, flatMap_singleton, hno, append_nil]
    exact
      { defaults := hdefines ▸ h.defaults
        ranges := hdefines ▸ h.ranges
        selects := hdefines ▸ h.selects
        implies := hdefines ▸ h.implies
        directDep := hdefines ▸ h.directDep
        reverseDep := (hdemands _).symm ▸ h.reverseDep
        weakReverseDep := (hdemands _).symm ▸ h.weakReverseDep }

theorem Sums.foldl (h : v.Sums m i es x) (es' : List Entry) :
    v.Sums m i (es ++ es') (es'.foldl (fun x e => e.gatherOn i x) x) := by
  induction es' generalizing es x with
  | nil => simpa using h
  | cons e es' ih =>
    have hrest := ih (h.gatherOn e)
    rwa [append_assoc] at hrest

end Valuation

end Buildsmith.Kconfig
