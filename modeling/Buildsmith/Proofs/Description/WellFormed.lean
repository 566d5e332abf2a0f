import Buildsmith.Proofs.Evaluation.Running

/-!
# Well-formed models

While description files are read, the model grows by a few kinds of steps.  Each of them keeps the
model well formed: what has a kind or entries is defined, what is defined is in the tables and no
constant, and no two symbols share a name.
-/

namespace Buildsmith.Kconfig

open List
open SymbolId (yes)

namespace Model

variable {m : Model}

/-! ## The tables after a change -/

theorem getD_push {σ : Type} (a : Array σ) (x d : σ) (i : Nat) :
    (a.push x).getD i d = if i = a.size then x else a.getD i d := by
  simp only [Array.getD_eq_getD_getElem?, Array.getElem?_push]
  split <;> rfl

@[grind =]
theorem symbol_modifySymbol (i j : SymbolId) (f : Symbol → Symbol) : (m.modifySymbol i f).symbol j =
      if i = j ∧ j < m.symbols.size then f (m.symbol j) else m.symbol j :=
  getD_modify ..

@[grind =]
theorem choice_modifyChoice (c d : ChoiceId) (f : Choice → Choice) : (m.modifyChoice c f).choice d =
      if c = d ∧ d < m.choices.size then f (m.choice d) else m.choice d :=
  getD_modify ..

theorem entry_modifyEntry (k l : EntryId) (f : Entry → Entry) :
    (m.modifyEntry k f).entry l = if k = l ∧ l < m.entries.size then f (m.entry l) else m.entry l :=
  getD_modify ..

def addSymbol (m : Model) (x : Symbol) : Model := { m with symbols := m.symbols.push x }

def addChoice (m : Model) (x : Choice) : Model := { m with choices := m.choices.push x }

def addEntry (m : Model) (e : Entry) : Model := { m with entries := m.entries.push e }

@[grind =]
theorem symbol_addSymbol (x : Symbol) (i : SymbolId) :
    (m.addSymbol x).symbol i = if i = m.symbols.size then x else m.symbol i :=
  getD_push ..

@[grind =]
theorem choice_addChoice (x : Choice) (c : ChoiceId) :
    (m.addChoice x).choice c = if c = m.choices.size then x else m.choice c :=
  getD_push ..

def defineSymbol (m : Model) (i : SymbolId) (e : Entry) : Model :=
  ({ m with defined := m.defined ++ [i] }.addEntry e).modifySymbol i fun x =>
    { x with entries := x.entries ++ [m.entries.size] }

def defineChoice (m : Model) (c : ChoiceId) (e : Entry) : Model :=
  ({ m with choiceUses := m.choiceUses ++ [c] }.addEntry e).modifyChoice c fun x =>
    { x with entries := x.entries ++ [m.entries.size] }

/-! ## What entries stand for -/

/-- What the entries stand for, in the order of their definition. -/
def subjects (m : Model) : List Subject := m.entries.toList.map Entry.subject

def placesIn (ss : List Subject) (x : Subject) : List EntryId :=
  (List.range ss.length).filter fun k => ss[k]? = some x

theorem placesIn_append (ss : List Subject) (x y : Subject) :
    placesIn (ss ++ [y]) x = placesIn ss x ++ if y = x then [ss.length] else [] := by
  have hold : ∀ k ∈ List.range ss.length,
      decide ((ss ++ [y])[k]? = some x) = decide (ss[k]? = some x) := fun k hk => by
    rw [List.getElem?_append_left (List.mem_range.1 hk)]
  rw [placesIn, length_append, length_singleton, range_succ, filter_append,
    filter_congr hold, placesIn]
  by_cases hy : y = x <;> simp [hy]

theorem getElem?_subjects (k : EntryId) : m.subjects[k]? = (m.entries[k]?).map Entry.subject := by
  rw [subjects, List.getElem?_map, Array.getElem?_toList]

@[simp]
theorem length_subjects : m.subjects.length = m.entries.size := by
  rw [subjects, length_map, Array.length_toList]

theorem subjects_push (e : Entry) (entries : Array Entry) :
    (entries.push e).toList.map Entry.subject = entries.toList.map Entry.subject ++ [e.subject] := by
  simp

theorem subject_eq_iff {k : EntryId} {x : Subject} (hx : x ≠ .comment) :
    (m.entry k).subject = x ↔ m.subjects[k]? = some x := by
  rw [getElem?_subjects, Model.entry, Array.getD_eq_getD_getElem?]
  cases m.entries[k]? with
  | none => simp [hx.symm]
  | some e => simp

theorem mem_subjects {k : EntryId} {x : Subject} (hk : (m.entry k).subject = x) (hx : x ≠ .comment) :
    x ∈ m.subjects :=
  mem_of_getElem? ((subject_eq_iff hx).1 hk)

theorem mem_placesIn {k : EntryId} {i : SymbolId} :
    k ∈ placesIn m.subjects (.symbol i) ↔ (m.entry k).subject = .symbol i := by
  rw [placesIn, mem_filter, mem_range, decide_eq_true_eq, subject_eq_iff (x := .symbol i) nofun]
  refine ⟨And.right, fun hk => ⟨?_, hk⟩⟩
  exact (List.getElem?_eq_some_iff.1 hk).1

/-! ## Well-formedness -/

/-- What every model satisfies that is read from description files. -/
structure WellFormed (m : Model) : Prop where
  /-- The first symbols are the three constants. -/
  constants : ∀ i ≤ yes, (m.symbol i).kind = .tristate ∧ (m.symbol i).isConstant = true
  /-- What is defined is in the table and no constant. -/
  stored : ∀ i ∈ m.defined, i < m.symbols.size ∧ (m.symbol i).isConstant = false
  /-- A symbol whose kind is known is defined or one of the first constants. -/
  kinds : ∀ i, (m.symbol i).kind ≠ .unknown → i ≤ yes ∨ i ∈ m.defined
  directDeps : ∀ i, (m.symbol i).directDep ≠ .no → i ∈ m.defined
  choiceUses : ∀ c ∈ m.choiceUses, c < m.choices.size
  choiceEntries : ∀ c, (m.choice c).entries ≠ [] → c ∈ m.choiceUses
  choiceSubjects : ∀ c, .choice c ∈ m.subjects → c ∈ m.choiceUses
  /-- The choice of a symbol is defined and has the symbol among its symbols. -/
  members : ∀ i c, (m.symbol i).choice = some c → c ∈ m.choiceUses ∧ i ∈ (m.choice c).symbols
  membersDefined : ∀ c, ∀ i ∈ (m.choice c).symbols, i ∈ m.defined
  /-- Symbols that are no constants have names of their own. -/
  names : ∀ i j, i < m.symbols.size → j < m.symbols.size → (m.symbol i).isConstant = false →
    (m.symbol j).isConstant = false → (m.symbol i).name = (m.symbol j).name → i = j
  /-- Symbols are defined in the order of their entries. -/
  definitions : m.defined = m.subjects.filterMap Subject.symbol?
  /-- A symbol has the entries that stand for it, in their order. -/
  places : ∀ i < m.symbols.size, (m.symbol i).entries = placesIn m.subjects (.symbol i)

namespace WellFormed

theorem initial : Model.initial.WellFormed where
  constants i hi := by
    have hi' : i ≤ 2 := hi
    match i, hi' with
    | 0, _ | 1, _ | 2, _ => exact ⟨rfl, rfl⟩
  stored i hi := nomatch hi
  kinds i hi := by
    by_cases h : i ≤ 2
    · exact .inl h
    · refine absurd ?_ hi
      match i, h with
      | 3, _ => rfl
      | _ + 4, _ => rfl
  directDeps i hi := by
    refine absurd ?_ hi
    match i with
    | 0 | 1 | 2 | 3 => rfl
    | _ + 4 => rfl
  choiceUses c hc := nomatch hc
  choiceEntries c hc := absurd rfl hc
  choiceSubjects c h := nomatch h
  members i c h := by
    match i with
    | 0 | 1 | 2 | 3 => cases h
  membersDefined c i hi := nomatch hi
  names i j hi hj hci hcj _ := by
    have hi' : i < 4 := hi
    have hj' : j < 4 := hj
    match i, j, hi', hj' with
    | 3, 3, _, _ => rfl
  definitions := rfl
  places i hi := by
    have hi' : i < 4 := hi
    match i, hi' with
    | 0, _ | 1, _ | 2, _ | 3, _ => rfl

section

variable {i : SymbolId} {e : Entry} (h : m.WellFormed)

include h

theorem lt_size : yes < m.symbols.size := by
  by_contra hsize
  have hsymbol : m.symbol yes = { name := "" } := by
    simp [Model.symbol, Nat.le_of_not_lt hsize]
  have hconstant := (h.constants yes (Nat.le_refl _)).2
  rw [hsymbol] at hconstant
  cases hconstant

theorem mem_defined_iff : i ∈ m.defined ↔ .symbol i ∈ m.subjects := by
  rw [h.definitions, mem_filterMap]
  constructor
  · rintro ⟨x, hx, hi⟩
    cases x with
    | symbol j => exact Option.some.inj hi ▸ hx
    | _ => cases hi
  · exact fun hi => ⟨_, hi, rfl⟩

theorem symbolSubjects (k : EntryId) (i : SymbolId) (hk : (m.entry k).subject = .symbol i) :
    i ∈ m.defined :=
  h.mem_defined_iff.2 (mem_subjects hk nofun)

theorem symbolEntries (i : SymbolId) (hi : (m.symbol i).entries ≠ []) : i ∈ m.defined := by
  have hlt : i < m.symbols.size := by
    by_contra hge
    exact hi (by simp [Model.symbol, Nat.le_of_not_lt hge])
  obtain ⟨k, hk⟩ := exists_mem_of_ne_nil _ (h.places i hlt ▸ hi)
  exact h.symbolSubjects k i (mem_placesIn.1 hk)

theorem defined (i : SymbolId) (hi : i ∈ m.defined) :
    i < m.symbols.size ∧ (m.symbol i).isConstant = false ∧ (m.symbol i).entries ≠ [] ∧
      ∃ k, (m.entry k).subject = .symbol i := by
  obtain ⟨hlt, hconstant⟩ := h.stored i hi
  obtain ⟨k, hk⟩ := mem_iff_getElem?.1 (h.mem_defined_iff.1 hi)
  have hentry : (m.entry k).subject = .symbol i := (subject_eq_iff (x := .symbol i) nofun).2 hk
  refine ⟨hlt, hconstant, ?_, k, hentry⟩
  rw [h.places i hlt]
  exact ne_nil_of_mem (mem_placesIn.2 hentry)

theorem choice_lt {c : ChoiceId} (hc : (m.symbol i).choice = some c) : c < m.choices.size :=
  h.choiceUses c (h.members i c hc).1

theorem yes_lt_of_defined (hi : i ∈ m.defined) : yes < i := by
  by_contra hle
  have hconstant := (h.constants i (Nat.le_of_not_lt hle)).2
  rw [(h.stored i hi).2] at hconstant
  cases hconstant

theorem addSymbol {x : Symbol} (hkind : x.kind = .unknown) (hentries : x.entries = [])
    (hdep : x.directDep = .no) (hchoice : x.choice = none)
    (hname : x.isConstant = false → ∀ i < m.symbols.size, (m.symbol i).isConstant = false →
      (m.symbol i).name ≠ x.name) : (m.addSymbol x).WellFormed := by
  have hsize : (m.addSymbol x).symbols.size = m.symbols.size + 1 := Array.size_push ..
  exact
    { h with
      constants := by grind [h.constants, h.lt_size]
      stored := fun i hi => by grind [h.stored i hi]
      kinds := fun i hi => h.kinds i (by grind)
      directDeps := fun i hi => h.directDeps i (by grind)
      members := fun i c hc => h.members i c (by grind)
      names := fun j l => by
        have hold := h.names j l
        grind
      places := fun i hi => by
        rw [symbol_addSymbol]
        split
        · rename_i hinew
          -- no entry stands for a symbol that was not in the table
          rw [hentries, eq_comm, eq_nil_iff_forall_not_mem]
          intro k hk
          have hdefined := h.symbolSubjects k i (mem_placesIn.1 hk)
          exact absurd hinew (Nat.ne_of_lt (h.stored i hdefined).1)
        · have hlt : i < m.symbols.size := by grind
          exact h.places i hlt }

/-- Changing a symbol but for its name and entries.  The kind and the dependencies of a defined
symbol may change, and the choice of one that a choice has among its symbols. -/
theorem modifySymbol (i : SymbolId) {f : Symbol → Symbol}
    (hname : ∀ x, (f x).name = x.name ∧ (f x).isConstant = x.isConstant ∧ (f x).entries = x.entries)
    (hkind : ((f (m.symbol i)).kind = (m.symbol i).kind ∧
      (f (m.symbol i)).directDep = (m.symbol i).directDep) ∨ i ∈ m.defined)
    (hchoice : (f (m.symbol i)).choice = (m.symbol i).choice ∨
      ∃ c ∈ m.choiceUses, (f (m.symbol i)).choice = some c ∧ i ∈ (m.choice c).symbols) :
    (m.modifySymbol i f).WellFormed := by
  have hsize : (m.modifySymbol i f).symbols.size = m.symbols.size := by simp [Model.modifySymbol]
  exact
    { h with
      constants := fun j hj => by
        have hnot : j ∉ m.defined := fun hd => Nat.not_lt_of_le hj (h.yes_lt_of_defined hd)
        grind [h.constants j hj]
      stored := fun j hj => by grind [h.stored j hj]
      kinds := fun j hj => show _ ∨ j ∈ m.defined by
        have hold := h.kinds j
        grind
      directDeps := fun j hj => show j ∈ m.defined by grind [h.directDeps]
      members := fun j c hc => show c ∈ m.choiceUses ∧ j ∈ (m.choice c).symbols by
        grind [h.members]
      names := fun j l => by
        have hold := h.names j l
        grind
      places := fun j hj => show _ = placesIn m.subjects (.symbol j) by grind [h.places] }

theorem addChoice {x : Choice} (hentries : x.entries = []) (hsymbols : x.symbols = []) :
    (m.addChoice x).WellFormed :=
  { h with
    choiceUses := fun c hc => by simpa [Model.addChoice] using Nat.lt_succ_of_lt (h.choiceUses c hc)
    choiceEntries := fun c hc => h.choiceEntries c (by grind)
    members := fun i c hc => by
      obtain ⟨huse, hi⟩ := h.members i c hc
      exact ⟨huse, by grind [h.choiceUses c huse]⟩
    membersDefined := fun c i hi => h.membersDefined c i (by grind) }

theorem modifyChoice
    (c : ChoiceId) {f : Choice → Choice} (hentries : ∀ x, (f x).entries = x.entries)
    (hkept : ∀ i ∈ (m.choice c).symbols, i ∈ (f (m.choice c)).symbols)
    (hnew : ∀ i ∈ (f (m.choice c)).symbols, i ∈ (m.choice c).symbols ∨ i ∈ m.defined) :
    (m.modifyChoice c f).WellFormed :=
  { h with
    choiceUses := fun d hd => by simpa [Model.modifyChoice] using h.choiceUses d hd
    choiceEntries := fun d hd => h.choiceEntries d (by grind)
    members := fun i d hd => by
      obtain ⟨huse, hi⟩ := h.members i d hd
      exact ⟨huse, by grind⟩
    membersDefined := fun d i hi => show i ∈ m.defined by grind [h.membersDefined] }

theorem addEntry (he : e.subject.item? = none) : (m.addEntry e).WellFormed := by
  have hsubjects : (m.addEntry e).subjects = m.subjects ++ [e.subject] := subjects_push e m.entries
  exact
    { h with
      choiceSubjects := fun c hc => by
        rw [hsubjects, mem_append, mem_singleton] at hc
        refine h.choiceSubjects c (hc.resolve_right ?_)
        intro hs
        rw [← hs] at he
        cases he
      definitions := by
        have hsymbol : e.subject.symbol? = none := by
          cases hs : e.subject <;> simp_all [Subject.item?, Subject.symbol?]
        rw [hsubjects]
        simp [hsymbol, h.definitions, Model.addEntry]
      places := fun i hi => by
        have hne : e.subject ≠ .symbol i := by
          intro hs
          rw [hs] at he
          cases he
        rw [hsubjects, placesIn_append, if_neg hne, append_nil]
        exact h.places i hi }

theorem withEntries {entries : Array Entry}
    (hentries : ∀ k : Nat, entries[k]?.map Entry.subject = m.entries[k]?.map Entry.subject)
    (menu : List Menu) (parents : Array (Option EntryId)) (children : Array (List EntryId)) :
    WellFormed { m with entries, menu, parents, children } := by
  have hsubjects : Model.subjects { m with entries, menu, parents, children } = m.subjects := by
    refine ext_getElem? fun k => ?_
    rw [getElem?_subjects, getElem?_subjects]
    exact hentries k
  exact
    { h with
      choiceSubjects := hsubjects ▸ h.choiceSubjects
      definitions := hsubjects ▸ h.definitions
      places := hsubjects ▸ h.places }

theorem modifyEntry (k : EntryId) {f : Entry → Entry} (hf : ∀ e, (f e).subject = e.subject) :
    (m.modifyEntry k f).WellFormed := by
  refine h.withEntries (fun l => ?_) m.menu m.parents m.children
  rw [Array.getElem?_modify]
  split
  · cases m.entries[l]? <;> simp [hf]
  · rfl

theorem defineSymbol (hi : i < m.symbols.size) (hconstant : (m.symbol i).isConstant = false)
    (he : e.subject = .symbol i) : (m.defineSymbol i e).WellFormed := by
  have hsymbol : ∀ j, (m.defineSymbol i e).symbol j = if i = j ∧ j < m.symbols.size then
        { m.symbol j with entries := (m.symbol j).entries ++ [m.entries.size] }
      else m.symbol j := fun j => symbol_modifySymbol (m := Model.addEntry _ e) i j _
  have hsize : (m.defineSymbol i e).symbols.size = m.symbols.size := by
    simp [Model.defineSymbol, Model.modifySymbol, Model.addEntry]
  have hdefined : (m.defineSymbol i e).defined = m.defined ++ [i] := rfl
  have hsubjects : (m.defineSymbol i e).subjects = m.subjects ++ [.symbol i] := by
    rw [← he]
    exact subjects_push e m.entries
  exact
    { h with
      constants := by grind [h.constants]
      stored := fun j hj => by grind [h.stored j]
      kinds := fun j hj => by
        have hold := h.kinds j
        grind
      directDeps := by grind [h.directDeps]
      choiceSubjects := fun c hc => h.choiceSubjects c (by grind)
      members := fun j c hc => h.members j c (by grind)
      membersDefined := fun c j hj => mem_append_left _ (h.membersDefined c j hj)
      names := fun j l => by
        have hold := h.names j l
        grind
      definitions := by
        rw [hsubjects, filterMap_append, ← h.definitions]
        rfl
      places := fun j hj => by
        rw [hsubjects, placesIn_append, length_subjects, ← h.places j (hsize ▸ hj)]
        grind }

theorem defineChoice {c : ChoiceId} (hc : c < m.choices.size) (he : e.subject = .choice c) :
    (m.defineChoice c e).WellFormed := by
  have hchoice : ∀ d, (m.defineChoice c e).choice d = if c = d ∧ d < m.choices.size then
        { m.choice d with entries := (m.choice d).entries ++ [m.entries.size] }
      else m.choice d := fun d => choice_modifyChoice (m := Model.addEntry _ e) c d _
  have hsize : (m.defineChoice c e).choices.size = m.choices.size := by
    simp [Model.defineChoice, Model.modifyChoice, Model.addEntry]
  have huses : (m.defineChoice c e).choiceUses = m.choiceUses ++ [c] := rfl
  have hsubjects : (m.defineChoice c e).subjects = m.subjects ++ [.choice c] := by
    rw [← he]
    exact subjects_push e m.entries
  exact
    { h with
      choiceUses := fun d hd => by
        have hold := h.choiceUses d
        grind
      choiceEntries := fun d hd => by
        have hold := h.choiceEntries d
        grind
      choiceSubjects := by grind [h.choiceSubjects]
      members := fun i d hd => by
        obtain ⟨huse, hi⟩ := h.members i d hd
        exact ⟨by grind, by grind⟩
      membersDefined := fun d i hi => h.membersDefined d i (by grind)
      definitions := by
        rw [hsubjects, filterMap_append, ← h.definitions]
        exact (append_nil _).symm
      places := fun i hi => by
        rw [hsubjects, placesIn_append, if_neg nofun, append_nil]
        exact h.places i hi }

end

end WellFormed

end Model

/-! ## Gathered properties -/

/-- What symbols gather from their definitions and from symbols that select or imply them. -/
def Symbol.properties (x : Symbol) : List (Expr × Expr) × List (SymbolId × SymbolId × Expr) ×
    List (SymbolId × Expr) × List (SymbolId × Expr) × Expr × Expr × Expr :=
  (x.defaults, x.ranges, x.selects, x.implies, x.directDep, x.reverseDep, x.weakReverseDep)

namespace Model

variable {m : Model}

def Ungathered (m : Model) : Prop :=
  ∀ i, (m.symbol i).properties = ([], [], [], [], .no, .no, .no)

namespace Ungathered

theorem initial : Model.initial.Ungathered
  | 0 | 1 | 2 | 3 => rfl
  | _ + 4 => rfl

theorem addSymbol (h : m.Ungathered) {x : Symbol}
    (hx : x.properties = ([], [], [], [], .no, .no, .no)) : (m.addSymbol x).Ungathered := by
  intro i
  rw [symbol_addSymbol]
  split
  · exact hx
  · exact h i

theorem modifySymbol (h : m.Ungathered) (i : SymbolId) {f : Symbol → Symbol}
    (hf : ∀ x, (f x).properties = x.properties) : (m.modifySymbol i f).Ungathered := by
  intro j
  rw [symbol_modifySymbol]
  split
  · exact (hf _).trans (h j)
  · exact h j

end Ungathered

end Model

end Buildsmith.Kconfig
