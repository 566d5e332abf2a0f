import Buildsmith.Proofs.Assignment.Wiring
import Mathlib.Data.List.Chain
import Mathlib.Logic.Relation

/-!
# The search for loops

The search follows each item to those that are computed from it, and marks items that it has
finished with.  When it leaves a choice without one of its symbols, the search has already been where
that symbol leads.  So what it has finished with leads to no loop (`Explores`), and a model in which
it finds nothing has none among its defined symbols (`loopless_of_findLoop?`).
-/

namespace Buildsmith.Kconfig

open List Relation.TransGen Option

namespace Model

variable {m : Model} {x y : Item}

/-- Whether the second item is computed from the first one, as far as the search follows: a symbol
is followed to its dependents, and a choice to its symbols. -/
def LeadsTo (m : Model) : Item → Item → Prop
  | .symbol i, y => y ∈ m.dependentsOf (.symbol i)
  | .choice c, y => ∃ i ∈ (m.choice c).symbols, y = .symbol i

abbrev Loopless (m : Model) : Item → Prop := Acc fun y x => m.LeadsTo x y

end Model

/-! ## Marks -/

def Marks.Has (ms : Marks) : Item → Prop
  | .symbol i => i < ms.symbols.size
  | .choice c => c < ms.choices.size

theorem Marks.get_set {ms : Marks} {x y : Item} {k : Mark} (hx : ms.Has x) :
    (ms.set k x).get y = if y = x then k else ms.get y := by
  cases x <;> cases y <;>
    simp only [set, get, Array.getD_eq_getD_getElem?] <;>
    grind [Marks.Has]

/-- Marks in which what the search has finished with leads to no loop. -/
structure Searched (m : Model) (ms : Marks) : Prop where
  has : ∀ x, m.Has x → ms.Has x
  finished : ∀ x, ms.get x = .finished → m.Loopless x

def freshItems (m : Model) (ms : Marks) : Finset Item := m.items.filter (ms.get · = .fresh)

/-- What the search may do to marks until it is back where it was. -/
structure Advanced (ms ms' : Marks) : Prop where
  underWay : ∀ x, ms'.get x = .underWay ↔ ms.get x = .underWay
  fresh : ∀ x, ms'.get x = .fresh → ms.get x = .fresh

/-- Whether a search that has not met less than `n` items establishes `Q` if it finds nothing, and
else gives a path to an item that is under way. -/
def Explores (m : Model) (n : Nat) (search : LoopM (Option (List Item))) (Q : Prop) : Prop :=
  ∀ ms r ms', Searched m ms → (freshItems m ms).card < n → runFrom search ms = (.ok r, ms') →
    match r with
    | none => Searched m ms' ∧ Advanced ms ms' ∧ Q
    | some found => ∃ x, found.head? = some x ∧ ms.get x = .underWay

variable {m : Model} {n : Nat} {ms ms' ms'' : Marks} {x : Item}

theorem Advanced.refl (ms : Marks) : Advanced ms ms := ⟨fun _ => Iff.rfl, fun _ h => h⟩

theorem Advanced.trans (h : Advanced ms ms') (h' : Advanced ms' ms'') : Advanced ms ms'' :=
  ⟨fun x => (h'.underWay x).trans (h.underWay x), fun x hx => h.fresh x (h'.fresh x hx)⟩

theorem Advanced.card_le (h : Advanced ms ms') :
    (freshItems m ms').card ≤ (freshItems m ms).card := by
  refine Finset.card_le_card fun x hx => ?_
  simp only [freshItems, Finset.mem_filter] at hx ⊢
  exact ⟨hx.1, h.fresh x hx.2⟩

/-! ## Lists of searches -/

namespace Explores

variable {α : Type} {search : α → LoopM (Option (List Item))} {xs ys : List α} {Q : Prop}

theorem nothing (n : Nat) : Explores m n (pure none) True := by
  rintro ms r ms' hms - ⟨⟩
  exact ⟨hms, .refl ms, trivial⟩

theorem firstLoop_cons {x : α} {P : Prop} (hx : Explores m n (search x) P)
    (hxs : P → Explores m n (firstLoop search xs) Q) :
    Explores m n (firstLoop search (x :: xs)) (P ∧ Q) := by
  intro ms r ms' hms hn hrun
  obtain ⟨r₁, ms₁, hrun₁, hrun⟩ := runFrom_bind_eq_ok.1 hrun
  have h₁ := hx ms r₁ ms₁ hms hn hrun₁
  cases r₁ with
  | some found =>
    cases hrun
    exact h₁
  | none =>
    obtain ⟨hms₁, hadvanced, hP⟩ := h₁
    have h₂ := hxs hP ms₁ r ms' hms₁ (Nat.lt_of_le_of_lt hadvanced.card_le hn) hrun
    cases r with
    | some found =>
      obtain ⟨y, hy, hunderWay⟩ := h₂
      exact ⟨y, hy, (hadvanced.underWay y).1 hunderWay⟩
    | none =>
      obtain ⟨hms', hadvanced', hQ⟩ := h₂
      exact ⟨hms', hadvanced.trans hadvanced', hP, hQ⟩

theorem imp {search : LoopM (Option (List Item))} {P : Prop} (h : Explores m n search P)
    (hPQ : P → Q) : Explores m n search Q := by
  intro ms r ms' hms hn hrun
  have hr := h ms r ms' hms hn hrun
  cases r with
  | some found => exact hr
  | none => exact ⟨hr.1, hr.2.1, hPQ hr.2.2⟩

theorem firstLoop_append {P : α → Prop} (hxs : ∀ x ∈ xs, Explores m n (search x) (P x))
    (hys : (∀ x ∈ xs, P x) → Explores m n (firstLoop search ys) Q) :
    Explores m n (firstLoop search (xs ++ ys)) ((∀ x ∈ xs, P x) ∧ Q) := by
  induction xs with
  | nil => exact (hys nofun).imp fun hQ => ⟨nofun, hQ⟩
  | cons x xs ih =>
    have hrest := fun hx : P x => ih (fun y hy => hxs y (mem_cons_of_mem _ hy))
      fun hall => hys (forall_mem_cons.2 ⟨hx, hall⟩)
    refine (firstLoop_cons (hxs x mem_cons_self) hrest).imp ?_
    rintro ⟨hx, hall, hQ⟩
    exact ⟨forall_mem_cons.2 ⟨hx, hall⟩, hQ⟩

theorem firstLoop_nil : Explores m n (firstLoop search []) True := nothing n

theorem firstLoop {P : α → Prop} (hxs : ∀ x ∈ xs, Explores m n (search x) (P x)) :
    Explores m n (firstLoop search xs) (∀ x ∈ xs, P x) := by
  have happend := firstLoop_append hxs fun _ => firstLoop_nil
  rw [append_nil] at happend
  exact happend.imp And.left

end Explores

/-! ## The search from an item -/

/-- Whether all that a model records is in its tables. -/
structure Model.Bounded (m : Model) : Prop where
  dependents : ∀ x, ∀ d ∈ m.dependentsOf x, m.Has d
  members : ∀ c, ∀ i ∈ (m.choice c).symbols, m.Has (.symbol i)
  choices : ∀ i c, (m.symbol i).choice = some c → m.Has (.choice c)

/-- What a step relies on: its item is in the model, and the symbol that it leaves out leads to no
loop. -/
structure Step.Ready (m : Model) (s : Step) : Prop where
  has : m.Has s.item
  skipped : ∀ c i, s = .choice c (some i) → m.Loopless (.symbol i)

theorem loopless_symbol {i : SymbolId} (h : ∀ d ∈ m.dependentsOf (.symbol i), m.Loopless d) :
    m.Loopless (.symbol i) :=
  ⟨_, h⟩

theorem loopless_choice {c : ChoiceId}
    (h : ∀ i ∈ (m.choice c).symbols, m.Loopless (.symbol i)) : m.Loopless (.choice c) := by
  refine ⟨_, fun y hy => ?_⟩
  obtain ⟨i, hi, rfl⟩ := hy
  exact h i hi

theorem explores_stepsFrom (hm : m.Bounded) {search : Step → LoopM (Option (List Item))}
    (hsearch : ∀ s : Step, s.Ready m → Explores m n (search s) (m.Loopless s.item)) {s : Step}
    (hs : s.Ready m) : Explores m n (firstLoop search (m.stepsFrom s)) (m.Loopless s.item) := by
  cases s with
  | symbol i ignoreChoice =>
    refine (Explores.firstLoop_append (Q := True) (fun t ht => hsearch t ?_) fun hall => ?_).imp ?_
    · obtain ⟨d, hd, rfl⟩ := mem_map.1 ht
      have hhas := hm.dependents _ d hd
      cases d with
      | symbol j | choice c => exact ⟨hhas, nofun⟩
    · -- all dependents have been searched, so that the choice may leave the symbol out
      have hi : m.Loopless (.symbol i) := loopless_symbol fun d hd => by
        have hitem := hall _ (mem_map_of_mem hd)
        cases d <;> exact hitem
      refine (Explores.firstLoop fun t ht => hsearch t ?_).imp fun _ => trivial
      split at ht
      · rename_i c hc
        split at ht
        · cases ht
        · obtain rfl := mem_singleton.1 ht
          refine ⟨hm.choices i c hc, ?_⟩
          rintro _ _ ⟨⟩
          exact hi
      · cases ht
    · rintro ⟨hall, -⟩
      refine loopless_symbol fun d hd => ?_
      have hitem := hall _ (mem_map_of_mem hd)
      cases d <;> exact hitem
  | choice c skip =>
    refine (Explores.firstLoop fun t ht => hsearch t ?_).imp fun hall => ?_
    · obtain ⟨i, hi, rfl⟩ := mem_map.1 ht
      exact ⟨hm.members c i (mem_filter.1 hi).1, nofun⟩
    · refine loopless_choice fun i hi => ?_
      by_cases hskip : skip = some i
      · subst hskip
        exact hs.skipped c i rfl
      · have hitem := hall (.symbol i true)
          (mem_map_of_mem (mem_filter.2 ⟨hi, decide_eq_true hskip⟩))
        exact hitem

theorem Searched.set (h : Searched m ms) {k : Mark} (hx : m.Has x)
    (hk : k = .finished → m.Loopless x) : Searched m (ms.set k x) where
  has y hy := by
    have hy' := h.has y hy
    cases x <;> cases y <;> simpa [Marks.set, Marks.Has] using hy'
  finished y hy := by
    rw [Marks.get_set (h.has x hx)] at hy
    split at hy
    · rename_i hyx
      exact hyx ▸ hk hy
    · exact h.finished y hy

theorem card_freshItems_set (h : Searched m ms) (hx : m.Has x) (hfresh : ms.get x = .fresh) :
    (freshItems m (ms.set .underWay x)).card < (freshItems m ms).card := by
  refine Finset.card_lt_card ((Finset.ssubset_iff_of_subset fun y hy => ?_).2 ⟨x, ?_, ?_⟩)
  · simp only [freshItems, Finset.mem_filter, Marks.get_set (h.has x hx)] at hy ⊢
    refine ⟨hy.1, ?_⟩
    have hy' := hy.2
    split at hy'
    · cases hy'
    · exact hy'
  · simp [freshItems, Model.mem_items, hx, hfresh]
  · simp [freshItems, Marks.get_set (h.has x hx)]

theorem Advanced.finish (h : Advanced (ms.set .underWay x) ms') (hx' : ms'.Has x) (hx : ms.Has x)
    (hfresh : ms.get x = .fresh) : Advanced ms (ms'.set .finished x) where
  underWay y := by
    have hy := h.underWay y
    rw [Marks.get_set hx] at hy
    rw [Marks.get_set hx']
    split
    · rename_i hyx
      simp [hyx, hfresh]
    · rename_i hyx
      rwa [if_neg hyx] at hy
  fresh y hy := by
    rw [Marks.get_set hx'] at hy
    split at hy
    · cases hy
    · rename_i hyx
      have hy' := h.fresh y hy
      rwa [Marks.get_set hx, if_neg hyx] at hy'

theorem closeLoop_eq_ok {found : List Item} {r : Option (List Item)}
    (h : runFrom (closeLoop found x) ms = (.ok r, ms')) :
    found.head? ≠ some x ∧ r = some (found ++ [x]) := by
  unfold closeLoop at h
  split at h
  · cases h
  · rename_i hne
    cases h
    exact ⟨hne, rfl⟩

theorem explores_searchLoop (hm : m.Bounded) (fuel : Nat) :
    ∀ s : Step, s.Ready m → Explores m fuel (searchLoop m fuel s) (m.Loopless s.item) := by
  induction fuel with
  | zero => exact fun s _ ms r ms' _ hn => absurd hn (Nat.not_lt_zero _)
  | succ fuel ih =>
    intro s hs ms r ms' hms hn hrun
    have hhas := hms.has _ hs.has
    rw [searchLoop, runFrom_bind_ok runFrom_get] at hrun
    split at hrun
    · rename_i hmark
      cases hrun
      exact ⟨hms, .refl ms, hms.finished _ hmark⟩
    · rename_i hmark
      cases hrun
      exact ⟨s.item, rfl, hmark⟩
    · rename_i hmark
      have hset : runFrom (modify (·.set .underWay s.item) : LoopM PUnit) ms =
          (.ok ⟨⟩, ms.set .underWay s.item) := rfl
      rw [runFrom_bind_ok hset] at hrun
      obtain ⟨r₁, ms₁, hrun₁, hrun⟩ := runFrom_bind_eq_ok.1 hrun
      have hcard := Nat.lt_of_lt_of_le (card_freshItems_set hms hs.has hmark) (Nat.le_of_lt_succ hn)
      have hset₁ : Searched m (ms.set .underWay s.item) := hms.set hs.has nofun
      have h₁ := explores_stepsFrom hm ih hs _ _ _ hset₁ hcard hrun₁
      cases r₁ with
      | some found =>
        obtain ⟨x, hx, hunderWay⟩ := h₁
        obtain ⟨hne, rfl⟩ := closeLoop_eq_ok hrun
        have hxs : x ≠ s.item := fun hxs => hne (hxs ▸ hx)
        rw [Marks.get_set hhas, if_neg hxs] at hunderWay
        exact ⟨x, by simp [hx], hunderWay⟩
      | none =>
        obtain ⟨hms₁, hadvanced, hloopless⟩ := h₁
        cases hrun
        exact ⟨hms₁.set hs.has fun _ => hloopless, hadvanced.finish (hms₁.has _ hs.has) hhas hmark,
          hloopless⟩

/-- If the search finds nothing, defined symbols lead to no loop. -/
theorem loopless_of_findLoop? (hm : m.Bounded) (hdefined : ∀ i ∈ m.uniqueDefined, m.Has (.symbol i))
    (h : m.findLoop? = none) : ∀ i ∈ m.uniqueDefined, m.Loopless (.symbol i) := by
  unfold Model.findLoop? at h
  extract_lets fuel search start at h
  have hsearch : Explores m fuel search (∀ i ∈ m.uniqueDefined, m.Loopless (.symbol i)) :=
    Explores.firstLoop fun i hi =>
      explores_searchLoop hm fuel (.symbol i false) ⟨hdefined i hi, nofun⟩
  have hstart : ∀ x, start.get x = .fresh := by
    intro x
    cases x <;>
      simp only [start, Marks.get, Array.getD_eq_getD_getElem?, Array.getElem?_replicate] <;>
      split <;> rfl
  have hms : Searched m start := by
    refine ⟨fun x hx => ?_, fun x hx => ?_⟩
    · cases x <;> simpa [start, Marks.Has, Model.Has] using hx
    · rw [hstart] at hx
      cases hx
  have hcard : (freshItems m start).card < fuel :=
    Nat.lt_succ_of_le ((Finset.card_le_card (Finset.filter_subset _ _)).trans m.card_items_le)
  rcases hrun : runFrom search start with ⟨r, ms⟩
  have hrun' : search.run start = (r, ms) := hrun
  rw [hrun'] at h
  cases r with
  | error found => cases h
  | ok r =>
    have hr := hsearch start r ms hms hcard hrun
    cases r with
    | none => exact hr.2.2
    | some found =>
      obtain ⟨x, -, hx⟩ := hr
      rw [hstart] at hx
      cases hx

/-!
## Reported loops

A loop is put together on the way back from the item that the search meets for the second time.
Each part of it leads up to the item that the search goes back to (`Model.IsTrail`), so that what is
reported comes back to where it begins (`Model.IsClosedWalk`).  Among symbols outside choices a loop
is reported exactly if there is one, in whatever order symbols and dependents are listed.
-/

namespace Model

variable {m m' : Model} {x y : Item}

/-! ## Walks -/

/-- Whether the first item is a dependent of the second one, its choice or one of its symbols. -/
inductive Adjoins (m : Model) : Item → Item → Prop
  | dependent {x y : Item} : x ∈ m.dependentsOf y → Adjoins m x y
  | choice {i : SymbolId} {c : ChoiceId} :
    (m.symbol i).choice = some c → Adjoins m (.choice c) (.symbol i)
  | member {i : SymbolId} {c : ChoiceId} :
    i ∈ (m.choice c).symbols → Adjoins m (.symbol i) (.choice c)

/-- Whether each listed item adjoins the next one, and the last one adjoins the first one. -/
def IsClosedWalk (m : Model) (found : List Item) : Prop :=
  ∃ x rest, found = x :: rest ∧ (found ++ [x]).IsChain m.Adjoins

/-- Whether each listed item adjoins the next one, up to a given item. -/
def IsTrail (m : Model) (found : List Item) (x : Item) : Prop :=
  found.getLast? = some x ∧ found.IsChain m.Adjoins

theorem IsTrail.append {found : List Item} (h : m.IsTrail found x) (hxy : m.Adjoins x y) :
    (found ++ [y]).IsChain m.Adjoins := by
  refine isChain_append.2 ⟨h.2, .singleton y, fun a ha b hb => ?_⟩
  obtain rfl : x = a := some.inj (h.1.symm.trans ha)
  obtain rfl : y = b := some.inj hb
  exact hxy

theorem adjoins_of_mem_stepsFrom {s t : Step} (h : t ∈ m.stepsFrom s) : m.Adjoins t.item s.item := by
  cases s with
  | symbol i ignoreChoice =>
    rcases mem_append.1 h with h | h
    · obtain ⟨d, hd, rfl⟩ := mem_map.1 h
      cases d <;> exact .dependent hd
    · split at h
      · rename_i c hc
        split at h
        · cases h
        · obtain rfl := mem_singleton.1 h
          exact .choice hc
      · cases h
  | choice c skip =>
    obtain ⟨i, hi, rfl⟩ := mem_map.1 h
    exact .member (mem_filter.1 hi).1

/-! ## What the search reports -/

/-- Whether a search gives trails up to items with a property, and stops with closed walks. -/
def Reports (m : Model) (search : LoopM (Option (List Item))) (P : Item → Prop) : Prop :=
  Leads (fun found _ => m.IsClosedWalk found) (fun _ => True) search
    fun r _ => ∀ found ∈ r, ∃ x, P x ∧ m.IsTrail found x

theorem reports_firstLoop {α : Type} {search : α → LoopM (Option (List Item))} {P : Item → Prop}
    {xs : List α} (h : ∀ x ∈ xs, m.Reports (search x) P) : m.Reports (firstLoop search xs) P := by
  induction xs with
  | nil => exact .pure fun _ _ => nofun
  | cons x xs ih =>
    refine .bind (h x mem_cons_self) fun r => ?_
    cases r with
    | some found => exact .pure fun _ hr => hr
    | none =>
      exact (ih fun y hy => h y (mem_cons_of_mem _ hy)).pre fun _ _ => trivial

theorem reports_closeLoop {found : List Item} (h : m.IsTrail found x) (hxy : m.Adjoins x y) :
    m.Reports (closeLoop found y) (· = y) := by
  unfold closeLoop
  split
  · rename_i hhead
    obtain ⟨rest, hfound⟩ := head?_eq_some_iff.1 hhead
    exact .throw fun _ _ => ⟨y, rest, hfound, h.append hxy⟩
  · refine .pure fun _ _ found' hfound => ?_
    obtain rfl := some.inj hfound
    exact ⟨y, rfl, by simp, h.append hxy⟩

theorem reports_searchLoop (fuel : Nat) : ∀ s, m.Reports (searchLoop m fuel s) (· = s.item) := by
  induction fuel with
  | zero => exact fun s => .pure fun _ _ => nofun
  | succ fuel ih =>
    intro s
    refine .get_bind' fun ms => ?_
    split
    · exact .pure fun _ _ => nofun
    · refine .pure fun _ _ found hfound => ?_
      obtain rfl := some.inj hfound
      exact ⟨s.item, rfl, rfl, .singleton _⟩
    · have hsteps : m.Reports (firstLoop (searchLoop m fuel) (m.stepsFrom s))
          fun x => m.Adjoins x s.item := by
        refine reports_firstLoop fun t ht => (ih t).post fun r _ hr found hfound => ?_
        obtain ⟨x, rfl, hx⟩ := hr found hfound
        exact ⟨t.item, adjoins_of_mem_stepsFrom ht, hx⟩
      refine .bind (R := fun _ _ => True) (.modify fun _ _ => trivial) fun _ =>
        Leads.bind hsteps fun r => .each fun _ hr => ?_
      cases r with
      | none =>
        exact .bind (R := fun _ _ => True) (.modify fun _ _ => trivial) fun _ =>
          .pure fun _ _ => nofun
      | some found =>
        obtain ⟨x, hx, htrail⟩ := hr found rfl
        exact (reports_closeLoop htrail hx).pre fun _ _ => trivial

theorem isClosedWalk_of_findLoop? {found : List Item} (h : m.findLoop? = some found) :
    m.IsClosedWalk found := by
  unfold findLoop? at h
  extract_lets fuel search start at h
  have hsearch : m.Reports search fun _ => True :=
    reports_firstLoop fun i _ => (reports_searchLoop fuel (.symbol i false)).post fun r _ hr found hfound => (hr found hfound).imp fun x hx => ⟨trivial, hx.2⟩
  rw [show search.run start = runFrom search start from rfl] at h
  obtain ⟨_, _, hrun, -⟩ | ⟨_, _, hrun, hwalk⟩ := hsearch.cases (s := start) trivial
  · rw [hrun] at h
    cases h
  · rw [hrun] at h
    cases h
    exact hwalk

/-! ## Loops among symbols -/

/-- Whether what a model records is defined, and what is defined is in its tables. -/
structure Closed (m : Model) : Prop where
  has : ∀ x, m.Defines x → m.Has x
  dependents : ∀ x, ∀ d ∈ m.dependentsOf x, m.Defines d
  members : ∀ c, ∀ i ∈ (m.choice c).symbols, m.Defines (.symbol i)
  choices : ∀ i c, (m.symbol i).choice = some c → m.Defines (.choice c)

theorem Closed.bounded (h : m.Closed) : m.Bounded :=
  ⟨fun x d hd => h.has d (h.dependents x d hd), fun c i hi => h.has _ (h.members c i hi),
    fun i c hc => h.has _ (h.choices i c hc)⟩

theorem Closed.loopless (h : m.Closed) (hnone : m.findLoop? = none) :
    ∀ i ∈ m.uniqueDefined, m.Loopless (.symbol i) :=
  loopless_of_findLoop? h.bounded (fun i hi => h.has (.symbol i) hi) hnone

theorem Finished.closed_withDependents (hm : m.Finished) : m.withDependents.Closed := by
  have hrecorded := recorded_withDependents (D := m.Defines) (fun _ hi => hi) fun _ hc => hc
  have hfinished := hrecorded.finished hm.withPlaces
  refine ⟨fun _ => hfinished.has, fun x d hd => ?_, fun c i hi => ?_, fun i c hc => ?_⟩
  · rcases hrecorded.added x d hd with hold | hnew
    · rw [dependentsOf_withPlaces] at hold
      cases hold
    · rw [hrecorded.defines]
      cases d <;> exact hnew
  · exact hfinished.mem_uniqueDefined.2 (hfinished.wellFormed.membersDefined c i hi)
  · exact hfinished.mem_uniqueChoices.2 (hfinished.wellFormed.members i c hc).1

/-- Whether two models differ in the order in which they list defined symbols and dependents only. -/
structure Reorders (m m' : Model) : Prop where
  same : m = { m' with
    uniqueDefined := m.uniqueDefined, symbolDependents := m.symbolDependents,
    choiceDependents := m.choiceDependents }
  defined : m.uniqueDefined.Perm m'.uniqueDefined
  dependents : ∀ x, (m.dependentsOf x).Perm (m'.dependentsOf x)

theorem Reorders.defines (h : m.Reorders m') : m.Defines x ↔ m'.Defines x := by
  cases x with
  | symbol i => exact h.defined.mem_iff
  | choice c =>
    rw [h.same]
    rfl

theorem Reorders.closed (h : m.Reorders m') (hm' : m'.Closed) : m.Closed := by
  refine ⟨fun x hx => ?_, fun x d hd => ?_, fun c i hi => ?_, fun i c hc => ?_⟩
  · have hhas := hm'.has x (h.defines.1 hx)
    rw [h.same]
    cases x <;> exact hhas
  · exact h.defines.2 (hm'.dependents x d ((h.dependents x).mem_iff.1 hd))
  · rw [h.same] at hi
    exact h.defines.2 (hm'.members c i hi)
  · rw [h.same] at hc
    exact h.defines.2 (hm'.choices i c hc)

section Unchosen

variable (hm : m.Closed) (hchoices : m.uniqueChoices = [])

include hm hchoices

theorem Adjoins.exists_symbol (h : m.Adjoins x y) : ∃ i ∈ m.uniqueDefined, x = .symbol i := by
  have hdefines : m.Defines x := by
    cases h with
    | dependent hx => exact hm.dependents _ _ hx
    | choice hc => exact hm.choices _ _ hc
    | member hi => exact hm.members _ _ hi
  cases x with
  | symbol i => exact ⟨i, hdefines, rfl⟩
  | choice c =>
    have hc : c ∈ m.uniqueChoices := hdefines
    rw [hchoices] at hc
    cases hc

theorem exists_transGen_of_adjoins {j : SymbolId} (h : Relation.TransGen m.Adjoins x (.symbol j)) :
    ∃ i ∈ m.uniqueDefined, x = .symbol i ∧
      Relation.TransGen (fun i k => .symbol k ∈ m.dependentsOf (.symbol i)) j i := by
  have hedge : ∀ i k, m.Adjoins (.symbol i) (.symbol k) → .symbol i ∈ m.dependentsOf (.symbol k) := by
    rintro i k ⟨⟩
    assumption
  induction h using head_induction_on with
  | single h =>
    obtain ⟨i, hi, rfl⟩ := h.exists_symbol hm hchoices
    exact ⟨i, hi, rfl, .single (hedge i j h)⟩
  | head h _ ih =>
    obtain ⟨i, hi, rfl⟩ := h.exists_symbol hm hchoices
    obtain ⟨k, -, rfl, hwalk⟩ := ih
    exact ⟨i, hi, rfl, hwalk.tail (hedge i k h)⟩

theorem IsClosedWalk.exists_transGen {found : List Item} (h : m.IsClosedWalk found) :
    ∃ i ∈ m.uniqueDefined,
      Relation.TransGen (fun i k => .symbol k ∈ m.dependentsOf (.symbol i)) i i := by
  obtain ⟨x, rest, rfl, hchain⟩ := h
  have hwalk := (pairwise_cons.1 (hchain.imp fun _ _ => single).pairwise).1 x
    (mem_append_right _ mem_cons_self)
  obtain ⟨y, hxy, -⟩ := head'_iff.1 hwalk
  obtain ⟨i, hi, rfl⟩ := hxy.exists_symbol hm hchoices
  obtain ⟨k, -, hk, hcycle⟩ := exists_transGen_of_adjoins hm hchoices hwalk
  cases hk
  exact ⟨i, hi, hcycle⟩

end Unchosen

theorem Loopless.not_transGen (h : m.Loopless x) : ¬Relation.TransGen m.LeadsTo x x := by
  induction h with
  | intro x _ ih =>
    intro hx
    obtain ⟨y, hxy, hyx⟩ := head'_iff.1 hx
    exact ih y hxy (.tail' hyx hxy)

theorem Closed.not_transGen (hm : m.Closed) (h : m.findLoop? = none) {i : SymbolId}
    (hi : i ∈ m.uniqueDefined) :
    ¬Relation.TransGen (fun i k => .symbol k ∈ m.dependentsOf (.symbol i)) i i :=
  fun hcycle => Loopless.not_transGen (hm.loopless h i hi) (hcycle.lift Item.symbol fun _ _ h => h)

end Model

/-- Whenever a description has been read and a loop is found among its items, the loop comes back to
where it begins.  In a description without choices, one is found exactly if a defined symbol comes
back to itself along dependents.  The order in which symbols and dependents are listed does not
matter. -/
theorem findLoop?_of_readRoot {w : Workspace} {o : LoadOptions} {os : List Outline} {r : Reading}
    (hread : runFrom (readRoot o.root) (Reading.start w o) = (.ok os, r)) {m : Model}
    (hm : m.Reorders (r.model.finish os).withDependents) :
    (∀ found, m.findLoop? = some found → m.IsClosedWalk found) ∧
      (m.uniqueChoices = [] → (m.findLoop?.isSome ↔ ∃ i ∈ m.uniqueDefined,
        Relation.TransGen (fun i k => .symbol k ∈ m.dependentsOf (.symbol i)) i i)) := by
  have hfinished := ((gives_readRoot w o o.root).apply rfl hread).finished
  have hclosed := hm.closed hfinished.closed_withDependents
  refine ⟨fun found => Model.isClosedWalk_of_findLoop?, fun hchoices => ⟨fun hsome => ?_, ?_⟩⟩
  · obtain ⟨found, hfound⟩ := isSome_iff_exists.1 hsome
    exact (Model.isClosedWalk_of_findLoop? hfound).exists_transGen hclosed hchoices
  · rintro ⟨i, hi, hcycle⟩
    refine isSome_iff_ne_none.2 fun hnone => ?_
    exact hclosed.not_transGen hnone hi hcycle

/-- Two symbols, each with a prompt that is shown if the other one is set. -/
def mutualWorkspace : Workspace :=
  { files := { entries := [(["Kconfig"],
      .file "config A\n\tbool \"a\" if B\nconfig B\n\tbool \"b\" if A\n".toUTF8)] } }

/-- Whether a description is read, and what has been read passes a test. -/
def readsTo (w : Workspace) (p : List Outline → Reading → Bool) : Bool :=
  match runFrom (readRoot "Kconfig") (Reading.start w {}) with
  | (.ok os, r) => p os r
  | _ => false

theorem exists_of_readsTo (w : Workspace) (p : List Outline → Reading → Bool) (h : readsTo w p) :
    ∃ os r, runFrom (readRoot "Kconfig") (Reading.start w {}) = (.ok os, r) ∧ p os r := by
  unfold readsTo at h
  split at h
  · exact ⟨_, _, ‹_›, h⟩
  · cases h

theorem findLoop?_mutualWorkspace :
    ∃ os r found, runFrom (readRoot "Kconfig") (Reading.start mutualWorkspace {}) = (.ok os, r) ∧
      (r.model.finish os).withDependents.findLoop? = some found ∧
      (r.model.finish os).withDependents.IsClosedWalk found ∧
      ∃ i ∈ (r.model.finish os).withDependents.uniqueDefined, Relation.TransGen
        (fun i k => .symbol k ∈ (r.model.finish os).withDependents.dependentsOf (.symbol i)) i i := by
  obtain ⟨os, r, hread, hrun⟩ := exists_of_readsTo mutualWorkspace (fun os r =>
      (r.model.finish os).withDependents.uniqueChoices.isEmpty &&
      (r.model.finish os).withDependents.findLoop?.isSome)
    (by decide +kernel)
  simp only [Bool.and_eq_true, List.isEmpty_iff, isSome_iff_exists] at hrun
  obtain ⟨hchoices, found, hfound⟩ := hrun
  obtain ⟨hwalk, hcycle⟩ := findLoop?_of_readRoot (o := {}) hread ⟨rfl, .rfl, fun _ => .rfl⟩
  exact ⟨os, r, found, hread, hfound, hwalk found hfound, (hcycle hchoices).1 (by simp [hfound])⟩

end Buildsmith.Kconfig
