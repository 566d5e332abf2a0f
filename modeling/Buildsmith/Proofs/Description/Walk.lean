import Buildsmith.Kconfig.Report
import Buildsmith.Proofs.Assignment.Wiring
import Buildsmith.Proofs.Description.Gathering

/-!
# Walking the menu

A walk of the menu goes from each entry to the first one below it, else to the one behind it, else
to the one behind the nearest entry above that has one.  By these steps it meets the entries of a
finished model in the order of their definition (`Model.Finished.allEntries_eq`).
-/

namespace Buildsmith.Kconfig

open List Model Entry

namespace Model

variable {m : Model} {i p : EntryId} {after : Option EntryId}

/-! ## One step -/

variable {post pre ks : List EntryId}

theorem nextSibling?_eq (hp : m.parentOf i = some p) (hc : m.childrenOf p = pre ++ i :: post)
    (hi : i ∉ pre) : m.nextSibling? i = post.head? := by
  have hskip : ∀ k ∈ pre, decide (k ≠ i) := by
    intro k hk
    have hne : k ≠ i := fun h => hi (h ▸ hk)
    simpa using hne
  have hdrop : (m.childrenOf p).dropWhile (· ≠ i) = i :: post := by
    rw [hc, dropWhile_append_of_pos hskip]
    simp
  unfold nextSibling?
  rw [hp, Option.bind_some, hdrop, tail_cons]

theorem nextBehind?_succ (hp : m.parentOf i = some p) (hc : m.childrenOf p = pre ++ i :: post)
    (hi : i ∉ pre) (fuel : Nat) :
    m.nextBehind? (fuel + 1) i = post.head?.or (m.nextBehind? fuel p) := by
  rw [nextBehind?, nextSibling?_eq hp hc hi, hp]
  cases post <;> rfl

/-! ## Walks -/

/-- Whether a walk meets some entries one after the other, and then `after`. -/
def Walks (m : Model) (after : Option EntryId) : List EntryId → Prop
  | [] => True
  | k :: ks => m.nextEntry? k = ks.head?.or after ∧ m.Walks after ks

theorem walks_append {ls : List EntryId}
    (hks : m.Walks (ls.head?.or after) ks) (hls : m.Walks after ls) : m.Walks after (ks ++ ls) := by
  induction ks with
  | nil => exact hls
  | cons k ks ih =>
    obtain ⟨hnext, hrest⟩ := hks
    refine ⟨?_, ih hrest⟩
    rw [hnext]
    cases ks <;> rfl

theorem Walks.entriesAfter_eq (h : m.Walks none ks) (hi : m.nextEntry? i = ks.head?) {fuel : Nat}
    (hfuel : ks.length ≤ fuel) : m.entriesAfter fuel i = ks := by
  induction ks generalizing i fuel with
  | nil =>
    cases fuel with
    | zero => rfl
    | succ fuel => rw [entriesAfter, hi, head?_nil]
  | cons k ks ih =>
    cases fuel with
    | zero => cases hfuel
    | succ fuel =>
      obtain ⟨hnext, hrest⟩ := h
      rw [entriesAfter, hi]
      have htail : m.entriesAfter fuel k = ks :=
        ih hrest (hnext.trans Option.or_none) (Nat.le_of_succ_le_succ hfuel)
      exact congrArg (k :: ·) htail

end Model

/-! ## Menus -/

theorem Menu.head?_idsAll (xs : List Menu) : (Menu.idsAll xs).head? = (xs.map Menu.id).head? := by
  cases xs with
  | nil => rfl
  | cons x xs =>
    cases x
    rfl

variable {m : Model}

mutual

-- `d` bounds the number of levels above, so that the climb out of the menu does not end too early
theorem Menu.walks : ∀ (x : Menu) {after : Option EntryId} {d : Nat},
    (∀ n ∈ x.nodes, m.Ties n.1 n.2) → x.ids.Nodup →
      (∀ fuel, d < fuel → m.nextBehind? fuel x.id = after) →
      d + x.ids.length ≤ m.entries.size → m.Walks after x.ids
  | .entry i children, after, d, hties, hnodup, hbehind, hsize => by
    obtain ⟨⟨hbelow, hparents⟩, hties⟩ := forall_mem_cons.1 hties
    obtain ⟨hi, hnodup'⟩ := nodup_cons.1 hnodup
    have hlength : d + 1 + (Menu.idsAll children).length ≤ m.entries.size := by
      rw [Menu.ids, length_cons] at hsize
      omega
    refine ⟨?_, ?_⟩
    · rw [ nextEntry?, hbelow, Menu.head?_idsAll]
      cases hhead : (children.map Menu.id).head? with
      | some k => rfl
      | none =>
        exact hbehind _ (by omega)
    · exact Menu.walksAll children (p := []) hties hparents hbelow
        (hnodup'.sublist (Menu.map_id_sublist children)) hnodup'
        (fun fuel hfuel => hbehind fuel hfuel) hlength

theorem Menu.walksAll {parent : EntryId} :
    ∀ (xs : List Menu) {p : List EntryId} {after : Option EntryId} {d : Nat},
      (∀ n ∈ Menu.nodesAll xs, m.Ties n.1 n.2) →
      (∀ k ∈ xs.map Menu.id, m.parentOf k = some parent) →
      m.childrenOf parent = p ++ xs.map Menu.id →
      (p ++ xs.map Menu.id).Nodup → (Menu.idsAll xs).Nodup →
      (∀ fuel, d ≤ fuel → m.nextBehind? fuel parent = after) →
      d + (Menu.idsAll xs).length ≤ m.entries.size → m.Walks after (Menu.idsAll xs)
  | [], _, _, _, _, _, _, _, _, _, _ => trivial
  | x :: xs, pre, after, d, hties, hparents, hlevel, hdistinct, hnodup, hbehind, hsize => by
    obtain ⟨hx, hxs⟩ := forall_mem_append.1 hties
    obtain ⟨hparent, hparents⟩ := forall_mem_cons.1 hparents
    obtain ⟨hnodup', hrest, -⟩ := nodup_append.1 hnodup
    have hlength : d + x.ids.length ≤ m.entries.size ∧
        d + (Menu.idsAll xs).length ≤ m.entries.size := by
      rw [Menu.idsAll, length_append] at hsize
      omega
    have hpre : x.id ∉ pre := by
      rw [map_cons, nodup_append] at hdistinct
      exact fun h => hdistinct.2.2 x.id h x.id mem_cons_self rfl
    refine walks_append (x.walks hx hnodup' (fun fuel hfuel => ?_) hlength.1) ?_
    · cases fuel with
      | zero => cases hfuel
      | succ fuel =>
        rw [nextBehind?_succ hparent hlevel hpre, hbehind fuel (Nat.le_of_lt_succ hfuel),
          Menu.head?_idsAll]
    · refine Menu.walksAll xs (p := pre ++ [x.id]) hxs hparents ?_ ?_ hrest hbehind hlength.2
      · rw [hlevel, map_cons, append_assoc]
        rfl
      · rwa [append_assoc]

end

namespace Model.Finished

/-- A walk of the menu meets every entry but the one at the top, in the order of definition. -/
theorem allEntries_eq (hm : m.Finished) : m.allEntries = range' 1 (m.entries.size - 1) := by
  have hnodup : (Menu.idsAll m.menu).Nodup := hm.menu ▸ nodup_range'
  have hlength : (Menu.idsAll m.menu).length ≤ m.entries.size := by
    rw [hm.menu, length_range']
    omega
  obtain ⟨hparent, -⟩ := hm.top
  obtain ⟨⟨hchildren, hroots⟩, hties⟩ := forall_mem_cons.1 hm.tied
  -- nothing is behind the entry at the top
  have hbehind : ∀ fuel, m.nextBehind? fuel Model.top = none := by
    intro fuel
    cases fuel with
    | zero => rfl
    | succ fuel =>
      rw [nextBehind?, nextSibling?, hparent]
      rfl
  have hwalks : m.Walks none (Menu.idsAll m.menu) :=
    Menu.walksAll m.menu (p := []) (d := 0) hties hroots hchildren
      (hnodup.sublist (Menu.map_id_sublist m.menu)) hnodup (fun fuel _ => hbehind fuel) (by omega)
  have hfirst : m.nextEntry? Model.top = (Menu.idsAll m.menu).head? := by
    rw [ nextEntry?, hchildren, Menu.head?_idsAll]
    cases hhead : (m.menu.map Menu.id).head? with
    | some k => rfl
    | none => exact hbehind _
  rw [← hm.menu]
  exact hwalks.entriesAfter_eq hfirst hlength

variable {k p : EntryId}

theorem mem_ids (hm : m.Finished) : p ∈ (Menu.entry Model.top m.menu).ids ↔ p < m.entries.size := by
  have hrange : ∀ p n : Nat, 0 < n → (p = 0 ∨ 1 ≤ p ∧ p < 1 + (n - 1) ↔ p < n) := by omega
  rw [Menu.ids, hm.menu, mem_cons, mem_range'_1]
  exact hrange p _ hm.top.2

theorem parentOf_of_child (hm : m.Finished) (hk : k ∈ m.childrenOf p) :
    m.parentOf k = some p ∧ (p = Model.top ∨ p ∈ m.allEntries) := by
  have hlt : p < m.entries.size := by
    by_contra hge
    rw [childrenOf, Array.getD_eq_getD_getElem?,
      Array.getElem?_eq_none (hm.links.2 ▸ Nat.le_of_not_lt hge)] at hk
    cases hk
  have hp := hm.mem_ids.2 hlt
  rw [← Menu.map_fst_nodes] at hp
  obtain ⟨n, hn, rfl⟩ := mem_map.1 hp
  obtain ⟨hbelow, hparents⟩ := hm.tied n hn
  refine ⟨hparents k (hbelow ▸ hk), ?_⟩
  rw [hm.allEntries_eq, ← hm.menu]
  exact mem_cons.1 (hm.mem_ids.2 hlt)

theorem exists_parent (hm : m.Finished) (hk : k ∈ m.allEntries) :
    ∃ p, k ∈ m.childrenOf p ∧ (m.childrenOf p).count k = 1 := by
  have hnodup : (Menu.idsAll m.menu).Nodup := hm.menu ▸ nodup_range'
  rw [hm.allEntries_eq, ← hm.menu] at hk
  have hne : k ≠ Model.top := by
    rintro rfl
    rw [hm.menu, mem_range'_1] at hk
    exact absurd hk.1 (by decide)
  obtain ⟨n, hn, hk⟩ :=
    ((Menu.entry Model.top m.menu).exists_node k (mem_cons_of_mem _ hk)).resolve_left hne
  have hbelow : m.childrenOf n.1 = n.2 := (hm.tied n hn).1
  refine ⟨n.1, hbelow ▸ hk, count_eq_one_of_mem ?_ (hbelow ▸ hk)⟩
  exact hbelow ▸ hnodup.sublist ((Menu.entry Model.top m.menu).below_sublist n hn)

end Model.Finished

/-! ## Symbols along the walk -/

/-- The symbols of some entries, in order. -/
def Model.symbolsOf (m : Model) (ks : List EntryId) : List SymbolId :=
  ks.filterMap fun k => (m.entry k).subject.symbol?

theorem Model.symbolsOf_firstEntries (met : List SymbolId) (ks : List EntryId) :
    met.reverse ++ m.symbolsOf (m.firstEntries met ks) =
      ((m.symbolsOf ks).foldl (fun seen x => if seen.contains x then seen else x :: seen)
        met).reverse := by
  induction ks generalizing met with
  | nil => simp [symbolsOf, firstEntries]
  | cons k ks ih =>
    unfold firstEntries
    cases hs : (m.entry k).subject.symbol? with
    | none =>
      have hskip : m.symbolsOf (k :: ks) = m.symbolsOf ks := filterMap_cons_none hs
      have hskip' : ∀ ls, m.symbolsOf (k :: ls) = m.symbolsOf ls :=
        fun ls => filterMap_cons_none hs
      rw [hskip]
      exact (congrArg _ (hskip' _)).trans (ih met)
    | some s =>
      have htake : ∀ ls, m.symbolsOf (k :: ls) = s :: m.symbolsOf ls :=
        fun ls => filterMap_cons_some hs
      rw [htake, foldl_cons]
      by_cases hmet : met.contains s
      · simp only [hmet]
        exact ih met
      · simp only [hmet, Bool.false_eq_true, if_false]
        rw [htake, ← ih (s :: met), reverse_cons, append_assoc]
        rfl

theorem Model.Finished.symbolsOf_allEntries (hm : m.Finished) (htop : (m.entry Model.top).subject = .menu) :
    m.symbolsOf m.allEntries = m.defined := by
  have hsubjects : m.subjects = (range m.entries.size).map fun k => (m.entry k).subject := by
    refine ext_getElem? fun k => ?_
    rw [getElem?_subjects]
    by_cases hk : k < m.entries.size
    · simp [hk, entry]
    · simp [hk]
  obtain ⟨n, hn⟩ : ∃ n, m.entries.size = n + 1 := Nat.exists_eq_succ_of_ne_zero
    (Nat.ne_of_gt hm.top.2)
  rw [hm.wellFormed.definitions, hsubjects, hm.allEntries_eq, hn, filterMap_map, range_eq_range']
  refine (filterMap_cons_none ?_).symm
  show ((m.entry Model.top).subject).symbol? = none
  rw [htop]
  rfl

/-! ## Loaded models -/

/-- What an entry stands for and where it is defined. -/
def Entry.origin (e : Entry) : Subject × Bool × String × Nat × List (String × Nat) :=
  (e.subject, e.isMenuconfig, e.file, e.line, e.includePath)

theorem Entry.origin_inherit (base visibleIf : Expr) (e : Entry) :
    (e.inherit base visibleIf).origin = e.origin := by
  unfold inherit
  cases hsubject : e.subject <;> simp [origin, hsubject]

namespace Reading.Completes

variable {r : Reading} {os : List Outline}

theorem tables (h : r.Completes os m) :
    m.entries = (r.model.finish os).entries ∧ m.symbols = (r.model.finish os).symbols := by
  have hfirst := recorded_withDependents (D := fun _ => True) (m := r.model.finish os)
    (fun _ _ => trivial) fun _ _ => trivial
  have hlast := recorded_withChoiceDependents (D := fun _ => True)
    (m := (r.model.finish os).withDependents) fun _ _ => trivial
  rw [h.complete, (hfirst.trans hlast).same]
  exact ⟨rfl, rfl⟩

/-- Where the entries of the model that was read stand in its outline. -/
def places (r : Reading) (os : List Outline) : List (EntryId × Surroundings) :=
  Outline.aroundAll r.model.entries {} os

theorem passed (h : r.Completes os m) :
    Passed r.model.entries r.model.entries m.entries (places r os) ∧
      (places r os).map Prod.fst = range' 1 (r.model.entries.size - 1) ∧
      m.entries.size = r.model.entries.size := by
  obtain ⟨ss, hr, hids, -⟩ := h.outlined
  have hsize : r.model.entries.size = ss.length + 1 := by
    rw [hr.entries_size, singleton_append, length_cons]
  have hlt : ∀ k ∈ Outline.idsAll os, k < r.model.entries.size := by
    intro k hk
    rw [hids, mem_range'_1, Nat.add_comm] at hk
    rw [hsize]
    exact hk.2
  have hnodup : (Outline.idsAll os).Nodup := hids ▸ nodup_range'
  have hfinish := (finish_tables r.model os hr.wellFormed.lt_size).1
  rw [h.tables.1, hfinish]
  refine ⟨?_, ?_, ?_⟩
  · exact Outline.passed_inheritAll os {} r.model.entries hnodup fun k hk => ⟨hlt k hk, rfl⟩
  · rw [places, Outline.map_aroundAll os {} hlt, hids, hsize]
    rfl
  · exact Outline.size_inheritAll os .yes .yes r.model.entries

theorem entry_top (h : r.Completes os m) : (m.entry top).subject = .menu := by
  obtain ⟨hpassed, hids, -⟩ := h.passed
  have htop : top ∉ (places r os).map Prod.fst := by
    rw [hids, mem_range'_1]
    exact fun h => absurd h.1 (by decide)
  obtain ⟨ss, hr, -⟩ := h.outlined
  have hfirst := congrArg (·[0]?) hr.entries
  simp only [getElem?_map, Array.getElem?_toList] at hfirst
  have hold : m.entries[top]? = r.model.entries[0]? := hpassed.others top htop
  rw [entry, Array.getD_eq_getD_getElem?, hold]
  cases hentry : r.model.entries[0]? with
  | none =>
    rw [hentry] at hfirst
    cases hfirst
  | some e =>
    rw [hentry] at hfirst
    exact Option.some.inj hfirst

theorem origins (h : r.Completes os m) : m.allEntries.map (fun k => (m.entry k).origin) =
      r.model.entries.toList.tail.map origin := by
  obtain ⟨hpassed, hids, hsize⟩ := h.passed
  have horigin := hpassed.map_eq origin_inherit
  rw [h.loaded.finished.allEntries_eq, hsize]
  refine ext_getElem? fun k => ?_
  have hlater : (r.model.entries.toList.tail.map origin)[k]? = (m.entries[k + 1]?).map origin := by
    rw [horigin, getElem?_map, getElem?_tail, Array.getElem?_toList]
  rw [hlater]
  by_cases hk : k + 1 < m.entries.size
  · have hk' : k < r.model.entries.size - 1 := by omega
    simp [hk', hk, entry, Nat.add_comm 1 k]
  · have hk' : ¬k < r.model.entries.size - 1 := by omega
    simp [hk', hk]

end Reading.Completes

/-- The menu of a session that is opened loses, repeats and reorders nothing.  A walk meets the
entries that were made while files were read, each once and in that order; each of them is below its
parent and no other entry; and the symbols along the walk are the defined ones. -/
theorem walk_menu {w : Workspace} {o : LoadOptions} {s : Session} {r : Reading}
    (hopen : openSession w o = (.ok s, r)) :
    (∃ os r₀, runFrom (readRoot o.root) (Reading.start w o) = (.ok os, r₀) ∧
      s.model.allEntries = List.range' 1 (r₀.model.entries.size - 1) ∧
      s.model.allEntries.map (fun k => (s.model.entry k).origin) =
        r₀.model.entries.toList.tail.map origin) ∧
    (∀ k ∈ s.model.allEntries, ∃ p, s.model.parentOf k = some p ∧
      (p = Model.top ∨ p ∈ s.model.allEntries) ∧ (s.model.childrenOf p).count k = 1 ∧
      ∀ p', k ∈ s.model.childrenOf p' → p' = p) ∧
    s.model.symbolsOf (s.model.entryOrder false) = s.model.defined ∧
    s.model.symbolsOf (s.model.entryOrder true) = s.model.uniqueDefined := by
  obtain ⟨⟨os, r₀, hread, hcompletes⟩, -⟩ := completes_of_openSession hopen
  have hm := hcompletes.loaded.finished
  have hsymbols := hm.symbolsOf_allEntries hcompletes.entry_top
  refine ⟨⟨os, r₀, hread, ?_, hcompletes.origins⟩, ?_, hsymbols, ?_⟩
  · rw [hm.allEntries_eq, hcompletes.passed.2.2]
  · intro k hk
    obtain ⟨p, hchild, hcount⟩ := hm.exists_parent hk
    obtain ⟨hparent, hp⟩ := hm.parentOf_of_child hchild
    refine ⟨p, hparent, hp, hcount, fun p' hp' => ?_⟩
    exact Option.some.inj ((hm.parentOf_of_child hp').1.symm.trans hparent)
  · have hfirst := Model.symbolsOf_firstEntries (m := s.model) [] s.model.allEntries
    rw [hsymbols] at hfirst
    rw [hm.uniqueDefined]
    exact hfirst

/-- A symbol with another one that depends on it, a block with a symbol that has no prompt and a
menu in which the first symbol is defined again, and a choice. -/
def nestedWorkspace : Workspace :=
  { files := { entries := [(["Kconfig"],
      .file ("config A\n\tbool \"a\"\nconfig B\n\tbool \"b\"\n\tdepends on A\n" ++
        "if A\nconfig C\n\tbool\nmenu \"m\"\nconfig A\n\tbool\nendmenu\nendif\n" ++
        "choice\n\tprompt \"c\"\nconfig D\n\tbool \"d\"\nendchoice\n").toUTF8)] } }

/-- The second entry hangs below the first one and nowhere else, and the first symbol, which has two
entries, is met twice. -/
theorem walk_nestedMenu :
    ∃ s r, openSession nestedWorkspace {} = (.ok s, r) ∧
      (∀ p, 2 ∈ s.model.childrenOf p → p = 1) ∧
      s.model.symbolsOf (s.model.entryOrder false) = [4, 5, 6, 4, 7] ∧
      s.model.symbolsOf (s.model.entryOrder true) = [4, 5, 6, 7] := by
  obtain ⟨s, r, hopen, hrun⟩ := exists_of_opensTo nestedWorkspace (fun s =>
      decide (2 ∈ s.model.allEntries) && s.model.parentOf 2 == some 1 &&
      s.model.defined == [4, 5, 6, 4, 7] && s.model.uniqueDefined == [4, 5, 6, 7])
    (by decide +kernel)
  simp only [Bool.and_eq_true, decide_eq_true_eq, beq_iff_eq] at hrun
  obtain ⟨⟨⟨hsecond, hparent⟩, hdefined⟩, hunique⟩ := hrun
  obtain ⟨-, hparents, hsymbols, hfirst⟩ := walk_menu hopen
  obtain ⟨p, hp, -, -, honly⟩ := hparents 2 hsecond
  have hone : p = 1 := Option.some.inj (hp.symm.trans hparent)
  exact ⟨s, r, hopen, fun p' hp' => (honly p' hp').trans hone, hsymbols.trans hdefined,
    hfirst.trans hunique⟩

end Buildsmith.Kconfig
