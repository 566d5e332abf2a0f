import Buildsmith.Project.Package
import Mathlib.Data.List.Basic

/-!
# Components are sorted by priority

Components are inserted one by one into a list that stays sorted by rank, each behind those of its
own rank (`Arranged.insert`).  So the order is that of the ranks and, among equal names, that of the
input (`sortComponents_stable`).
-/

namespace Buildsmith.Project

open List Buildsmith.Path

variable {order done : List String} {ranked l : List (Nat × String)} {name c : String} {i r : Nat}

/-! ## Ranks -/

/-- Whether a name stands at a position of a list for the last time. -/
def IsLastAt (order : List String) (name : String) (i : Nat) : Prop :=
  order[i]? = some name ∧ ∀ j, order[j]? = some name → j ≤ i

theorem IsLastAt.unique {j : Nat} (h : IsLastAt order name i) (h' : IsLastAt order name j) :
    i = j :=
  Nat.le_antisymm (h'.2 i h.1) (h.2 j h'.1)

theorem isLastAt_of_rank? (h : rank? order name = some i) : IsLastAt order name i := by
  obtain ⟨k, hk, rfl⟩ := Option.map_eq_some_iff.1 h
  obtain ⟨hlt, hname, hfirst⟩ := findIdx?_eq_some_iff_getElem.1 hk
  rw [length_reverse] at hlt
  refine ⟨?_, fun j hj => ?_⟩
  · rw [getElem_reverse] at hname
    rw [getElem?_eq_getElem (by omega)]
    exact congrArg some (eq_of_beq hname)
  · obtain ⟨hj, hname'⟩ := List.getElem?_eq_some_iff.1 hj
    by_contra hlt'
    refine hfirst (order.length - 1 - j) (by omega) ?_
    have hback : order.length - 1 - (order.length - 1 - j) = j := by omega
    simp [hback, hname']

theorem mem_iff_rank? : name ∈ order ↔ ∃ i, rank? order name = some i := by
  rw [← Option.isSome_iff_exists, rank?]
  simp

/-! ## Insertion -/

theorem insertByRank_perm (r : Nat) (c : String) (l : List (Nat × String)) :
    (insertByRank r c l).Perm ((r, c) :: l) := by
  induction l with
  | nil => rfl
  | cons p l ih =>
    unfold insertByRank
    split
    · rfl
    · exact (ih.cons p).trans (.swap ..)

theorem insertByRank_sorted (h : l.Pairwise (·.1 ≤ ·.1)) :
    (insertByRank r c l).Pairwise (·.1 ≤ ·.1) := by
  induction l with
  | nil => simp [insertByRank]
  | cons p l ih =>
    obtain ⟨hp, hl⟩ := pairwise_cons.1 h
    unfold insertByRank
    split
    · rename_i hlt
      refine pairwise_cons.2 ⟨fun q hq => ?_, h⟩
      obtain rfl | hq := mem_cons.1 hq
      · exact Nat.le_of_lt hlt
      · exact Nat.le_trans (Nat.le_of_lt hlt) (hp q hq)
    · rename_i hle
      refine pairwise_cons.2 ⟨fun q hq => ?_, ih hl⟩
      obtain rfl | hq := mem_cons.1 ((insertByRank_perm r c l).subset hq)
      · exact Nat.le_of_not_lt hle
      · exact hp q hq

/-- What is inserted comes behind all entries that count as its equals. -/
theorem filter_insertByRank {q : Nat × String → Bool} (h : l.Pairwise (·.1 ≤ ·.1))
    (hq : q (r, c) → ∀ p ∈ l, q p → p.1 = r) :
    (insertByRank r c l).filter q = l.filter q ++ [(r, c)].filter q := by
  induction l with
  | nil => rfl
  | cons p l ih =>
    obtain ⟨hp, hl⟩ := pairwise_cons.1 h
    unfold insertByRank
    split
    · rename_i hlt
      by_cases hnew : q (r, c)
      · have hnone : (p :: l).filter q = [] := by
          refine filter_eq_nil_iff.2 fun x hx hqx => ?_
          have hrank := hq hnew x hx hqx
          obtain rfl | hx := mem_cons.1 hx
          · omega
          · have hle := hp x hx
            omega
        rw [filter_cons, hnone]
        simp [hnew]
      · simp [hnew]
    · rw [filter_cons, filter_cons, ih hl fun hnew x hx => hq hnew x (mem_cons_of_mem _ hx)]
      split <;> rfl

/-! ## Runs -/

/-- Whether ranked components are those of a list, by rank and then as in the list. -/
structure Arranged (order done : List String) (ranked : List (Nat × String)) : Prop where
  ranks : ∀ p ∈ ranked, rank? order (Path.baseName p.2) = some p.1
  sorted : ranked.Pairwise (·.1 ≤ ·.1)
  perm : (ranked.map Prod.snd).Perm (done.filter (Path.baseName · ∈ order))
  stable : ∀ name ∈ order, (ranked.map Prod.snd).filter (Path.baseName · = name) =
    done.filter (Path.baseName · = name)

theorem Arranged.insert (h : Arranged order done ranked) (hr : rank? order (baseName c) = some r) :
    Arranged order (done ++ [c]) (insertByRank r c ranked) where
  ranks p hp := by
    obtain rfl | hp := mem_cons.1 ((insertByRank_perm r c ranked).subset hp)
    · exact hr
    · exact h.ranks p hp
  sorted := insertByRank_sorted h.sorted
  perm := by
    have hmem : baseName c ∈ order := mem_iff_rank?.2 ⟨r, hr⟩
    refine ((insertByRank_perm r c ranked).map _).trans ?_
    simpa [hmem] using (h.perm.cons c).trans (perm_append_singleton c _).symm
  stable name hname := by
    have hnames := h.stable name hname
    rw [filter_map] at hnames ⊢
    rw [filter_insertByRank h.sorted, map_append, hnames]
    · by_cases hc : baseName c = name <;> simp [hc]
    · intro hc p hp hpc
      have hsame : baseName p.2 = baseName c :=
        (of_decide_eq_true hpc).trans (of_decide_eq_true hc).symm
      exact Option.some.inj ((h.ranks p hp).symm.trans (hsame ▸ hr))

theorem Arranged.skip (h : Arranged order done ranked)
    (hc : rank? order (baseName c) = none) : Arranged order (done ++ [c]) ranked where
  ranks := h.ranks
  sorted := h.sorted
  perm := by
    have hmem : baseName c ∉ order := by simp [mem_iff_rank?, hc]
    simpa [hmem] using h.perm
  stable name hname := by
    have hne : baseName c ≠ name := by
      rintro rfl
      simp [mem_iff_rank?, hc] at hname
    simpa [hne] using h.stable name hname

theorem exists_arranged (others rest : List String) (h : Arranged order done ranked)
    (hothers : others.reverse = done.filter (baseName · ∉ order)) :
    ∃ ranked', Arranged order (done ++ rest) ranked' ∧ sortFrom order ranked others rest =
      ranked'.map Prod.snd ++ (done ++ rest).filter (baseName · ∉ order) := by
  induction rest generalizing done ranked others with
  | nil => exact ⟨ranked, by simpa using h, by simp [sortFrom, hothers]⟩
  | cons c rest ih =>
    rw [append_cons, sortFrom]
    cases hc : rank? order (baseName c) with
    | some r =>
      have hmem : baseName c ∈ order := mem_iff_rank?.2 ⟨r, hc⟩
      exact ih _ (h.insert hc) (by simp [hothers, hmem])
    | none =>
      have hmem : baseName c ∉ order := by simp [mem_iff_rank?, hc]
      exact ih _ (h.skip hc) (by simp [hothers, hmem])

/-- Components whose names are listed come first, sorted by the last positions of their names, and
components of one name stay in order; the others follow as they were. -/
theorem sortComponents_stable (order components : List String) :
    (sortComponents order components).Perm components ∧
      ∃ listed, sortComponents order components =
          listed ++ components.filter (Path.baseName · ∉ order) ∧
        (∀ c ∈ listed, Path.baseName c ∈ order) ∧
        (listed.Pairwise fun a b => ∀ i j, IsLastAt order (Path.baseName a) i →
          IsLastAt order (Path.baseName b) j → i ≤ j) ∧
        ∀ name ∈ order, listed.filter (Path.baseName · = name) =
          components.filter (Path.baseName · = name) := by
  have hstart : Arranged order [] [] := ⟨nofun, .nil, .nil, fun _ _ => rfl⟩
  obtain ⟨ranked, h, hsort⟩ := exists_arranged [] components hstart rfl
  rw [nil_append] at h hsort
  have hlast : ∀ p ∈ ranked, IsLastAt order (Path.baseName p.2) p.1 :=
    fun p hp => isLastAt_of_rank? (h.ranks p hp)
  refine ⟨?_, ranked.map Prod.snd, hsort, fun c hc => ?_, pairwise_map.2 ?_, h.stable⟩
  · rw [sortComponents, hsort]
    refine (h.perm.append_right _).trans ?_
    simpa using filter_append_perm (Path.baseName · ∈ order) components
  · exact of_decide_eq_true (mem_filter.1 (h.perm.subset hc)).2
  · refine h.sorted.imp_of_mem fun hp hq hle i j hi hj => ?_
    rwa [hi.unique (hlast _ hp), hj.unique (hlast _ hq)]

end Buildsmith.Project
