import Buildsmith.Proofs.Description.Loops
import Buildsmith.Proofs.Evaluation.Asking

/-!
# Values that ask for themselves

A model is loaded only if the search for loops has found nothing.  The search follows nearly all that
evaluation reads, and what it follows leads to no loop (`Model.Order`).  It does not follow three
kinds of reads (`Model.Overlooks`), and every value that asks for itself does so through one of them.
-/

namespace Buildsmith.Kconfig

open List

namespace Expr

theorem items_of_mem_disjuncts {e d : Expr} (hd : d ∈ e.disjuncts) : ∀ x ∈ d.items, x ∈ e.items := by
  induction e with
  | or a b iha ihb =>
    intro x hx
    rcases mem_append.1 hd with hd | hd
    · exact mem_append_left _ (iha hd x hx)
    · exact mem_append_right _ (ihb hd x hx)
  | _ =>
    cases mem_singleton.1 hd
    exact fun _ hx => hx

theorem mem_items_of_head {e : Expr} {x : Item} (h : e.conjuncts.headD e = .item x) :
    x ∈ e.items := by
  have hx : x ∈ (e.conjuncts.headD e).items := by
    rw [h]
    exact mem_singleton.2 rfl
  cases hconjuncts : e.conjuncts with
  | nil =>
    rw [hconjuncts] at hx
    exact hx
  | cons d ds =>
    have hd : d ∈ e.conjuncts := by
      rw [hconjuncts]
      exact mem_cons_self
    rw [hconjuncts] at hx
    exact items_subset_of_mem_conjuncts hd x hx

end Expr

theorem Model.exists_of_mem_mayMention {m : Model} {a b : Query} (h : b ∈ m.mayMention a) :
    ∃ i k, a = .tristate i ∧ .symbol k ∈ (m.symbol i).reverseDep.items ∧
      (b = .text k ∨ b ∈ (m.symbol k).directDep.queries) := by
  cases a with
  | tristate i =>
    obtain ⟨e, he, hb⟩ := mem_flatMap.1 h
    split at hb
    · rename_i k hk
      exact ⟨i, k, rfl, Expr.items_of_mem_disjuncts he _ (Expr.mem_items_of_head hk), mem_cons.1 hb⟩
    · cases hb
  | _ => cases h

namespace Model

variable {m : Model} {u : Assigned} {a b : Query} {x : Item} {R : Item → Item → Prop}

/-- A relation between items that leads from what is read to what is computed, without a loop among
defined items.  It need not lead from a choice but to its symbols. -/
structure Order (m : Model) (R : Item → Item → Prop) : Prop where
  loopless : ∀ x, m.Defines x → ¬Relation.TransGen R x x
  source : ∀ i y, m.Defines (.symbol i) → m.Defines y → ∀ e ∈ m.sourcesOf y,
    .symbol i ∈ e.items → R (.symbol i) y
  member : ∀ c, ∀ i ∈ (m.choice c).symbols, R (.choice c) (.symbol i)

theorem Recorded.choice {D : Item → Prop} {m' : Model} (h : Recorded D m m') (c : ChoiceId) :
    m'.choice c = m.choice c := by
  rw [h.same]
  rfl

theorem Loaded.exists_order (h : m.Loaded) : ∃ R, m.Order R := by
  obtain ⟨m₀, hm₀, hloop, -, hfirst, hlast⟩ := h.recorded
  have hrecorded := hfirst.trans hlast
  have hm := h.finished
  have hclosed := hm₀.closed_withDependents
  have hsymbols := hclosed.loopless hloop
  refine ⟨m₀.withDependents.LeadsTo, fun x hx => ?_, fun i y hi hy e he hx => ?_, fun c i hi => ?_⟩
  · rw [hlast.defines] at hx
    cases x with
    | symbol i => exact (hsymbols i hx).not_transGen
    | choice c => exact (loopless_choice fun i hi => hsymbols i (hclosed.members c i hi)).not_transGen
  · have hconstant := (hm.wellFormed.defined i (hm.mem_uniqueDefined.1 hi)).2.1
    have hplace : m₀.Has (.symbol i) := hfirst.has.1 (hclosed.has _ (hlast.defines.1 hi))
    rw [hrecorded.defines] at hy
    rw [hrecorded.sourcesOf] at he
    refine mem_withDependents hy he hx ⟨hasPlace_withPlaces.2 hplace, fun j hj => ?_⟩
    cases hj
    rw [← hrecorded.symbol]
    exact hconstant
  · rw [hlast.choice] at hi
    exact ⟨i, hi, rfl⟩

/-! ## What the search does not follow -/

/-- Whether the search for loops does not follow a read: one of the symbol that turns modules on, a
look of a choice at symbols, or a read of a choice by an item other than its symbols. -/
def Overlooks (m : Model) (a b : Query) : Prop :=
  b = .tristate SymbolId.modules ∨
    (∃ c i, a.item = .choice c ∧ b = .visibility i) ∨
    ∃ c, b.item = .choice c ∧ (a.item = .choice c → a.rank ≤ b.rank) ∧
      ∀ i ∈ (m.choice c).symbols, a.item ≠ .symbol i

/-- Whether a query is further in than another one: it is about what the other one's item is
computed from, or about the same item and of a lower rank. -/
def Within (R : Item → Item → Prop) (a b : Query) : Prop :=
  b.item = a.item ∧ b.rank < a.rank ∨ Relation.TransGen R b.item a.item

theorem Within.trans {c : Query} (h : Within R a b) (h' : Within R b c) : Within R a c := by
  rcases h with ⟨hitem, hrank⟩ | h
  · rcases h' with ⟨hitem', hrank'⟩ | h'
    · exact .inl ⟨hitem'.trans hitem, Nat.lt_trans hrank' hrank⟩
    · exact .inr (hitem ▸ h')
  · rcases h' with ⟨hitem', -⟩ | h'
    · exact .inr (hitem' ▸ h)
    · exact .inr (h'.trans h)

namespace Order

variable (hR : m.Order R)

include hR

theorem not_within_self (ha : m.Defines a.item) : ¬Within R a a := by
  rintro (⟨-, hrank⟩ | hloop)
  · exact Nat.lt_irrefl _ hrank
  · exact hR.loopless a.item ha hloop

theorem within_of_choice
    {c : ChoiceId} (hb : b.item = .choice c) (hseen : ¬m.Overlooks a b) : Within R a b := by
  by_cases hmember : ∃ i ∈ (m.choice c).symbols, a.item = .symbol i
  · obtain ⟨i, hi, ha⟩ := hmember
    refine .inr (.single ?_)
    rw [ha, hb]
    exact hR.member c i hi
  · by_cases hown : a.item = .choice c → a.rank ≤ b.rank
    · exact absurd (.inr (.inr ⟨c, hb, hown, fun i hi ha => hmember ⟨i, hi, ha⟩⟩)) hseen
    · obtain ⟨ha, hrank⟩ := Classical.not_imp.1 hown
      exact .inl ⟨hb.trans ha.symm, Nat.lt_of_not_le hrank⟩

section

variable (h : m.Loaded) (ha : m.Defines a.item) (hb : m.Defines b.item) (hseen : ¬m.Overlooks a b)

include h ha hb hseen

omit h in
theorem within_of_source {e : Expr} (he : e ∈ m.sourcesOf a.item) (hx : b.item ∈ e.items) :
    Within R a b := by
  cases hitem : b.item with
  | symbol i =>
    rw [hitem] at hb hx
    refine .inr (.single ?_)
    rw [hitem]
    exact hR.source i a.item hb ha e he hx
  | choice c => exact hR.within_of_choice hitem hseen

omit h in
theorem within_of_reason (hreason : m.Reason a b) : Within R a b := by
  cases hreason with
  | own hitem hrank => exact .inl ⟨hitem, hrank⟩
  | modules hmodules => exact absurd (.inl hmodules) hseen
  | source he hx _ => exact hR.within_of_source ha hb hseen he hx
  | choice _ _ hitem => exact hR.within_of_choice hitem hseen
  | @member i c hselection hvisibility _ =>
    subst hselection
    exact absurd (.inr (.inl ⟨c, i, rfl, hvisibility⟩)) hseen

theorem within_of_mention (hmention : b ∈ m.mayMention a) : Within R a b := by
  obtain ⟨i, k, rfl, hitem, hcases⟩ := exists_of_mem_mayMention hmention
  have hsource : (m.symbol i).reverseDep ∈ m.sourcesOf (.symbol i) :=
    mem_symbolSources.2 (by simp)
  rcases hcases with rfl | hdep
  · exact hR.within_of_source ha hb hseen hsource hitem
  · cases hbitem : b.item with
    | choice c => exact hR.within_of_choice hbitem hseen
    | symbol j =>
      have hk : m.Defines (.symbol k) := by
        refine h.finished.mem_uniqueDefined.2 (h.wellFormed.directDeps k fun hno => ?_)
        rw [hno] at hdep
        cases mem_singleton.1 hdep
        exact absurd (h.wellFormed.yes_lt_of_defined (h.finished.mem_uniqueDefined.1 hb))
          (by decide)
      have hj := (item_of_mem_queries hdep).1
      rw [hbitem] at hb hj
      refine .inr (.tail (.single ?_) (hR.source k _ hk ha _ hsource hitem))
      rw [hbitem]
      exact hR.source j _ hb hk _ (mem_symbolSources.2 (by simp)) hj

theorem within_of_mayRead (hread : m.MayRead u a b) : Within R a b := by
  rcases hread with hask | hmention | ⟨c, i, hitem, -, hvisibility⟩
  · exact hR.within_of_reason ha hb hseen (.of_mayAsk hask)
  · exact hR.within_of_mention h ha hb hseen hmention
  · exact absurd (.inr (.inl ⟨c, i, hitem, hvisibility⟩)) hseen

end

end Order

theorem Loaded.defines_of_not_bare (h : m.Loaded) (hx : ¬m.Bare x) : m.Defines x := by
  have hm := h.finished
  by_contra hdefines
  refine hx ?_
  cases x with
  | symbol i =>
    have hi : i ∉ m.defined := fun hi => hdefines (hm.mem_uniqueDefined.2 hi)
    refine ⟨?_, ?_, ?_⟩
    · by_contra hentries
      exact hi (hm.wellFormed.symbolEntries i hentries)
    · by_contra hchoice
      obtain ⟨c, hc⟩ := Option.ne_none_iff_exists'.1 hchoice
      exact hi (hm.wellFormed.membersDefined c i (hm.wellFormed.members i c hc).2)
    · by_cases hkind : (m.symbol i).kind = .unknown
      · exact .inl hkind
      · have hle := (hm.wellFormed.kinds i hkind).resolve_right hi
        refine .inr ⟨hle, ?_⟩
        rw [(hm.wellFormed.constants i hle).1]
        rfl
  | choice c =>
    by_contra hentries
    exact hdefines (hm.mem_uniqueChoices.2 (hm.wellFormed.choiceEntries c hentries))

/-! ## Loops -/

theorem exists_step_or_transGen
    {α : Type} {S P : α → α → Prop} {x y : α} (h : Relation.TransGen S x y) :
    (∃ a b, Relation.ReflTransGen S x a ∧ S a b ∧ P a b ∧ Relation.ReflTransGen S b y) ∨
      Relation.TransGen (fun a b => S a b ∧ ¬P a b) x y := by
  induction h with
  | single h =>
    rename_i y
    by_cases hp : P x y
    · exact .inl ⟨x, y, .refl, h, hp, .refl⟩
    · exact .inr (.single ⟨h, hp⟩)
  | tail hxy h ih =>
    rename_i y z
    rcases ih with ⟨a, b, hxa, hab, hp, hby⟩ | hnone
    · exact .inl ⟨a, b, hxa, hab, hp, hby.tail h⟩
    · by_cases hp : P y z
      · exact .inl ⟨y, z, hxy.to_reflTransGen, h, hp, .refl⟩
      · exact .inr (hnone.tail ⟨h, hp⟩)

theorem Loaded.exists_overlooked
    (h : m.Loaded) {p : Query} (hp : Relation.TransGen (m.Asks u) p p) :
    ∃ a b, Relation.ReflTransGen (m.Asks u) p a ∧ m.Asks u a b ∧ m.Overlooks a b ∧
      Relation.ReflTransGen (m.Asks u) b p := by
  obtain ⟨R, hR⟩ := h.exists_order
  refine (exists_step_or_transGen hp).resolve_right fun hloop => ?_
  have hunbounded := unbounded_of_transGen hp
  have hdefines : ∀ a, m.outcome u a = .error .unbounded → m.Defines a.item :=
    fun a ha => h.defines_of_not_bare (not_bare_of_unbounded ha)
  -- all queries on the way to one that is not decided are not decided, so their items are defined
  have hwithin : ∀ a, Relation.TransGen (fun a b => m.Asks u a b ∧ ¬m.Overlooks a b) a p →
      m.outcome u a = .error .unbounded ∧ Within R a p := by
    intro a ha
    induction ha using Relation.TransGen.head_induction_on with
    | single hstep =>
      have ha := hstep.1.fails hunbounded
      exact ⟨ha, hR.within_of_mayRead h (hdefines _ ha) (hdefines _ hunbounded) hstep.2
        hstep.1.mayRead⟩
    | head hstep _ ih =>
      have ha := hstep.1.fails ih.1
      exact ⟨ha, (hR.within_of_mayRead h (hdefines _ ha) (hdefines _ ih.1) hstep.2
        hstep.1.mayRead).trans ih.2⟩
  exact hR.not_within_self (hdefines p hunbounded) (hwithin p hloop).2

end Model

/-- In a session, whatever is assigned, evaluation of a query does not end exactly if it comes to a
query that asks for itself; and each query that does so takes a read that the search for loops does
not follow. -/
theorem answerTo_unbounded_iff {w : Workspace} {o : LoadOptions} {s : Session} {r : Reading}
    (hopen : openSession w o = (.ok s, r)) {v : Values} (hv : Blank s.model v) (q : Query) :
    (((answerTo q).runOn s.model v).1 = .error .unbounded ↔
      ∃ p, Relation.ReflTransGen (s.model.Asks v.assigned) q p ∧
        Relation.TransGen (s.model.Asks v.assigned) p p) ∧
    ∀ p, Relation.TransGen (s.model.Asks v.assigned) p p →
      ∃ a b, Relation.ReflTransGen (s.model.Asks v.assigned) p a ∧ s.model.Asks v.assigned a b ∧
        s.model.Overlooks a b ∧ Relation.ReflTransGen (s.model.Asks v.assigned) b p := by
  obtain ⟨hloaded, -⟩ := loaded_of_openSession hopen
  refine ⟨?_, fun p hp => hloaded.exists_overlooked hp⟩
  rw [hv.witnessed.runOn_answerTo]
  exact Model.outcome_eq_unbounded_iff

/-- A choice whose symbol `Y` depends on its symbol `X`.  The search for loops comes to the choice
from its symbol `S` first and then does not come back to it. -/
def tangledWorkspace : Workspace :=
  { files := { entries := [(["Kconfig"],
      .file ("choice\n\tprompt \"c\"\nconfig S\n\tbool \"s\" if F\n" ++
        "config Y\n\tbool \"y\"\n\tdepends on !X\nconfig X\n\tbool \"x\"\nendchoice\n" ++
        "config F\n\tbool\n").toUTF8)] } }

def isUnbounded {α : Type} : Except Fault α → Bool
  | .error .unbounded => true
  | _ => false

theorem eq_of_isUnbounded {α : Type} {x : Except Fault α} (h : isUnbounded x) :
    x = .error .unbounded := by
  unfold isUnbounded at h
  split at h
  · rfl
  · cases h

/-- The selection of the choice comes to a value that asks for itself, although nothing was found. -/
theorem tangled_unbounded :
    ∃ s r, openSession tangledWorkspace {} = (.ok s, r) ∧
      ((answerTo (.selection 0)).runOn s.model s.values).1 = .error .unbounded ∧
      ∃ p, Relation.ReflTransGen (s.model.Asks s.values.assigned) (.selection 0) p ∧
        Relation.TransGen (s.model.Asks s.values.assigned) p p := by
  obtain ⟨s, r, hopen, hrun⟩ := exists_of_opensTo tangledWorkspace (fun s =>
      isUnbounded ((answerTo (.selection 0)).runOn s.model s.values).1)
    (by decide +kernel)
  obtain ⟨hloaded, hvalues⟩ := loaded_of_openSession hopen
  have hblank : Blank s.model s.values :=
    hvalues ▸ blank_initial hloaded.finished.wellFormed.lt_size
  have hunbounded := eq_of_isUnbounded hrun
  exact ⟨s, r, hopen, hunbounded,
    (answerTo_unbounded_iff hopen hblank (.selection 0)).1.1 hunbounded⟩

end Buildsmith.Kconfig
