import Buildsmith.Proofs.Evaluation.Giving

/-!
# Minimal configurations

A minimal configuration has the lines of the symbols that are written, in the order of their
definitions, without those of symbols that are redundant (`ensures_minimalText`).  As defaults that
are no symbols stop the writing, this is said of what is written, if anything is.
-/

namespace Buildsmith.Kconfig

open Model PlainM
open Readers (plain)

/-!
## Values that need not be assigned

A value that a symbol would have without being assigned may be left out.  This module says what the
rules give for a visible symbol when nothing is assigned to it, and when that is the value it had.
-/

/-! ## Truth values -/

/-- A value after selects and the promotion of `m`, where that is excluded. -/
def Tristate.settled (reverse : Tristate) (excludes : Bool) (y : Tristate) : Tristate :=
  if max reverse y = .mod ∧ excludes = true then .yes else max reverse y

namespace Tristate

theorem min_le_right (y vis : Tristate) : min y vis ≤ vis := by
  cases y <;> cases vis <;> decide

variable {vis reverse implied : Tristate} {excludes : Bool}

variable (hne : vis ≠ .no) {y : Tristate} (hy : y = implied ∨ y ≤ vis)
  (hmodest : vis = .mod → settled reverse excludes implied = .yes →
    settled reverse excludes y = .yes ∨ reverse = .mod → reverse = .yes ∨ excludes = true)

include hne hy hmodest

theorem settled_told : settled reverse excludes (min (settled reverse excludes y) vis) =
      settled reverse excludes y := by
  revert hne hmodest hy
  cases vis <;> cases reverse <;> cases implied <;> cases excludes <;> cases y <;> decide

theorem settled_implied (hle : vis ≤ reverse) :
    settled reverse excludes implied = settled reverse excludes y := by
  revert hne hmodest hle hy
  cases vis <;> cases reverse <;> cases implied <;> cases excludes <;> cases y <;> decide

end Tristate

namespace Valuation

variable {v : Valuation} {m : Model} {u u' : Assigned} {t : Table} {i : SymbolId} {c : ChoiceId}

/-- What a visible symbol gets by its user, or else by defaults and implies. -/
def picked (v : Valuation) (m : Model) (i : SymbolId) : Option UserValue → Tristate
  | some (.tristate y) => min y (v.answer (.visibility i))
  | _ => (v.readers m).impliedValue i

/-- The value of a visible symbol in no choice, after selects. -/
def raised (v : Valuation) (m : Model) (i : SymbolId) (y : Tristate) : Tristate :=
  Tristate.settled (v.value m (m.symbol i).reverseDep) ((v.readers m).excludesMod i) y

theorem Backs.infer_tristate (hv : v.Backs t) (hl : (m.symbol i).kind.isLogical)
    (hc : (m.symbol i).choice = none) (hne : v.answer (.visibility i) ≠ .no)
    {r : Tristate × Option Bool} (h : m.infer u true t (.tristate i) = .ok r) (u' : Assigned) :
    m.infer u' true t (.tristate i) = .ok (v.raised m i (v.picked m i (u'.user i)), some true) := by
  have hlinked := linked_warning (m := m) u u' fun q a (hq : t q = .ok a) => hq
  have hshown : decide (v.answer (.visibility i) ≠ .no) := decide_eq_true hne
  rw [infer_tristate_eq hl (hv _), hc, hshown] at h ⊢
  obtain ⟨val, s₁, hval, hrest⟩ := bind_ok_iff.1 h
  cases written_unselectedValue hval
  obtain ⟨x, s₂, hraised, -⟩ := bind_ok_iff.1 hrest
  obtain ⟨-, reverse, hreverse, -, hselected⟩ := selectedValue_eq_ok hraised
  cases (hv.value (m.symbol i).reverseDep (some true)).symm.trans hreverse
  have hselected' := fun y =>
    hlinked.selectedValue trivial (fun _ _ => trivial) (fun _ _ _ => trivial) y _ _ (hselected y)
  have hpicked : (plain m u' true t).unselectedValue i (v.answer (.visibility i)) (some true) =
      .ok (v.picked m i (u'.user i), some true) := by
    change (plain m u' true t).chosenValue i _ (u'.user i) (some true) = _
    cases u'.user i with
    | none => exact hv.impliedValue i
    | some x =>
      cases x with
      | text y => exact hv.impliedValue i
      | tristate y =>
        simp only [Readers.chosenValue, if_pos hne]
        rfl
  refine (bind_of_ok hpicked).trans ((bind_of_ok (hselected' _)).trans ?_)
  generalize v.picked m i (u'.user i) = y
  unfold raised Tristate.settled
  by_cases hmod : max (v.value m (m.symbol i).reverseDep) y = .mod
  · rw [if_pos hmod]
    have hexcludes : (plain m u' true t).excludesMod i (some true) =
        .ok ((v.readers m).excludesMod i, some true) :=
      Link.mirrors_apply ((hv.linked _).excludesMod (fun _ _ => trivial) fun _ _ => trivial)
    refine (bind_of_ok hexcludes).trans ?_
    cases (v.readers m).excludesMod i <;> simp [hmod]
  · rw [if_neg hmod, if_neg fun h => hmod h.1]
    rfl

theorem picked_cases (v : Valuation) (m : Model) (i : SymbolId) (user : Option UserValue) :
    v.picked m i user = (v.readers m).impliedValue i ∨
      v.picked m i user ≤ v.answer (.visibility i) := by
  cases user with
  | none => exact .inl rfl
  | some x =>
    cases x with
    | text t => exact .inl rfl
    | tristate y => exact .inr (Tristate.min_le_right y _)

theorem excludesMod_eq (v : Valuation) (m : Model) (i : SymbolId) :
    (v.readers m).excludesMod i = (decide (((v.readers m).kind i).run = .bool) ||
      decide (v.value m (m.symbol i).weakReverseDep = .yes)) := by
  show (if ((v.readers m).kind i).run = .bool then true
    else decide (v.value m (m.symbol i).weakReverseDep = .yes) : Bool) = _
  split <;> simp [*]

/-- The value that a symbol is taken to have without being assigned. -/
def standard (v : Valuation) (m : Model) (i : SymbolId) : Tristate :=
  Tristate.settled
    (max (v.value m (m.symbol i).reverseDep) (v.value m (m.symbol i).weakReverseDep))
    (decide (((v.readers m).kind i).run = .bool)) ((v.readers m).defaultValue i)

theorem raised_impliedValue (hdirect : v.value m (m.symbol i).directDep ≠ .no) :
    v.raised m i ((v.readers m).impliedValue i) = v.standard m i := by
  have himplied : (v.readers m).impliedValue i =
      max (v.value m (m.symbol i).weakReverseDep) ((v.readers m).defaultValue i) := by
    show (if v.value m (m.symbol i).weakReverseDep ≠ .no then
      if v.value m (m.symbol i).directDep ≠ .no then
        max (v.value m (m.symbol i).weakReverseDep) ((v.readers m).defaultValue i)
      else (v.readers m).defaultValue i
      else (v.readers m).defaultValue i : Tristate) = _
    split
    · rfl
    · rename_i hweak
      rw [not_not.1 hweak, Tristate.no_max]
  rw [raised, standard, himplied, excludesMod_eq]
  generalize decide (((v.readers m).kind i).run = .bool) = isBool
  generalize v.value m (m.symbol i).reverseDep = reverse
  generalize v.value m (m.symbol i).weakReverseDep = weak
  generalize ((v.readers m).defaultValue i : Tristate) = x
  cases isBool <;> cases reverse <;> cases weak <;> cases x <;> rfl

theorem Backs.exists_prompt (hv : v.Backs (m.outcome u)) (hne : v.answer (.visibility i) ≠ .no) :
    ∃ k ∈ (m.symbol i).entries, ∃ p, (m.entry k).prompt = some p ∧ v.value m p.2 ≠ .no := by
  by_contra hnone
  have hhidden : ∀ ks : List EntryId, (∀ k ∈ ks, k ∈ (m.symbol i).entries) →
      (v.readers m).promptValue ks .no = (Tristate.no : Id Tristate) := by
    intro ks hks
    induction ks with
    | nil => rfl
    | cons k ks ih =>
      have hrest := ih fun l hl => hks l (List.mem_cons_of_mem k hl)
      simp only [Readers.promptValue, readers_model]
      cases hp : (m.entry k).prompt with
      | none => exact hrest
      | some p =>
        have hno : v.value m p.2 = .no := by
          by_contra hholds
          exact hnone ⟨k, hks k List.mem_cons_self, p, hp, hholds⟩
        show (v.readers m).promptValue ks (max .no (v.value m p.2)) = _
        rw [hno]
        exact hrest
  obtain ⟨w, hinfer⟩ := (balanced_outcome m u).rule _ _ (hv (.visibility i)) rfl
  have hprompt : (plain m u true (m.outcome u)).promptValue (m.symbol i).entries .no none =
      .ok ((v.readers m).promptValue (m.symbol i).entries .no, none) :=
    Link.mirrors_apply ((hv.linked _).promptValue (fun _ _ => trivial) .no)
  rw [hhidden _ fun _ => id] at hprompt
  exact hne (visibility_eq_no hinfer hprompt)

/-! ## Texts -/

/-- The text of the default that holds, if there is one. -/
def HasDefault (v : Valuation) (m : Model) (i : SymbolId) (given : Option String) : Prop :=
  match ((v.readers m).activeDefault (m.symbol i).defaults).run with
  | none => given = none
  | some d => ∃ j, d.1 = .symbol j ∧ given = some (v.answer (.text j))

theorem Backs.givenDefault
    (hv : v.Backs t) {given : Option String} (hgiven : v.HasDefault m i given) :
    (plain m u true t).givenDefault i (some true) = .ok (given, some true) := by
  refine (bind_of_ok (hv.activeDefault (m.symbol i).defaults (some true))).trans ?_
  unfold HasDefault at hgiven
  cases hd : (v.readers m).activeDefault (m.symbol i).defaults with
  | none =>
    rw [hd] at hgiven
    rw [hgiven]
    rfl
  | some d =>
    rw [hd] at hgiven
    obtain ⟨value, cond⟩ := d
    obtain ⟨j, rfl, rfl⟩ := hgiven
    exact bind_of_ok (f := fun given => pure (some given)) (hv.ask (.text j) (some true))

theorem Backs.intoRange {range : Option (Int × Int)} {given : Option String} {n : Int}
    (hn : Text.Integer.parse? (m.symbol i).kind.base (given.getD "") = some n)
    (hin : ∀ low high, range = some (low, high) → low ≤ n ∧ n ≤ high) :
    (plain m u true t).intoRange i range given (some true) = .ok (given.getD "", some true) := by
  unfold Readers.intoRange
  cases range with
  | none => rfl
  | some bounds =>
    obtain ⟨hlow, hhigh⟩ := hin bounds.1 bounds.2 rfl
    have hinside : crossedBound? bounds.1 bounds.2 n = none := by
      rw [crossedBound?, if_neg (by omega), if_neg (by omega)]
    simp only [Readers.plain_model, hn, Option.getD_some, hinside]
    rfl

theorem Backs.infer_text_of_default (hv : v.Backs t) (hl : (m.symbol i).kind.isLogical = false)
    (hk : (m.symbol i).kind ≠ .unknown) (hne : v.answer (.visibility i) ≠ .no)
    {given : Option String} (hgiven : v.HasDefault m i given) {r : String × Option Bool}
    (h : m.infer u true t (.text i) = .ok r) (hr : r.1 = given.getD "") (hnone : u'.user i = none) :
    m.infer u' true t (.text i) = .ok r := by
  have hlinked := linked_warning (m := m) u u' fun q a (hq : t q = .ok a) => hq
  have hshown : decide (v.answer (.visibility i) ≠ .no) := decide_eq_true hne
  refine infer_text_of_plainText (fun _ _ => id) hl hk (hv _) h fun p hpr hp => ?_
  rw [hshown] at hp ⊢
  have hwritten : p = (given.getD "", some true) := Prod.ext (hpr.trans hr) (written_plainText hp)
  by_cases hkind : (m.symbol i).kind.isNumeric
  · rw [plainText_of_numeric hkind] at hp ⊢
    obtain ⟨range, s, hrange, hrest⟩ := bind_ok_iff.1 hp
    cases linked_sameWritten.activeRange _ (fun _ _ _ _ => trivial) _ _ rfl hrange
    have hrange' := hlinked.activeRange _ (fun _ _ _ _ => trivial) _ _ hrange
    refine bind_ok_iff.2 ⟨range, some true, hrange', ?_⟩
    change (plain m u' true t).chosenNumber i _ range (u'.user i) (some true) = _
    rw [hnone]
    obtain ⟨-, -, -, -, n, hn, hin⟩ | hdefault := chosenNumber_cases hrest
    · rw [hwritten] at hn ⊢
      exact (bind_of_ok (hv.givenDefault hgiven)).trans (Backs.intoRange hn hin)
    · exact hlinked.numericDefault trivial (fun _ _ _ _ => trivial) range _ _ hdefault
  · rw [plainText_of_not_numeric hkind, hwritten]
    change (plain m u' true t).chosenString i _ (u'.user i) (some true) = _
    rw [hnone]
    exact bind_of_ok (hv.givenDefault hgiven)

/-! ## Choices -/

theorem Backs.exists_defaultSelection
    (hv : v.Backs t) (hdefaults : ∀ d ∈ (m.choice c).defaults, ∃ i, d.1 = .symbol i)
    (s : Option Bool) : ∃ a, (plain m u true t).defaultSelection c s = .ok (a, s) := by
  have hvisible : ∀ ds : List (Expr × Expr), (∀ d ∈ ds, ∃ i, d.1 = .symbol i) →
      ∃ a, (plain m u true t).visibleDefault ds s = .ok (a, s) := by
    intro ds hds
    induction ds with
    | nil => exact ⟨none, rfl⟩
    | cons d ds ih =>
      obtain ⟨value, cond⟩ := d
      obtain ⟨i, hi⟩ := hds _ List.mem_cons_self
      obtain rfl : value = .symbol i := hi
      obtain ⟨a, ha⟩ := ih fun e he => hds e (List.mem_cons_of_mem _ he)
      by_cases hcond : v.value m cond = .no
      · exact ⟨a, (bind_of_ok (hv.value cond s)).trans (by rw [if_neg (not_not.2 hcond), ha])⟩
      · by_cases hvis : v.answer (.visibility i) = .no
        · refine ⟨a, (bind_of_ok (hv.value cond s)).trans ?_⟩
          rw [if_pos hcond]
          refine (bind_of_ok (hv.ask (.visibility i) s)).trans ?_
          rw [if_neg (not_not.2 hvis), ha]
        · refine ⟨some i, (bind_of_ok (hv.value cond s)).trans ?_⟩
          rw [if_pos hcond]
          refine (bind_of_ok (hv.ask (.visibility i) s)).trans ?_
          rw [if_pos hvis]
          rfl
  obtain ⟨a, ha⟩ := hvisible _ hdefaults
  cases a with
  | none => exact ⟨_, (bind_of_ok ha).trans
    (Link.mirrors_apply ((hv.linked s).firstVisible fun _ _ => trivial))⟩
  | some i => exact ⟨some i, bind_of_ok ha⟩

/-! ## What is left out -/

/-- The text that a symbol is taken to have without being assigned. -/
inductive HasStandard (v : Valuation) (m : Model) (i : SymbolId) : String → Prop
  | truth (hl : (m.symbol i).kind.isLogical = true) (hc : (m.symbol i).choice = none) :
    HasStandard v m i (v.standard m i).letter
  | member (hl : (m.symbol i).kind.isLogical = true) (hc : (m.symbol i).choice ≠ none) :
    HasStandard v m i Tristate.no.letter
  | text (hl : (m.symbol i).kind.isLogical = false) (hk : (m.symbol i).kind ≠ .unknown)
    {given : Option String} (hgiven : v.HasDefault m i given) :
    HasStandard v m i (given.getD "")
  | unknown (hk : (m.symbol i).kind = .unknown) : HasStandard v m i ""

namespace HasStandard

variable {x : String} (h : v.HasStandard m i x)

include h

theorem eq_standard (hl : (m.symbol i).kind.isLogical) (hc : (m.symbol i).choice = none) :
    x = (v.standard m i).letter := by
  cases h with
  | truth => rfl
  | member _ hc' => exact absurd hc hc'
  | text hl' => cases hl.symm.trans hl'
  | unknown hk =>
    rw [hk] at hl
    cases hl

theorem eq_no (hl : (m.symbol i).kind.isLogical) (hc : (m.symbol i).choice ≠ none) :
    x = Tristate.no.letter := by
  cases h with
  | truth _ hc' => exact absurd hc' hc
  | member => rfl
  | text hl' => cases hl.symm.trans hl'
  | unknown hk =>
    rw [hk] at hl
    cases hl

theorem exists_given (hl : (m.symbol i).kind.isLogical = false)
    (hk : (m.symbol i).kind ≠ .unknown) : ∃ given, v.HasDefault m i given ∧ x = given.getD "" := by
  cases h with
  | truth hl' | member hl' => cases hl.symm.trans hl'
  | text _ _ hgiven => exact ⟨_, hgiven, rfl⟩
  | unknown hk' => exact absurd hk' hk

end HasStandard

/-- Why a symbol is left out of minimal configurations. -/
inductive Redundant (v : Valuation) (m : Model) (u : Assigned) (t : Table) (i : SymbolId) : Prop
  /-- Selects demand all that its visibility allows. -/
  | selected (hc : (m.symbol i).choice = none)
    (hle : v.answer (.visibility i) ≤ v.value m (m.symbol i).reverseDep)
  | standard (h : v.HasStandard m i (v.answer (.text i)))
  /-- Its choice, which must have a selection, selects it by default. -/
  | first (c : ChoiceId) (hc : (m.symbol i).choice = some c)
    (hrequired : (m.choice c).isOptional = false)
    (hfirst : (plain m u true t).defaultSelection c none = .ok (some i, none))
    (hkind : (m.symbol i).kind = .bool) (hyes : v.answer (.tristate i) = .yes)

end Valuation

/-! ## Lines of minimal configurations -/

variable {m : Model} {u : Assigned} {I : Values → Prop} {α β : Type}

/-- In every state with a property the computation keeps the property, and gives a result of some
sort, if it gives one. -/
def EvalM.Ensures (m : Model) (I : Values → Prop) (x : EvalM α) (Q : α → Prop) : Prop :=
  ∀ v a v', I v → x.runOn m v = (.ok a, v') → I v' ∧ Q a

namespace EvalM.Ensures

variable {x : EvalM α} {f : α → EvalM β} {P Q : α → Prop} {R : β → Prop}

theorem pure {a : α} (ha : Q a) : Ensures m I (Pure.pure a) Q := by
  rintro v _ _ hv ⟨⟩
  exact ⟨hv, ha⟩

theorem of_gives {a : α} (hx : Gives m I x a) (ha : Q a) : Ensures m I x Q := by
  intro v b v' hv hrun
  obtain ⟨w, hrun', hw⟩ := hx v hv
  cases hrun.symm.trans hrun'
  exact ⟨hw, ha⟩

theorem bind (hx : Ensures m I x P) (hf : ∀ a, P a → Ensures m I (f a) R) :
    Ensures m I (x >>= f) R := by
  intro v b v' hv hrun
  rw [EvalM.runOn_bind] at hrun
  split at hrun
  · rename_i a w hfirst
    obtain ⟨hw, ha⟩ := hx v a w hv hfirst
    exact hf a ha w b v' hw hrun
  · cases hrun

theorem giving {a : α} (hx : Gives m I x a) (hf : Ensures m I (f a) R) : Ensures m I (x >>= f) R :=
  bind (of_gives hx rfl) fun _ hb => hb ▸ hf

theorem read_bind {g : Model → EvalM β} (hg : Ensures m I (g m) R) : Ensures m I (read >>= g) R :=
  giving (fun v hv => ⟨v, rfl, hv⟩) hg

theorem mapM {xs : List α} {f : α → EvalM β} {R : α → β → Prop}
    (h : ∀ x ∈ xs, Ensures m I (f x) (R x)) :
    Ensures m I (xs.mapM f) fun ys => List.Forall₂ R xs ys := by
  induction xs with
  | nil => exact pure .nil
  | cons x xs ih =>
    rw [List.mapM_cons]
    refine (h x List.mem_cons_self).bind fun y hy => ?_
    exact (ih fun z hz => h z (List.mem_cons_of_mem _ hz)).bind fun ys hys => pure (.cons hy hys)

end EvalM.Ensures

/-- What a minimal configuration may have for a symbol: its line, or nothing if it is redundant. -/
def Valuation.Condensed (v : Valuation) (m : Model) (u : Assigned) (lead : String) (i : SymbolId)
    (line : String) : Prop :=
  line = (if m.writes u i then m.lineFor lead i (v.answer (.text i)) else "") ∨
    line = "" ∧ v.Redundant m u (m.outcome u) i

namespace Valuation.Backs

variable {v : Valuation} {i : SymbolId} {c : ChoiceId} (h : v.Backs (m.outcome u))

include h

theorem gives_answer (q : Query) : EvalM.Gives m (Coherent m u) (answerTo q) (v.answer q) :=
  fun _ hw => hw.runOn_answerTo (h q)

theorem gives_value (e : Expr) : EvalM.Gives m (Coherent m u) (exprValue e) (v.value m e) :=
  gives_exprValue (h.value e none)

theorem gives_kind (i : SymbolId) :
    EvalM.Gives m (Coherent m u) (symbolKind i) ((v.readers m).kind i).run :=
  gives_withReaders (f := (·.kind i)) (linked_outcome.kind fun _ _ => trivial)
    ((linked_at _).kind fun _ _ => trivial) (Link.mirrors_apply ((h.linked none).kind fun _ _ => trivial))

theorem gives_activeDefault (ds : List (Expr × Expr)) :
    EvalM.Gives m (Coherent m u) (withReaders (·.activeDefault ds))
      ((v.readers m).activeDefault ds).run :=
  gives_withReaders (f := (·.activeDefault ds)) (linked_outcome.activeDefault fun _ _ _ _ => trivial)
    ((linked_at _).activeDefault fun _ _ _ _ => trivial) (h.activeDefault ds none)

/-! ## Defaults -/

theorem gives_defaultText (hl : (m.symbol i).kind.isLogical) (hc : (m.symbol i).choice = none) :
    EvalM.Gives m (Coherent m u) (defaultText i) (v.standard m i).letter := by
  have hraised : ∀ y, (v.readers m).defaultValue i = y → EvalM.Gives m (Coherent m u) (do
        let y ← pure y
        let reverse ← exprValue (m.symbol i).reverseDep
        let weak ← exprValue (m.symbol i).weakReverseDep
        let val := max (max reverse weak) y
        if val = .mod then
          if (← symbolKind i) = .bool then return Tristate.yes.letter
        return val.letter) (v.standard m i).letter := by
    rintro y rfl
    refine (EvalM.Gives.pure _).bind ((h.gives_value _).bind ((h.gives_value _).bind ?_))
    unfold standard Tristate.settled
    dsimp only
    split
    · refine (h.gives_kind i).bind ?_
      split
      · rw [if_pos ⟨‹_›, decide_eq_true ‹_›⟩]
        exact .pure _
      · rw [if_neg fun hbool => absurd (of_decide_eq_true hbool.2) ‹_›]
        exact .pure _
    · rw [if_neg fun hmod => absurd hmod.1 ‹_›]
      exact .pure _
  refine .read_bind ?_
  simp only [hl, hc]
  refine (h.gives_activeDefault _).bind ?_
  have hdefault : ((v.readers m).defaultValue i).run =
      ((v.readers m).activeDefault (m.symbol i).defaults).run.elim .no fun d =>
        min (v.value m d.1) d.2 := by
    show ((v.readers m).activeDefault (m.symbol i).defaults >>= _ : Id Tristate).run = _
    rw [Id.run_bind]
    cases ((v.readers m).activeDefault (m.symbol i).defaults).run with
    | none => rfl
    | some d =>
      exact ite_self _
  split
  · rename_i value cond hd
    rw [hd] at hdefault
    exact (h.gives_value value).bind (hraised _ hdefault)
  · rename_i hd
    rw [hd] at hdefault
    exact hraised _ hdefault

theorem ensures_defaultText (i : SymbolId) :
    EvalM.Ensures m (Coherent m u) (defaultText i) (v.HasStandard m i) := by
  cases hl : (m.symbol i).kind.isLogical with
  | true =>
    cases hc : (m.symbol i).choice with
    | none => exact .of_gives (h.gives_defaultText hl hc) (.truth hl hc)
    | some c =>
      refine .read_bind ?_
      simp only [hl, hc]
      exact .pure (.member hl (by simp [hc]))
  | false =>
    refine .read_bind ?_
    simp only [hl]
    by_cases hk : (m.symbol i).kind = .unknown
    · rw [if_neg (not_not.2 hk)]
      exact .pure (.unknown hk)
    · rw [if_pos hk]
      refine .giving (h.gives_activeDefault _) ?_
      split
      · rename_i value cond hd
        have hfound : ∀ j, value = .symbol j → v.HasDefault m i (some (v.answer (.text j))) := by
          intro j hj
          unfold HasDefault
          rw [hd]
          exact ⟨j, hj, rfl⟩
        have hfails : (∀ j, value ≠ .symbol j) → ∀ r : Readers RuleM,
            r.defaultText value = throw .inapplicable := by
          intro hvalue r
          unfold Readers.defaultText
          split
          · exact absurd rfl (hvalue _)
          · rfl
        by_cases hvalue : ∃ j, value = .symbol j
        · obtain ⟨j, rfl⟩ := hvalue
          refine .of_gives ?_ (.text hl hk (hfound j rfl))
          exact gives_withReaders (f := (·.defaultText (.symbol j)))
            (linked_outcome.ask _ trivial) ((linked_at _).ask _ trivial) (h.ask (.text j) none)
        · intro w a w' _ hrun
          simp only [hfails fun j hj => hvalue ⟨j, hj⟩] at hrun
          cases hrun
      · rename_i hd
        have hnone : v.HasDefault m i none := by
          unfold HasDefault
          rw [hd]
        exact .pure (.text hl hk hnone)

/-! ## Redundant symbols -/

omit h in
theorem gives_defaultSelection {a : Option SymbolId}
    (ha : (Readers.plain m u true (m.outcome u)).defaultSelection c none = .ok (a, none)) :
    EvalM.Gives m (Coherent m u) (withReaders (·.defaultSelection c)) a :=
  gives_withReaders (f := (·.defaultSelection c))
    (linked_outcome.defaultSelection fun _ _ => trivial)
    ((linked_at _).defaultSelection fun _ _ => trivial) ha

theorem ensures_isRedundant (hdefaults : ∀ c, (m.symbol i).choice = some c →
      ∀ d ∈ (m.choice c).defaults, ∃ j, d.1 = .symbol j) :
    EvalM.Ensures m (Coherent m u) (isRedundant i) fun redundant =>
      redundant → v.Redundant m u (m.outcome u) i := by
  have hno : ∀ {P : Prop}, EvalM.Ensures m (Coherent m u) (pure false) fun b => b → P :=
    fun {P} => .pure nofun
  refine .read_bind ?_
  dsimp only
  cases hc : (m.symbol i).choice with
  | none =>
    refine .giving (h.gives_answer (.visibility i)) (.giving (h.gives_value _) ?_)
    split
    · exact .pure fun _ => .selected hc ‹_›
    · refine .giving (h.gives_answer (.text i)) ((h.ensures_defaultText i).bind fun t ht => ?_)
      split
      · rename_i heq
        exact .pure fun _ => .standard (heq ▸ ht)
      · exact hno
  | some c =>
    refine .giving (h.gives_answer (.text i)) ((h.ensures_defaultText i).bind fun t ht => ?_)
    split
    · rename_i heq
      exact .pure fun _ => .standard (heq ▸ ht)
    · refine .read_bind ?_
      obtain ⟨a, ha⟩ := h.exists_defaultSelection (m := m) (u := u) (hdefaults c hc) none
      split
      · rename_i hrequired
        refine .giving (gives_defaultSelection ha) ?_
        split
        · rename_i hfirst
          subst hfirst
          split
          · rename_i hkind
            refine .giving (h.gives_answer (.tristate i)) ?_
            split
            · refine .pure fun _ => .first c hc (by simpa using hrequired) ha hkind ‹_›
            · exact hno
          · exact hno
        · exact hno
      · exact hno

/-- A minimal configuration has the lines of symbols in order, as far as they are not redundant. -/
theorem ensures_minimalText (hdefaults : ∀ i c, (m.symbol i).choice = some c →
      ∀ d ∈ (m.choice c).defaults, ∃ j, d.1 = .symbol j) (lead header : String) :
    EvalM.Ensures m (Coherent m u) (minimalText lead header) fun text =>
      ∃ lines, text = header ++ String.join lines ∧
        List.Forall₂ (v.Condensed m u lead) m.uniqueDefined lines := by
  have hlines : EvalM.Ensures m (Coherent m u)
      (m.uniqueDefined.mapM fun i => do if ← isRedundant i then return "" else configLine lead i)
      fun lines => List.Forall₂ (v.Condensed m u lead) m.uniqueDefined lines := by
    refine .mapM fun i _ => ?_
    refine (h.ensures_isRedundant (hdefaults i)).bind fun redundant hredundant => ?_
    cases redundant with
    | true => exact .pure (.inr ⟨rfl, hredundant rfl⟩)
    | false => exact .of_gives (gives_configLine (h (.text i)) lead) (.inl rfl)
  exact .read_bind (hlines.bind fun lines hlines => .pure ⟨lines, rfl, hlines⟩)

end Valuation.Backs

end Buildsmith.Kconfig
