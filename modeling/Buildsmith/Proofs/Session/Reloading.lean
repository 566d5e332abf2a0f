import Buildsmith.Proofs.Evaluation.Condensing
import Buildsmith.Proofs.Evaluation.Showing
import Buildsmith.Proofs.Session.Entering
import Buildsmith.Proofs.Session.Exclusivity

/-!
# Records that restore values

A file tells the values of symbols that are written; it may leave out some that are redundant.  What
it leaves on record restores all values, as far as no symbol is beyond what may be assigned to it,
and the mode of each choice is told (`Retells.repeats`).  Without modules, a file that leaves out
nothing restores them also where it is not known that evaluation answers every query after the
change: if each choice that users set to `y` has a symbol that is `y` (`Retells.repeats_of_modes`).
-/

namespace Buildsmith.Kconfig

open Tristate Choice SymbolId Option

/-! ## Restoring -/

def Ledger.assigned (L : Ledger) : Assigned where
  user := L.user
  mode := L.mode
  selection := L.selection

theorem Tristate.ofLetter?_letter (x : Tristate) : ofLetter? x.letter = some x := by
  cases x <;> rfl

variable {y : Tristate}

theorem Tristate.letter_injective {x : Tristate} (h : x.letter = y.letter) : x = y := by
  have hx := ofLetter?_letter x
  rw [h, ofLetter?_letter] at hx
  exact (some.inj hx).symm

theorem Tristate.min_mod_eq
    {x : Tristate} (hx : x ≠ .no) (hy : y ≠ .no) (h : min x y ≠ .yes) : min .mod y = min x y := by
  revert hx hy h
  cases x <;> cases y <;> decide

theorem Tristate.eq_yes (hno : y ≠ .no) (hmod : y ≠ .mod) : y = .yes := by
  cases y <;> first | rfl | contradiction

theorem Symbol.accepts_letter {x : Symbol} (hl : x.kind.isLogical)
    (hy : y = .mod → x.kind = .tristate) : x.accepts y.letter = some (.tristate y) := by
  rw [Symbol.accepts_of_logical hl, ofLetter?_letter, bind_some, if_neg]
  rintro ⟨hbool, hmod⟩
  cases hbool.symm.trans (hy hmod)

theorem Choice.eq_of_accepts_letter
    {x : Choice} {z : Tristate} (h : x.accepts y.letter = some z) : z = y := by
  by_cases hl : x.kind.isLogical
  · rw [accepts_of_logical hl, ofLetter?_letter, bind_some] at h
    split at h
    · cases h
    · exact (some.inj h).symm
  · simp [accepts, hl] at h

def Valuation.texts (v : Valuation) (i : SymbolId) : String := v.answer (.text i)

namespace Model

/-- Answers `v` that come of what is assigned, with all that is needed to write them into a file and
to read them back. -/
structure Writable (m : Model) (u : Assigned) (v : Valuation) : Prop where
  backs : v.Backs (m.outcome u)
  /-- What users assign is accepted. -/
  accepted : ∀ i x, u.user i = some x → x.offer.accepted? (m.symbol i).kind = some x
  modes : ∀ c t, u.mode c = some t → (m.choice c).kind.isLogical = true
  selections : ∀ c i, u.selection c = some i →
    (m.symbol i).choice = some c ∧ (m.symbol i).kind.isLogical = true

/-- Statements that tell the texts of symbols that are written, but for some symbols in `R`. -/
structure Retells (m : Model) (u : Assigned) (v : Valuation) (R : SymbolId → Prop)
    (es : List (SymbolId × String)) : Prop where
  only : ∀ i t, (i, t) ∈ es → i ∈ m.uniqueDefined ∧ m.writes u i = true ∧ t = v.texts i
  rest : ∀ i ∈ m.uniqueDefined, m.writes u i = true → (i, v.texts i) ∈ es ∨ R i

/-- What keeps values from being lost in configurations that leave out symbols in `R`. -/
structure Condensable (m : Model) (u : Assigned) (v : Valuation) (R : SymbolId → Prop) :
    Prop where
  redundant : ∀ i, R i → v.Redundant m u (m.outcome u) i
  /-- What is visible depends on something that holds. -/
  direct : ∀ i, v.answer (.visibility i) ≠ .no → v.answer (.visibility i) = .mod ∨ R i →
    v.value m (m.symbol i).directDep ≠ .no
  /-- No symbol gets a default beyond its visibility. -/
  modest : ∀ i, (m.symbol i).kind.isLogical = true → (m.symbol i).choice = none →
    v.answer (.visibility i) = .mod → v.standard m i = .yes →
    v.answer (.tristate i) = .yes ∨ v.value m (m.symbol i).reverseDep = .mod →
      v.value m (m.symbol i).reverseDep = .yes ∨ v.value m (m.symbol i).weakReverseDep = .yes
  /-- No text is assigned to a symbol that is selected. -/
  unselected : ∀ i, R i → (m.symbol i).kind.isLogical = false → (m.symbol i).choice = none →
    v.answer (.visibility i) ≠ .no →
    v.answer (.visibility i) ≤ v.value m (m.symbol i).reverseDep → u.user i = none
  leftOut : ∀ i, (m.symbol i).kind.isLogical = false → m.isLeftOut i = true →
    v.answer (.visibility i) ≠ .no → u.user i = none
  /-- A choice with a mode other than it would have by itself has a symbol that tells so. -/
  modes : ∀ c, (m.choice c).kind.isLogical = true → v.answer (.choiceVisibility c) ≠ .no →
    (if (m.choice c).isOptional then v.answer (.mode c) ≠ .no
      else (m.choice c).kind = .tristate ∧ v.answer (.tristate modules) ≠ .no ∧
        v.answer (.mode c) = .yes) →
    ∃ i, (m.symbol i).choice = some c ∧ v.answer (.tristate i) = v.answer (.mode c) ∧
      ¬R i

/-- A record with which evaluation asks no more than it asked before: it leaves out nothing, what is
visible has visibility `y`, and a choice without a mode on record wants the mode that it wanted. -/
structure Sufficient (m : Model) (u : Assigned) (v : Valuation) (R : SymbolId → Prop) (L : Ledger) :
    Prop where
  told : ∀ i, ¬R i
  visible : ∀ i, v.answer (.visibility i) ≠ .mod
  wanted : ∀ c, (m.choice c).isOptional = false → (m.choice c).kind = .tristate →
    v.answer (.choiceVisibility c) ≠ .no → L.mode c = none →
      (m.choice c).wantedMode none = (m.choice c).wantedMode (u.mode c)

variable {m : Model} {u : Assigned} {v : Valuation} {R : SymbolId → Prop} {i : SymbolId}
  {c : ChoiceId} {vis x : Tristate}

theorem mem_uniqueDefined_of_visible
    (hm : m.Loaded) (hvis : m.outcome u (.visibility i) = .ok vis) (hne : vis ≠ .no) :
    i ∈ m.uniqueDefined ∧ SymbolId.yes < i := by
  have hwf := hm.wellFormed
  have hdefined := hwf.symbolEntries i ((balanced_outcome m u).entries_of_visible hvis hne)
  exact ⟨hm.finished.mem_uniqueDefined.2 hdefined, hwf.yes_lt_of_defined hdefined⟩

variable {t : String}

theorem writes_of_logical (hm : m.Loaded) (hl : (m.symbol i).kind.isLogical)
    (hvis : m.outcome u (.visibility i) = .ok vis) (hne : vis ≠ .no)
    (ht : m.outcome u (.text i) = .ok t) :
    i ∈ m.uniqueDefined ∧ SymbolId.yes < i ∧ m.writes u i := by
  obtain ⟨hdefined, hlt⟩ := mem_uniqueDefined_of_visible hm hvis hne
  have hkind : (m.symbol i).kind ≠ .unknown := by
    intro hk
    rw [hk] at hl
    cases hl
  exact ⟨hdefined, hlt, by rw [writes_of_visible hlt hkind hvis hne ht, hl, Bool.true_or]⟩

theorem mem_uniqueChoices_of_visible
    (hm : m.Loaded) (hvis : m.outcome u (.choiceVisibility c) = .ok vis) (hne : vis ≠ .no) :
    c ∈ m.uniqueChoices := by
  have hentries := (balanced_outcome m u).choiceEntries_of_visible hvis hne
  exact hm.finished.mem_uniqueChoices.2 (hm.wellFormed.choiceEntries c hentries)

theorem text_eq_letter (hl : (m.symbol i).kind.isLogical) (ht : m.outcome u (.text i) = .ok t)
    (hx : m.outcome u (.tristate i) = .ok x) : t = x.letter := by
  obtain ⟨w, hinfer⟩ := (balanced_outcome m u).rule (.text i) t ht rfl
  obtain ⟨y, hy, hpair⟩ := (infer_text_of_logical hl).1 hinfer
  cases hx.symm.trans hy
  exact congrArg Prod.fst hpair

namespace Writable

variable (h : m.Writable u v) (hm : m.Loaded)

include h

theorem text_eq_letter (hl : (m.symbol i).kind.isLogical) :
    v.texts i = (v.answer (.tristate i)).letter :=
  Model.text_eq_letter hl (h.backs (.text i)) (h.backs (.tristate i))

theorem mode_of_not_logical (hl : ¬(m.choice c).kind.isLogical) : u.mode c = none := by
  cases hmode : u.mode c with
  | none => rfl
  | some x => exact absurd (h.modes c x hmode) hl

include hm

omit h in
theorem yes_lt_of_member (hc : (m.symbol i).choice = some c) : SymbolId.yes < i :=
  have hwf := hm.wellFormed
  hwf.yes_lt_of_defined (hwf.membersDefined c i (hwf.members i c hc).2)

theorem tristate_of_member (hc : (m.symbol i).choice = some c) (hl : (m.symbol i).kind.isLogical) :
    (v.answer (.visibility i) = .no → v.answer (.tristate i) = .no) ∧
      (v.answer (.visibility i) = .mod → v.answer (.tristate i) ≠ .yes) ∧
      (v.answer (.visibility i) = .yes →
        v.answer (.tristate i) = if v.answer (.selection c) = some i then .yes else .no) :=
  (balanced_outcome m u).tristate_of_member (yes_lt_of_member hm hc) hc hl (h.backs _) (h.backs _)
    (h.backs _)

theorem isLogical_of_member (hc : (m.symbol i).choice = some c)
    (hne : v.answer (.tristate i) ≠ .no) : (m.symbol i).kind.isLogical := by
  have hlt := yes_lt_of_member hm hc
  obtain ⟨w, hinfer⟩ := (balanced_outcome m u).rule _ _ (h.backs (.tristate i))
    (by simpa [asksConstant] using hlt)
  exact isLogical_of_infer hinfer hne

omit hm in
theorem tristate_of_mod (hi : SymbolId.yes < i) (hl : (m.symbol i).kind.isLogical)
    (hmod : v.answer (.tristate i) = .mod) : (m.symbol i).kind = .tristate := by
  by_contra hkind
  exact (balanced_outcome m u).tristate_ne_mod hi hl (.inl hkind) (h.backs _) hmod

omit hm in
theorem eq_no_of_standard (hl : (m.symbol i).kind.isLogical)
    (hc : (m.symbol i).choice = some c) (hstandard : v.HasStandard m i (v.texts i)) :
    v.answer (.tristate i) = .no :=
  letter_injective ((h.text_eq_letter hl).symm.trans (hstandard.eq_no hl (by simp [hc])))

theorem tristate_eq_mode (hsane : m.ChoicesSane) (hc : (m.symbol i).choice = some c)
    (hl : (m.symbol i).kind.isLogical) (hne : v.answer (.tristate i) ≠ .no) :
    v.answer (.tristate i) = v.answer (.mode c) ∧ v.answer (.visibility i) ≠ .no := by
  have hbalanced := balanced_outcome m u
  obtain ⟨hno, hmod, hyes⟩ := h.tristate_of_member hm hc hl
  have hoff : v.answer (.mode c) = .no → v.answer (.visibility i) = .no := fun hmode =>
    hbalanced.visibility_of_off (hmode ▸ h.backs (.mode c)) (hm.under_choice hsane hc)
      (h.backs (.visibility i))
  have hon : v.answer (.mode c) = .yes →
      v.answer (.visibility i) = .no ∨ v.answer (.visibility i) = .yes := fun hmode =>
    hbalanced.visibility_of_on (hmode ▸ h.backs (.mode c)) hc hl (h.backs (.visibility i))
  cases hvis : v.answer (.visibility i) with
  | no => exact absurd (hno hvis) hne
  | yes =>
    rw [hyes hvis] at hne ⊢
    split at hne
    · rename_i hselected
      refine ⟨?_, nofun⟩
      rw [if_pos hselected]
      by_contra hmode
      have hnone := hbalanced.selection_of_not_on (h.backs (.mode c)) (Ne.symm hmode) (h.backs (.selection c))
      rw [hnone] at hselected
      cases hselected
    · exact absurd rfl hne
  | mod =>
    refine ⟨?_, nofun⟩
    have hvalue : v.answer (.tristate i) = .mod := by
      cases hx : v.answer (.tristate i) <;> simp_all
    rw [hvalue]
    cases hmode : v.answer (.mode c) with
    | no => cases hvis.symm.trans (hoff hmode)
    | mod => rfl
    | yes => rcases hon hmode with h | h <;> cases hvis.symm.trans h

omit hm in
theorem mode_cases {r : Tristate × Option Bool}
    (hinfer : m.infer u true (m.outcome u) (.mode c) = .ok r) :
    r.1 = min ((m.choice c).wantedMode (u.mode c)) (v.answer (.choiceVisibility c)) ∧
        (r.1 = .mod → (m.choice c).kind ≠ .bool) ∨
      min ((m.choice c).wantedMode (u.mode c)) (v.answer (.choiceVisibility c)) = .mod ∧
        r.1 = .yes := by
  rw [infer_mode_eq (h.backs (.choiceVisibility c))] at hinfer
  dsimp only at hinfer
  split at hinfer
  · rename_i hmod
    obtain ⟨k, s, hk, hrest⟩ := PlainM.bind_ok_iff.1 hinfer
    split at hrest
    · cases hrest
      exact .inr ⟨hmod, rfl⟩
    · rename_i hbool
      cases hrest
      refine .inl ⟨rfl, fun _ hkind => hbool ?_⟩
      cases (choiceKind_of_bool hkind none).symm.trans hk
      rfl
  · rename_i hmod
    cases hinfer
    exact .inl ⟨rfl, fun h => absurd h hmod⟩

end Writable

section Records

variable {es : List (SymbolId × String)} (hes : m.Retells u v R es) {L : Ledger}
  (hL : L.Reflects m es) (h : m.Writable u v) (hm : m.Loaded)

include hes hL

theorem Retells.user_untold (hi : (i, v.texts i) ∉ es) : L.user i = none := by
  refine (hL.untold i fun t ht => hi ?_).1
  obtain ⟨-, -, rfl⟩ := hes.only i t ht
  exact ht

include h hm

theorem Retells.user_cases (hl : (m.symbol i).kind.isLogical)
    (hne : v.answer (.visibility i) ≠ .no) : (i, (v.answer (.tristate i)).letter) ∈ es ∧
        L.user i = some (.tristate (v.answer (.tristate i))) ∨ L.user i = none ∧ R i := by
  obtain ⟨hdefined, hlt, hwrites⟩ :=
    writes_of_logical hm hl (h.backs (.visibility i)) hne (h.backs (.text i))
  by_cases htold : (i, v.texts i) ∈ es
  · rw [h.text_eq_letter hl] at htold
    refine .inl ⟨htold, (hL.told i _ htold).1.trans ?_⟩
    exact Symbol.accepts_letter hl (h.tristate_of_mod hlt hl)
  · exact .inr ⟨hes.user_untold hL htold, (hes.rest i hdefined hwrites).resolve_left htold⟩

theorem Retells.text_cases (hl : (m.symbol i).kind.isLogical = false)
    (hk : (m.symbol i).kind ≠ .unknown) (hne : v.answer (.visibility i) ≠ .no) :
    L.user i = Offer.accepted? (m.symbol i).kind (.text (v.texts i)) ∨
      L.user i = none ∧ (m.isLeftOut i ∨ R i) := by
  obtain ⟨hdefined, hlt⟩ := mem_uniqueDefined_of_visible hm (h.backs (.visibility i)) hne
  have hwrites := writes_of_visible hlt hk (h.backs (.visibility i)) hne (h.backs (.text i))
  rw [hl] at hwrites
  by_cases htold : (i, v.texts i) ∈ es
  · left
    rw [(hL.told i _ htold).1, Symbol.accepts, if_neg (by simp [hl])]
  · refine .inr ⟨hes.user_untold hL htold, ?_⟩
    cases hout : m.isLeftOut i with
    | true => exact .inl rfl
    | false =>
      rw [hout] at hwrites
      exact .inr ((hes.rest i hdefined hwrites).resolve_left htold)

theorem Retells.selection_of_told (hi : L.selection c = some i) :
    v.answer (.selection c) = some i := by
  obtain ⟨t, ht, hc, hyes⟩ := hL.selection_of c i hi
  obtain ⟨-, -, rfl⟩ := hes.only i t ht
  obtain ⟨hl, hletter⟩ := Symbol.eq_yes_of_accepts hyes
  rw [h.text_eq_letter hl] at hletter
  have hon : v.answer (.tristate i) = .yes := letter_injective hletter
  obtain ⟨hno, hmod, hvalue⟩ := h.tristate_of_member hm hc hl
  cases hvis : v.answer (.visibility i) with
  | no => cases hon.symm.trans (hno hvis)
  | mod => exact absurd hon (hmod hvis)
  | yes =>
    by_contra hne
    rw [hvalue hvis, if_neg hne] at hon
    cases hon

theorem Retells.selection_of_user (hmode : v.answer (.mode c) = .yes)
    (hi : u.selection c = some i) (ha : v.answer (.selection c) = some i) :
    L.selection c = some i ∨ R i ∧ v.answer (.tristate i) = .yes := by
  obtain ⟨hc, hl⟩ := h.selections c i hi
  have hon : m.outcome u (.mode c) = .ok .yes := hmode ▸ h.backs (.mode c)
  obtain ⟨w, hinfer⟩ := (balanced_outcome m u).rule _ _ (h.backs (.selection c)) rfl
  obtain ⟨vis, hvis, hne⟩ := selection_visible hon (ha ▸ hinfer)
  cases (h.backs (.visibility i)).symm.trans hvis
  have hyes := ((balanced_outcome m u).visibility_of_on hon hc hl hvis).resolve_left hne
  have hvalue : v.answer (.tristate i) = .yes := by
    rw [(h.tristate_of_member hm hc hl).2.2 hyes, if_pos ha]
  obtain ⟨htold, -⟩ | ⟨-, hR⟩ := hes.user_cases hL h hm hl hne
  · rw [hvalue] at htold
    have hsome := hL.selection_some i _ c htold hc (Symbol.accepts_letter hl nofun)
    obtain ⟨j, hj⟩ := isSome_iff_exists.1 hsome
    exact .inl (hj.trans ((hes.selection_of_told hL h hm hj).symm.trans ha))
  · exact .inr ⟨hR, hvalue⟩

variable (hsane : m.ChoicesSane) (hu : m.Condensable u v R) {r : Tristate × Option Bool}

section

include hsane

theorem Retells.mode_told {x : Tristate} (hx : L.mode c = some x) :
    x = v.answer (.mode c) ∧ x ≠ .no := by
  obtain ⟨i, t, ht, hfollowed, haccepts⟩ := hL.mode_of c x hx
  obtain ⟨hdefined, -, rfl⟩ := hes.only i t ht
  obtain ⟨hl, hn, hc⟩ : (m.symbol i).kind.isLogical ∧ v.texts i ≠ "n" ∧
      (m.symbol i).choice = some c := by
    unfold Ledger.followedBy at hfollowed
    split at hfollowed
    · simp_all
    · cases hfollowed
  rw [h.text_eq_letter hl] at haccepts hn
  have hne : v.answer (.tristate i) ≠ .no := fun hno => hn (by rw [hno]; rfl)
  rw [eq_of_accepts_letter haccepts]
  exact ⟨(h.tristate_eq_mode hm hsane hc hl hne).1, hne⟩

theorem Retells.isSome_mode (hl : (m.choice c).kind.isLogical)
    (hi : (m.symbol i).choice = some c) (hx : v.answer (.tristate i) = v.answer (.mode c))
    (hne : v.answer (.mode c) ≠ .no) (hneeded : ¬R i) : (L.mode c).isSome := by
  have hlogical := h.isLogical_of_member hm hi (hx ▸ hne)
  have hvisible := (h.tristate_eq_mode hm hsane hi hlogical (hx ▸ hne)).2
  obtain ⟨hdefined, -, hwrites⟩ :=
    writes_of_logical hm hlogical (h.backs (.visibility i)) hvisible (h.backs (.text i))
  have htold := (hes.rest i hdefined hwrites).resolve_right hneeded
  rw [h.text_eq_letter hlogical] at htold
  refine hL.mode_some i _ c (v.answer (.tristate i)) htold ?_ ?_
  · rw [Ledger.followedBy, if_pos, hi]
    rw [hlogical, Bool.true_and, decide_eq_true_eq]
    intro hletter
    exact hne (hx.symm.trans (letter_injective (y := .no) hletter))
  · rw [accepts_of_logical hl, ofLetter?_letter, bind_some, if_neg]
    rintro ⟨hbool, hmod⟩
    obtain ⟨w, hmode⟩ := (balanced_outcome m u).rule _ _ (h.backs (.mode c)) rfl
    obtain ⟨-, hwide⟩ | ⟨-, hyes⟩ := h.mode_cases hmode
    · exact hwide (hx.symm.trans hmod) hbool
    · cases (hx.symm.trans hmod).symm.trans hyes

end

variable {t t' : Table} (ht : ∀ q a, t q = .ok a → m.outcome u q = .ok a)
  (htt : ∀ q a, t q = .ok a → t' q = .ok a) (ht' : t = m.outcome u ∨ m.Sufficient u v R L)

include hu htt ht'

/-! ## Symbols -/

theorem Retells.infer_plain (hl : (m.symbol i).kind.isLogical)
    (hc : (m.symbol i).choice = none) (hvis : t (.visibility i) = .ok (v.answer (.visibility i)))
    (hne : v.answer (.visibility i) ≠ .no) (hinfer : m.infer u true t (.tristate i) = .ok r)
    (hr : r.1 = v.answer (.tristate i)) : m.infer L.assigned true t' (.tristate i) = .ok r := by
  have huser := hes.user_cases hL h hm hl hne
  obtain rfl | hsufficient := ht'
  swap
  · rw [eq_yes hne (hsufficient.visible i)] at hvis
    have hkept := huser.resolve_right fun hR => hsufficient.told i hR.2
    exact infer_tristate_of_kept htt hl hc hvis hinfer (hr ▸ hkept.2)
  refine infer_of_agrees htt (.refl _ _) ?_
  have hnew := h.backs.infer_tristate hl hc hne hinfer L.assigned
  have hold := h.backs.infer_tristate hl hc hne hinfer u
  rw [hinfer] at hold
  cases hold
  dsimp only at hr
  rw [hnew]
  -- what is picked first lies within the visibility, or comes from defaults
  have hpicked := v.picked_cases m i (u.user i)
  have hmodest : v.answer (.visibility i) = .mod →
      v.raised m i ((v.readers m).impliedValue i) = .yes →
      v.raised m i (v.picked m i (u.user i)) = .yes ∨ v.value m (m.symbol i).reverseDep = .mod →
      v.value m (m.symbol i).reverseDep = .yes ∨ (v.readers m).excludesMod i = true := by
    intro hmod himplied hcases
    rw [Valuation.raised_impliedValue (hu.direct i hne (.inl hmod))] at himplied
    rw [hr] at hcases
    refine (hu.modest i hl hc hmod himplied hcases).imp_right fun hweak => ?_
    rw [Valuation.excludesMod_eq, decide_eq_true hweak, Bool.or_true]
  have hsame : v.raised m i (v.picked m i (L.user i)) = v.raised m i (v.picked m i (u.user i)) := by
    obtain ⟨-, htold⟩ | ⟨hnone, hR⟩ := huser
    · rw [htold, ← hr]
      exact settled_told hne hpicked hmodest
    · rw [hnone]
      cases hu.redundant i hR with
      | selected _ hle => exact settled_implied hne hpicked hmodest hle
      | standard hstandard =>
        have hletter := hstandard.eq_standard hl hc
        rw [hr, letter_injective ((h.text_eq_letter hl).symm.trans hletter)]
        exact Valuation.raised_impliedValue (hu.direct i hne (.inr hR))
      | first c hc' => cases hc.symm.trans hc'
  exact congrArg (fun x => Except.ok (x, some true)) hsame

omit ht' in
theorem Retells.infer_member (hl : (m.symbol i).kind.isLogical) (hc : (m.symbol i).choice = some c)
    (hvis : t (.visibility i) = .ok (v.answer (.visibility i)))
    (hinfer : m.infer u true t (.tristate i) = .ok r) (hr : r.1 = v.answer (.tristate i)) :
    m.infer L.assigned true t' (.tristate i) = .ok r := by
  refine infer_tristate_of_member htt hl hc hvis hinfer fun hmod => ?_
  have hne : v.answer (.visibility i) ≠ .no := hmod ▸ nofun
  rw [hr]
  refine (hes.user_cases hL h hm hl hne).imp And.right fun ⟨hnone, hR⟩ => ⟨hnone, ?_⟩
  cases hu.redundant i hR with
  | selected hc' => cases hc.symm.trans hc'
  | standard hstandard => exact h.eq_no_of_standard hl hc hstandard
  | first _ _ _ _ _ hyes => exact absurd hyes ((h.tristate_of_member hm hc hl).2.1 hmod)

theorem Retells.infer_text
    (hl : (m.symbol i).kind.isLogical = false) (hk : (m.symbol i).kind ≠ .unknown)
    (hvis : t (.visibility i) = .ok (v.answer (.visibility i)))
    (hne : v.answer (.visibility i) ≠ .no) {r : String × Option Bool}
    (hinfer : m.infer u true t (.text i) = .ok r) (hr : r.1 = v.texts i) :
    m.infer L.assigned true t' (.text i) = .ok r := by
  have hagrees : L.user i = none → u.user i = none →
      m.infer L.assigned true t' (.text i) = .ok r := fun hL hu =>
    infer_of_agrees (q := .text i) htt (hu.trans hL.symm) hinfer
  obtain htold | ⟨hnone, hout | hR⟩ := hes.text_cases hL h hm hl hk hne
  · refine infer_text_of_kept htt hl hk hvis hne (fun x hx => h.accepted i _ hx) hinfer ?_
    rw [hr]
    exact htold
  · exact hagrees hnone (hu.leftOut i hl hout hne)
  · cases hu.redundant i hR with
    | selected hc hle => exact hagrees hnone (hu.unselected i hR hl hc hne hle)
    | standard hstandard =>
      obtain ⟨given, hgiven, hdefault⟩ := hstandard.exists_given hl hk
      obtain rfl := ht'.resolve_right fun hsufficient => hsufficient.told i hR
      exact infer_of_agrees htt (.refl _ _)
        (h.backs.infer_text_of_default hl hk hne hgiven hinfer (hr.trans hdefault) hnone)
    | first c _ _ _ hkind =>
      rw [hkind] at hl
      cases hl

/-! ## Choices -/

include ht

theorem Retells.infer_selection {r : Option SymbolId × Option Bool}
    (hinfer : m.infer u true t (.selection c) = .ok r) (hr : r.1 = v.answer (.selection c)) :
    m.infer L.assigned true t' (.selection c) = .ok r := by
  have hlinked := linked_warning (m := m) u L.assigned htt
  have hpair : r = (r.1, none) := Prod.ext rfl (infer_written_eq_none rfl hinfer)
  obtain ⟨mode, hmode, -⟩ := Readers.ask_bind_eq_ok.1 hinfer
  by_cases hon : mode = .yes
  swap
  · cases (infer_selection_of_not_on hmode hon).symm.trans hinfer
    exact infer_selection_of_not_on (htt _ _ hmode) hon
  subst hon
  cases hselection : L.selection c with
  | some j =>
    have hj := hes.selection_of_told hL h hm hselection
    rw [hpair, hr, hj] at hinfer ⊢
    obtain ⟨vis, hvis, hne⟩ := selection_visible hmode hinfer
    exact infer_selection_of_user (htt _ _ hmode) hselection (htt _ _ hvis) hne
  | none =>
    rw [infer_selection_of_on (htt _ _ hmode), show L.assigned.selection c = none from hselection]
    obtain ⟨j, hj, rfl, vis, hvis, hne⟩ | hdefault := selection_cases hmode hinfer
    · -- a selection that was made and is not told is the one by default
      have hon : v.answer (.mode c) = .yes :=
        Except.ok.inj ((h.backs _).symm.trans (ht _ _ hmode))
      obtain htold | ⟨hR, hvalue⟩ := hes.selection_of_user hL h hm hon hj hr.symm
      · cases hselection.symm.trans htold
      · obtain ⟨hc, hl⟩ := h.selections c j hj
        obtain rfl := ht'.resolve_right fun hsufficient => hsufficient.told j hR
        cases hu.redundant j hR with
        | selected hc' => cases hc.symm.trans hc'
        | standard hstandard => cases hvalue.symm.trans (h.eq_no_of_standard hl hc hstandard)
        | first d hd _ hfirst =>
          cases hc.symm.trans hd
          exact hlinked.defaultSelection (fun _ _ => trivial) _ _ hfirst
    · exact hlinked.defaultSelection (fun _ _ => trivial) _ _ hdefault

include hsane

omit ht htt ht' in
theorem Retells.mode_untold
    (hl : (m.choice c).kind.isLogical) (hne : v.answer (.choiceVisibility c) ≠ .no)
    (hmode : L.mode c = none) : if (m.choice c).isOptional then v.answer (.mode c) = .no
    else (m.choice c).kind = .tristate → v.answer (.tristate modules) ≠ .no →
      v.answer (.mode c) ≠ .yes := by
  have huntold : ∀ i, (m.symbol i).choice = some c → v.answer (.tristate i) = v.answer (.mode c) →
      v.answer (.mode c) ≠ .no → R i := by
    intro i hi hx hon
    by_contra hneeded
    have hsome := hes.isSome_mode hL h hm hsane hl hi hx hon hneeded
    rw [hmode] at hsome
    cases hsome
  have hmodes := hu.modes c hl hne
  split
  · rename_i hoptional
    by_contra hon
    obtain ⟨i, hi, hx, hneeded⟩ := hmodes (by rwa [if_pos hoptional])
    exact hneeded (huntold i hi hx hon)
  · rename_i hoptional
    intro hkind hmodules hyes
    obtain ⟨i, hi, hx, hneeded⟩ := hmodes (by rw [if_neg hoptional]; exact ⟨hkind, hmodules, hyes⟩)
    exact hneeded (huntold i hi hx (hyes ▸ nofun))

theorem Retells.infer_mode (hinfer : m.infer u true t (.mode c) = .ok r)
    (hr : r.1 = v.answer (.mode c)) : m.infer L.assigned true t' (.mode c) = .ok r := by
  obtain ⟨_, _, -, hrest⟩ := PlainM.bind_ok_iff.1 hinfer
  obtain ⟨vis, hvis, -⟩ := Readers.ask_bind_eq_ok.1 hrest
  cases (h.backs (.choiceVisibility c)).symm.trans (ht _ _ hvis)
  have hwanted : min ((m.choice c).wantedMode (L.mode c)) (v.answer (.choiceVisibility c)) =
      min ((m.choice c).wantedMode (u.mode c)) (v.answer (.choiceVisibility c)) →
      m.infer L.assigned true t' (.mode c) = .ok r :=
    fun hsame => infer_mode_of_wanted htt hvis hsame hinfer
  by_cases hne : v.answer (.choiceVisibility c) = .no
  · exact hwanted (by rw [hne, min_no, min_no])
  by_cases hl : (m.choice c).kind.isLogical
  swap
  · exact hwanted (by rw [h.mode_of_not_logical hl, hL.mode_of_not_logical hl])
  cases hmode : L.mode c with
  | some x =>
    obtain ⟨rfl, hx⟩ := hes.mode_told hL h hm hsane hmode
    refine infer_mode_of_kept htt hvis (fun hmod k s s' hk => ?_) hinfer (hr ▸ hx) (hr ▸ hmode)
    have hk' := (linked_warning u u ht).choiceKind trivial _ _ hk
    exact (balanced_outcome m u).choiceKind_of_mod (hmod ▸ h.backs _) hk'
  | none =>
    have huntold := hes.mode_untold hL h hm hsane hu hl hne hmode
    have hcases := h.mode_cases (infer_of_agrees ht (.refl _ _) hinfer)
    rw [hmode] at hwanted
    cases hoptional : (m.choice c).isOptional with
    | true =>
      rw [hoptional, ← hr] at huntold
      obtain ⟨hmin, -⟩ | ⟨-, hyes⟩ := hcases
      · refine hwanted ?_
        rw [← hmin, huntold]
        simp only [wantedMode, hoptional]
        exact no_min _
      · cases huntold.symm.trans hyes
    | false =>
      -- a choice that is two-valued at present has mode `y` whatever it wants
      have hbool : (Readers.plain m u true t).choiceKind c none = .ok (.bool, none) →
          m.infer L.assigned true t' (.mode c) = .ok r :=
        fun hkind => infer_mode_of_bool htt hvis hkind hoptional hinfer
      by_cases hkind : (m.choice c).kind = .tristate
      · by_cases hoff : v.answer (.tristate modules) = .no
        · obtain rfl | hsufficient := ht'
          · exact hbool (choiceKind_eq_bool (hoff ▸ h.backs (.tristate modules)) hl _)
          · exact hwanted (by rw [hsufficient.wanted c hoptional hkind hne hmode])
        · rw [hoptional, ← hr] at huntold
          obtain ⟨hmin, -⟩ | ⟨-, hyes⟩ := hcases
          · refine hwanted ?_
            simp only [wantedMode.eq_def _ none, hoptional, Bool.false_eq_true, if_false]
            exact min_mod_eq (wantedMode_ne_no hoptional _) hne
              (hmin ▸ huntold hkind hoff)
          · exact absurd hyes (huntold hkind hoff)
      · refine hbool (choiceKind_of_bool ?_ none)
        cases hcases : (m.choice c).kind <;> simp_all [Kind.isLogical]

/-- Each rule gives what it gave before. -/
theorem Retells.infer {q : Query} {r : q.Answer × Option Bool} (hinfer : m.infer u true t q = .ok r)
    (hr : m.outcome u q = .ok r.1) : m.infer L.assigned true t' q = .ok r := by
  have hlinked := linked_warning (m := m) u L.assigned htt
  have hr : r.1 = v.answer q := Except.ok.inj (hr.symm.trans (h.backs q))
  have hbacked : ∀ {q a}, t q = .ok a → t q = .ok (v.answer q) := fun {q a} hq => by
    rw [hq, ← ht _ _ hq, h.backs]
  cases q with
  | tristate i =>
    cases hl : (m.symbol i).kind.isLogical with
    | false => exact infer_tristate_of_not_logical hl hinfer
    | true =>
      obtain ⟨_, hvis⟩ := tristate_asks_visibility hl hinfer
      have hvis := hbacked hvis
      cases hc : (m.symbol i).choice with
      | some c => exact hes.infer_member hL h hm hu htt hl hc hvis hinfer hr
      | none =>
        by_cases hne : v.answer (.visibility i) = .no
        · exact infer_tristate_of_hidden hlinked hl (eq_no_of_hidden hvis hne) hinfer
        · exact hes.infer_plain hL h hm hu htt ht' hl hc hvis hne hinfer hr
  | text i =>
    cases hl : (m.symbol i).kind.isLogical with
    | true => exact infer_text_of_simple htt (.inl hl) hinfer
    | false =>
      by_cases hk : (m.symbol i).kind = .unknown
      · exact infer_text_of_simple htt (.inr hk) hinfer
      obtain ⟨_, hvis⟩ := text_asks_visibility hl hk hinfer
      have hvis := hbacked hvis
      by_cases hne : v.answer (.visibility i) = .no
      · exact infer_text_of_hidden hlinked hl (eq_no_of_hidden hvis hne) hinfer
      · exact hes.infer_text hL h hm hu htt ht' hl hk hvis hne hinfer hr
  | mode c => exact hes.infer_mode hL h hm hsane hu ht htt ht' hinfer hr
  | selection c => exact hes.infer_selection hL h hm hu ht htt ht' hinfer hr
  | visibility i => exact hlinked.freshVisibility (fun _ _ => trivial) none r hinfer
  | assignable i => exact hlinked.freshAssignable (fun _ _ => trivial) none r hinfer
  | choiceVisibility c => exact hlinked.freshChoiceVisibility (fun _ _ => trivial) none r hinfer
  | choiceAssignable c => exact hlinked.freshChoiceAssignable (fun _ _ => trivial) none r hinfer

omit ht htt ht' in
/-- A file that leaves out what is redundant restores all values, if evaluation answers every query
after the change. -/
theorem Retells.repeats (hanswers : ∀ q, ∃ a, m.outcome L.assigned q = .ok a) :
    m.Repeats u L.assigned :=
  repeats_of_answers (fun q => ⟨_, h.backs q⟩) (fun _ _ => hes.infer hL h hm hsane hu
    (fun _ _ => id) (fun _ _ => id) (.inl rfl)) hanswers

end Records

/-! ## Without modules -/

section Off

variable {es : List (SymbolId × String)} (hes : m.Retells u v (fun _ => False) es) {L : Ledger}
  (hL : L.Reflects m es) (h : m.Writable u v) (hm : m.Loaded)
  (hoff : v.answer (.tristate modules) = .no)
  (hleft : ∀ i, (m.symbol i).kind.isLogical = false → m.isLeftOut i = true →
    v.answer (.visibility i) ≠ .no → u.user i = none)
  (hrequired : ∀ c ∈ m.uniqueChoices, (m.choice c).isOptional = false)

include h hoff

theorem Writable.visibility_ne_mod (i : SymbolId) : v.answer (.visibility i) ≠ .mod := by
  have htwo : m.IsTwoValued (m.outcome u) i := .inr (hoff ▸ h.backs _)
  exact (balanced_outcome m u).visibility_ne_mod (fun _ _ _ hk => (htwo.kind hk).1) (h.backs _)

include hm hleft hrequired

/-- Without modules what is visible has visibility `y`, so that every value may be assigned, and a
choice that is not optional has mode `y`, whichever mode it wants. -/
theorem Writable.condensable : m.Condensable u v (fun _ => False) where
  redundant _ := False.elim
  direct i _ hcases := absurd (hcases.resolve_right id) (h.visibility_ne_mod hoff i)
  modest i _ _ hmod := absurd hmod (h.visibility_ne_mod hoff i)
  unselected _ := False.elim
  leftOut := hleft
  modes c _ hne hcond := by
    rw [hrequired c (mem_uniqueChoices_of_visible hm (h.backs _) hne)] at hcond
    exact absurd hoff hcond.2.1

include hes hL

/-- A choice that users set to `y` has its mode again if it has a symbol that is `y`. -/
theorem Retells.repeats_of_modes (hsane : m.ChoicesSane)
    (hyes : ∀ c ∈ m.uniqueChoices, (m.choice c).kind = .tristate → u.mode c = some .yes →
      v.answer (.choiceVisibility c) ≠ .no →
        ∃ i, (m.symbol i).choice = some c ∧ v.answer (.tristate i) = .yes) :
    m.Repeats u L.assigned := by
  refine repeats_of_tables fun t t' ht htt q r => hes.infer hL h hm hsane
    (h.condensable hm hoff hleft hrequired) ht htt (.inr ⟨fun _ => id, h.visibility_ne_mod hoff, ?_⟩)
  intro c hoptional htristate hne hmode
  have hc := mem_uniqueChoices_of_visible hm (h.backs _) hne
  have hl : (m.choice c).kind.isLogical := by rw [htristate]; rfl
  have hon := (balanced_outcome m u).mode_eq_yes (hoff ▸ h.backs _) hl hoptional (h.backs _) hne
    (h.backs _)
  unfold wantedMode
  rw [hoptional]
  cases hu : u.mode c with
  | none => rfl
  | some y =>
    cases y with
    | no | mod => rfl
    | yes =>
      obtain ⟨i, hi, hx⟩ := hyes c hc htristate hu hne
      have hsome := hes.isSome_mode hL h hm hsane hl hi (hx.trans hon.symm) (hon ▸ nofun) id
      rw [hmode] at hsome
      cases hsome

end Off

end Model

end Buildsmith.Kconfig
