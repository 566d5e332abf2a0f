import Buildsmith.Proofs.Description.Gathering
import Buildsmith.Proofs.Evaluation.Members
import Buildsmith.Proofs.Text.Values

/-!
# Assigning what came out

If what is assigned is replaced by values that came of it, the same values come out again, as far as
the rules do not notice the replacement (`repeats_of_tables`).  Where every query is answered after
the replacement too, it is enough that they do not notice it over all values that came out before
(`repeats_of_answers`).  Where a symbol is visible, its value may be assigned to it; where it is not,
anything.
-/

namespace Buildsmith.Kconfig

open Readers PlainM Except
open Text.Integer (parse? text?)

namespace Model

variable {m : Model} {u u' : Assigned} {t t' : Table} {q : Query} {i : SymbolId} {c : ChoiceId}

/-! ## A symbol that is written stays so -/

section Written

variable {warns : Bool} {s : Option Bool} {p : Tristate × Option Bool}

theorem written_value {e : Expr} (h : (plain m u warns t).value e s = .ok p) : p.2 = s :=
  linked_sameWritten.value (fun _ _ => trivial) s p rfl h

theorem written_unselectedValue {vis : Tristate}
    (h : (plain m u warns t).unselectedValue i vis (some true) = .ok p) : p.2 = some true :=
  linked_sameWritten.unselectedValue rfl (fun _ _ => trivial) trivial vis _ p rfl h

theorem written_numericDefault {range : Option (Int × Int)} {p : String × Option Bool}
    (h : (plain m u warns t).numericDefault i range (some true) = .ok p) : p.2 = some true :=
  linked_sameWritten.numericDefault rfl (fun _ _ _ _ => trivial) range _ p rfl h

theorem selectedValue_eq_ok {val x : Tristate} {s' : Option Bool}
    (h : (plain m u warns t).selectedValue i val (some true) = .ok (x, s')) :
    s' = some true ∧ ∃ reverse, (plain m u warns t).value (m.symbol i).reverseDep (some true) =
        .ok (reverse, some true) ∧ x = max reverse val ∧
      ∀ y, (plain m u warns t).selectedValue i y (some true) = .ok (max reverse y, some true) := by
  obtain ⟨reverse, s₁, hreverse, hrest⟩ := bind_ok_iff.1 h
  cases written_value hreverse
  by_cases hno : reverse = .no
  · subst hno
    cases hrest
    refine ⟨rfl, .no, hreverse, by cases val <;> rfl, fun y => ?_⟩
    refine bind_ok_iff.2 ⟨_, _, hreverse, ?_⟩
    cases y <;> rfl
  · simp only [ne_eq, hno] at hrest
    obtain ⟨direct, s₂, hdirect, hrest⟩ := bind_ok_iff.1 hrest
    cases written_value hdirect
    have hraise : ∀ y : Tristate, ((do
        if direct < reverse then
          (plain m u warns t).warn ((plain m u warns t).unsatisfiedText i)
        (plain m u warns t).setWritten true
        return max reverse y : PlainM Tristate)) (some true) = .ok (max reverse y, some true) := by
      intro y
      split at hrest
      · rename_i hlt
        obtain ⟨_, s₃, hwarn, -⟩ := bind_ok_iff.1 hrest
        rw [if_pos hlt]
        exact bind_ok_iff.2 ⟨_, _, hwarn, rfl⟩
      · rename_i hlt
        rw [if_neg hlt]
        rfl
    have hx : (x, s') = (max reverse val, some true) :=
      ok.inj (hrest.symm.trans (hraise val))
    cases hx
    refine ⟨rfl, reverse, hreverse, rfl, fun y => ?_⟩
    refine bind_ok_iff.2 ⟨_, _, hreverse, ?_⟩
    simp only [ne_eq, hno]
    exact bind_ok_iff.2 ⟨_, _, hdirect, hraise y⟩

end Written

/-! ## Truth values -/

section Values

variable {vis : Tristate} (htt : ∀ q a, t q = .ok a → t' q = .ok a) {r : Tristate × Option Bool}

theorem infer_tristate_of_not_logical (hl : (m.symbol i).kind.isLogical = false)
    (h : m.infer u true t (.tristate i) = .ok r) : m.infer u' true t' (.tristate i) = .ok r := by
  simp only [infer, answer, freshTristate, plain_model, hl] at h ⊢
  exact h

theorem isLogical_of_infer (h : m.infer u true t (.tristate i) = .ok r) (hne : r.1 ≠ .no) :
    (m.symbol i).kind.isLogical := by
  by_contra hl
  rw [tristate_of_not_logical (by simpa using hl) h] at hne
  exact hne rfl

include htt

theorem infer_tristate_of_kept (hl : (m.symbol i).kind.isLogical) (hc : (m.symbol i).choice = none)
    (hvis : t (.visibility i) = .ok .yes) (h : m.infer u true t (.tristate i) = .ok r)
    (hkept : u'.user i = some (.tristate r.1)) : m.infer u' true t' (.tristate i) = .ok r := by
  have hlinked := linked_warning (m := m) u u' htt
  rw [infer_tristate_eq hl hvis, hc] at h
  rw [infer_tristate_eq hl (htt _ _ hvis), hc]
  obtain ⟨val, s₁, hval, hrest⟩ := bind_ok_iff.1 h
  have hs₁ : s₁ = some true := written_unselectedValue hval
  subst hs₁
  obtain ⟨raised, s₂, hraised, hrest⟩ := bind_ok_iff.1 hrest
  obtain ⟨rfl, reverse, -, rfl, hselected⟩ := selectedValue_eq_ok hraised
  have hpicked : (plain m u' true t').unselectedValue i .yes (some true) =
      .ok (r.1, some true) := by
    change (plain m u' true t').chosenValue i .yes (u'.user i) (some true) = _
    rw [hkept]
    cases r.1 <;> rfl
  have hselected' : ∀ y, (plain m u' true t').selectedValue i y (some true) =
      .ok (max reverse y, some true) := fun y =>
    hlinked.selectedValue trivial (fun _ _ => trivial) (fun _ _ _ => trivial) y _ _ (hselected y)
  have hmax : max reverse (max reverse val) = max reverse val := by
    cases reverse <;> cases val <;> rfl
  refine bind_ok_iff.2 ⟨_, _, hpicked, bind_ok_iff.2 ⟨_, _, hselected' _, ?_⟩⟩
  by_cases hmod : max reverse val = .mod
  · rw [if_pos hmod] at hrest
    obtain ⟨b, s₃, hb, hrest⟩ := bind_ok_iff.1 hrest
    have hs₃ : s₃ = some true :=
      linked_sameWritten.excludesMod (fun _ _ => trivial) (fun _ _ => trivial) _ _ rfl hb
    subst hs₃
    have hb' := hlinked.excludesMod (fun _ _ => trivial) (fun _ _ => trivial) _ _ hb
    cases b with
    | true =>
      cases hrest
      have hyes : max reverse .yes = .yes := by cases reverse <;> rfl
      rw [hyes]
      rfl
    | false =>
      cases hrest
      rw [hmax, if_pos hmod]
      exact bind_ok_iff.2 ⟨_, _, hb', rfl⟩
  · rw [if_neg hmod] at hrest
    cases hrest
    rw [hmax, if_neg hmod]
    rfl

/-- The value of a symbol in a choice may be assigned to it.  What is assigned matters only if the
symbol has visibility `m`, and nothing assigned counts as `n` then. -/
theorem infer_tristate_of_member
    (hl : (m.symbol i).kind.isLogical) (hc : (m.symbol i).choice = some c)
    (hvis : t (.visibility i) = .ok vis) (h : m.infer u true t (.tristate i) = .ok r)
    (hkept : vis = .mod → u'.user i = some (.tristate r.1) ∨ u'.user i = none ∧ r.1 = .no) :
    m.infer u' true t' (.tristate i) = .ok r := by
  rw [infer_tristate_eq hl hvis, hc] at h
  rw [infer_tristate_eq hl (htt _ _ hvis), hc]
  cases vis with
  | no => exact h
  | mod =>
    have hr : (r.1 = .no ∨ r.1 = .mod) ∧ r.2 = some true := by
      obtain ⟨user, s, huser, hrest⟩ := bind_ok_iff.1 h
      cases huser
      cases huser : u.user i with
      | none =>
        rw [huser] at hrest
        cases hrest
        exact ⟨.inl rfl, rfl⟩
      | some x =>
        rw [huser] at hrest
        cases x with
        | text y =>
          cases hrest
          exact ⟨.inl rfl, rfl⟩
        | tristate y => cases y <;> cases hrest <;> simp
    obtain ⟨hvalue, hwritten⟩ := hr
    have hpair : r = (r.1, some true) := Prod.ext rfl hwritten
    have huser : (plain m u' true t').user i (some true) = .ok (u'.user i, some true) := rfl
    refine (bind_of_ok huser).trans ?_
    rw [hpair]
    obtain hsome | ⟨hnone, hno⟩ := hkept rfl
    · rw [hsome]
      obtain hno | hmod := hvalue
      · rw [hno]
        rfl
      · rw [hmod]
        rfl
    · rw [hnone, hno]
      rfl
  | yes =>
    obtain ⟨a, ha, hrest⟩ := ask_bind_eq_ok.1 h
    exact ask_bind_eq_ok.2 ⟨_, htt _ _ ha, hrest⟩

end Values

/-! ## Numbers -/

variable {kind : Kind} {high low n : Int}

theorem exists_numberText (hkind : kind.isNumeric)
    (hn : ∃ x, n = (parse? kind.base x).getD 0) (s : Option Bool) :
    ∃ y, (numberText kind n : PlainM String) s = .ok (y, s) := by
  unfold numberText
  split
  · exact ⟨_, rfl⟩
  · rename_i hhex
    have hint : kind = .int := by
      cases kind <;> simp_all [Kind.isNumeric]
    subst hint
    obtain ⟨x, rfl⟩ := hn
    have hsome : (text? ((parse? 10 x).getD 0)).isSome := by
      cases hx : parse? 10 x with
      | none => decide
      | some n => exact Text.Integer.isSome_text?_of_parse? hx
    obtain ⟨y, hy⟩ := Option.isSome_iff_exists.1 hsome
    simp only [Kind.base, hy]
    exact ⟨y, rfl⟩

theorem activeRange_bounds
    {base : Nat} {rs : List (SymbolId × SymbolId × Expr)} {s s' : Option Bool}
    (h : (plain m u true t).activeRange base rs s = .ok (some (low, high), s')) :
    (∃ x, low = (parse? base x).getD 0) ∧ ∃ x, high = (parse? base x).getD 0 := by
  induction rs generalizing s with
  | nil => cases h
  | cons r rs ih =>
    obtain ⟨c, s₁, -, hrest⟩ := bind_ok_iff.1 h
    split at hrest
    · obtain ⟨x, s₂, -, hrest⟩ := bind_ok_iff.1 hrest
      obtain ⟨y, s₃, -, hrest⟩ := bind_ok_iff.1 hrest
      cases hrest
      exact ⟨⟨x, rfl⟩, y, rfl⟩
    · exact ih hrest

theorem runs_outsideText (hkind : (m.symbol i).kind.isNumeric)
    (hn : ∃ x, n = (parse? (m.symbol i).kind.base x).getD 0)
    (hlow : ∃ x, low = (parse? (m.symbol i).kind.base x).getD 0)
    (hhigh : ∃ x, high = (parse? (m.symbol i).kind.base x).getD 0) (s : Option Bool) :
    (plain m u true t).warn ((plain m u true t).outsideText i n low high) s = .ok ((), s) := by
  obtain ⟨x, hx⟩ := exists_numberText hkind hn none
  obtain ⟨y, hy⟩ := exists_numberText hkind hlow none
  obtain ⟨z, hz⟩ := exists_numberText hkind hhigh none
  have htext : ∃ p, (plain m u true t).outsideText i n low high none = .ok p :=
    ⟨_, (bind_of_ok hx).trans
      ((bind_of_ok hy).trans ((bind_of_ok hz).trans rfl))⟩
  obtain ⟨p, hp⟩ := htext
  simp only [plain, StateT.run'] at hp ⊢
  rw [hp]
  rfl

theorem accepted?_of_numeric (hkind : kind.isNumeric) {x : String} {v : UserValue}
    (h : Offer.accepted? kind (.text x) = some v) :
    v = .text x ∧ ∃ n, parse? kind.base x = some n := by
  cases kind with
  | int =>
    simp only [Offer.accepted?] at h
    split at h
    · cases h
      exact ⟨rfl, Option.isSome_iff_exists.1 ‹_›⟩
    · cases h
  | hex =>
    simp only [Offer.accepted?] at h
    split at h
    · split at h
      · cases h
        exact ⟨rfl, _, ‹_›⟩
      · cases h
    · cases h
  | _ => cases hkind

section Numbers

variable {vis : Tristate} {range : Option (Int × Int)} {p : String × Option Bool}

theorem chosenNumber_cases {user : Option UserValue}
    (h : (plain m u true t).chosenNumber i vis range user (some true) = .ok p) :
    (user = some (.text p.1) ∧ p.2 = some true ∧
      (∀ u' t', (plain m u' true t').chosenNumber i vis range user (some true) = .ok p) ∧
      p.1 ≠ "" ∧ ∃ n, parse? (m.symbol i).kind.base p.1 = some n ∧
        ∀ low high, range = some (low, high) → low ≤ n ∧ n ≤ high) ∨
    (plain m u true t).numericDefault i range (some true) = .ok p := by
  cases user with
  | none => exact .inr h
  | some x =>
    cases x with
    | tristate y => exact .inr h
    | text y =>
      simp only [chosenNumber, plain_model] at h ⊢
      by_cases hdefault : (vis = .no || y.isEmpty)
      · rw [if_pos hdefault] at h
        exact .inr h
      · rw [if_neg hdefault] at h
        simp only [if_neg hdefault]
        have hy : y ≠ "" := by
          rintro rfl
          exact hdefault (by simp)
        cases hparse : parse? (m.symbol i).kind.base y with
        | none =>
          rw [hparse] at h
          cases h
        | some n =>
          simp only [hparse] at h
          cases range with
          | none =>
            cases h
            exact .inl ⟨rfl, rfl, fun _ _ => rfl, hy, n, hparse, by simp⟩
          | some bounds =>
            dsimp only at h ⊢
            by_cases hin : (bounds.1 ≤ n && n ≤ bounds.2)
            · rw [if_pos hin] at h
              cases h
              refine .inl ⟨rfl, rfl, fun _ _ => ?_, hy, n, hparse, ?_⟩
              · rw [if_pos hin]
                rfl
              · rintro low high ⟨⟩
                simpa using hin
            · rw [if_neg hin] at h
              obtain ⟨_, s, hwarn, hrest⟩ := bind_ok_iff.1 h
              cases eq_of_plain_warn hwarn
              exact .inr hrest

theorem chosenNumber_of_default (hkind : (m.symbol i).kind.isNumeric)
    (hrange : ∀ low high, range = some (low, high) →
      (∃ x, low = (parse? (m.symbol i).kind.base x).getD 0) ∧
        ∃ x, high = (parse? (m.symbol i).kind.base x).getD 0)
    (h : (plain m u true t).numericDefault i range (some true) = .ok p) :
    (plain m u true t).chosenNumber i vis range
      (Offer.accepted? (m.symbol i).kind (.text p.1)) (some true) = .ok p := by
  have hwritten : p = (p.1, some true) := Prod.ext rfl (written_numericDefault h)
  cases haccepted : Offer.accepted? (m.symbol i).kind (.text p.1) with
  | none => exact h
  | some v =>
    obtain ⟨rfl, n, hn⟩ := accepted?_of_numeric hkind haccepted
    simp only [chosenNumber, plain_model, hn]
    split
    · exact h
    · cases range with
      | none => exact congrArg ok hwritten.symm
      | some bounds =>
        obtain ⟨low, high⟩ := bounds
        obtain ⟨hlow, hhigh⟩ := hrange low high rfl
        dsimp only
        split
        · exact congrArg ok hwritten.symm
        · have hwarn := runs_outsideText (u := u) (t := t) hkind ⟨p.1, by rw [hn]⟩ hlow hhigh
            (some true)
          exact bind_ok_iff.2 ⟨_, _, hwarn, h⟩

end Numbers

/-! ## Texts -/

section Texts

variable {vis : Tristate} (htt : ∀ q a, t q = .ok a → t' q = .ok a)

include htt in
theorem infer_text_of_simple (hi : (m.symbol i).kind.isLogical ∨ (m.symbol i).kind = .unknown)
    {r : String × Option Bool} (h : m.infer u true t (.text i) = .ok r) :
    m.infer u' true t' (.text i) = .ok r := by
  cases hl : (m.symbol i).kind.isLogical with
  | true =>
    obtain ⟨x, hx, rfl⟩ := (infer_text_of_logical hl).1 h
    exact (infer_text_of_logical hl).2 ⟨x, htt _ _ hx, rfl⟩
  | false =>
    have hunknown : (m.symbol i).kind = .unknown := by simpa [hl] using hi
    rw [infer_text_of_unknown hunknown] at h ⊢
    exact h

variable {p : String × Option Bool}

theorem written_plainText
    (h : (plain m u true t).plainText i vis (some true) = .ok p) : p.2 = some true :=
  linked_sameWritten.plainText rfl (fun _ _ _ _ => trivial) (fun _ _ _ _ => trivial) trivial vis _ p
    rfl h

include htt

section

variable {r : String × Option Bool} (hl : (m.symbol i).kind.isLogical = false)
  (hk : (m.symbol i).kind ≠ .unknown) (hvis : t (.visibility i) = .ok vis)

include hl hk hvis

theorem infer_text_of_plainText (h : m.infer u true t (.text i) = .ok r) (hplain : ∀ p, p.1 = r.1 →
      (plain m u true t).plainText i vis (some (decide (vis ≠ .no))) = .ok p →
      (plain m u' true t').plainText i vis (some (decide (vis ≠ .no))) = .ok p) :
    m.infer u' true t' (.text i) = .ok r := by
  rw [infer_text_eq hl hk hvis] at h
  rw [infer_text_eq hl hk (htt _ _ hvis)]
  obtain ⟨x, s, hx, hrest⟩ := bind_ok_iff.1 h
  have hr : x = r.1 := by
    split at hrest <;> cases hrest <;> rfl
  exact bind_ok_iff.2 ⟨x, s, hplain _ hr hx, hrest⟩

theorem infer_text_of_kept (hne : vis ≠ .no) (huser : ∀ x, u.user i = some (.text x) →
      Offer.accepted? (m.symbol i).kind (.text x) = some (.text x))
    (h : m.infer u true t (.text i) = .ok r)
    (hkept : u'.user i = Offer.accepted? (m.symbol i).kind (.text r.1)) :
    m.infer u' true t' (.text i) = .ok r := by
  have hlinked := linked_warning (m := m) u u' htt
  have hshown : decide (vis ≠ .no) := decide_eq_true hne
  refine infer_text_of_plainText htt hl hk hvis h fun p hpr hp => ?_
  rw [← hpr] at hkept
  rw [hshown] at hp ⊢
  by_cases hkind : (m.symbol i).kind.isNumeric
  · rw [plainText_of_numeric hkind] at hp ⊢
    obtain ⟨range, s, hrange, hrest⟩ := bind_ok_iff.1 hp
    have hs : s = some true :=
      linked_sameWritten.activeRange _ (fun _ _ _ _ => trivial) _ _ rfl hrange
    subst hs
    have hrange' := hlinked.activeRange _ (fun _ _ _ _ => trivial) _ _ hrange
    refine bind_ok_iff.2 ⟨range, some true, hrange', ?_⟩
    change (plain m u' true t').chosenNumber i vis range (u'.user i) (some true) = _
    rw [hkept]
    obtain ⟨huser', -, hsame, -⟩ | hdefault := chosenNumber_cases hrest
    · rw [huser _ huser', ← huser']
      exact hsame u' t'
    · refine chosenNumber_of_default hkind ?_
        (hlinked.numericDefault trivial (fun _ _ _ _ => trivial) range _ _ hdefault)
      rintro low high rfl
      exact activeRange_bounds hrange
  · have hstring : (m.symbol i).kind = .string := by
      cases hcases : (m.symbol i).kind <;> simp_all [Kind.isLogical, Kind.isNumeric]
    have hwritten : p = (p.1, some true) := Prod.ext rfl (written_plainText hp)
    rw [plainText_of_not_numeric hkind]
    change (plain m u' true t').chosenString i vis (u'.user i) (some true) = _
    rw [hkept, hstring]
    simp only [chosenString, if_pos hne]
    exact congrArg ok hwritten.symm

end

end Texts

end Model

/-! ## Modes -/

theorem Choice.wantedMode_ne_no
    {x : Choice} (h : x.isOptional = false) (mode : Option Tristate) : x.wantedMode mode ≠ .no := by
  unfold Choice.wantedMode
  rw [h]
  cases mode with
  | none => exact nofun
  | some y => cases y <;> exact nofun

namespace Model

variable {m : Model} {u u' : Assigned} {t t' : Table} {c : ChoiceId}

section Choices

variable {vis : Tristate}

section

variable {k : Kind} {s s' : Option Bool} {j : SymbolId} {r : Tristate × Option Bool}
  (htt : ∀ q a, t q = .ok a → t' q = .ok a) (hvis : t (.choiceVisibility c) = .ok vis)

include htt hvis

omit htt in
theorem infer_mode_eq :
    m.infer u true t (.mode c) = (do
      let val := min ((m.choice c).wantedMode (u.mode c)) vis
      if val = .mod then
        if (← (plain m u true t).choiceKind c) = .bool then return .yes
      return val : PlainM Tristate) none := by
  have huser : (plain m u true t).userMode c none = .ok (u.mode c, none) := rfl
  exact (bind_of_ok huser).trans (ask_bind_of_ok hvis _)

theorem infer_mode_of_wanted (hwanted : min ((m.choice c).wantedMode (u'.mode c)) vis =
      min ((m.choice c).wantedMode (u.mode c)) vis) (h : m.infer u true t (.mode c) = .ok r) :
    m.infer u' true t' (.mode c) = .ok r := by
  have hlinked := linked_warning (m := m) u u' htt
  rw [infer_mode_eq hvis] at h
  rw [infer_mode_eq (htt _ _ hvis), hwanted]
  dsimp only at h ⊢
  split at h
  · rename_i hmod
    obtain ⟨k, s, hk, hrest⟩ := bind_ok_iff.1 h
    rw [if_pos hmod]
    exact bind_ok_iff.2 ⟨k, s, hlinked.choiceKind trivial _ _ hk, hrest⟩
  · rename_i hmod
    rw [if_neg hmod]
    exact h

theorem infer_mode_of_kept
    (hwide : vis = .mod → ∀ k s s', (plain m u true t).choiceKind c s = .ok (k, s') → k ≠ .bool)
    (h : m.infer u true t (.mode c) = .ok r) (hne : r.1 ≠ .no) (hkept : u'.mode c = some r.1) :
    m.infer u' true t' (.mode c) = .ok r := by
  have hlinked := linked_warning (m := m) u u' htt
  rw [infer_mode_eq hvis] at h
  rw [infer_mode_eq (htt _ _ hvis), hkept]
  generalize (m.choice c).wantedMode (u.mode c) = wanted at h
  have hmax : ∀ x : Tristate, x ≠ .no → (m.choice c).wantedMode (some x) = x := by
    intro x hx
    unfold Choice.wantedMode
    cases (m.choice c).isOptional <;> cases x <;> first | rfl | exact absurd rfl hx
  by_cases hmod : min wanted vis = .mod
  · rw [if_pos hmod] at h
    obtain ⟨k, s, hk, hrest⟩ := bind_ok_iff.1 h
    have hs : s = none := linked_sameWritten.choiceKind trivial _ _ rfl hk
    subst hs
    split at hrest
    · rename_i hbool
      cases hrest
      have hyes : vis = .yes := by
        cases vis with
        | no => cases wanted <;> cases hmod
        | mod => exact absurd hbool (hwide rfl k _ _ hk)
        | yes => rfl
      rw [hyes, hmax .yes nofun]
      rfl
    · rename_i hbool
      cases hrest
      have hmin : min (min wanted vis) vis = .mod := by
        rw [hmod]
        cases vis with
        | no => cases wanted <;> cases hmod
        | mod | yes => rfl
      rw [hmax _ hne, hmin, hmod]
      refine bind_ok_iff.2 ⟨k, none, hlinked.choiceKind trivial _ _ hk, ?_⟩
      rw [if_neg hbool]
      rfl
  · rw [if_neg hmod] at h
    cases h
    have hmin : min (min wanted vis) vis = min wanted vis := by
      cases wanted <;> cases vis <;> rfl
    rw [hmax _ hne, hmin, if_neg hmod]
    rfl

omit htt hvis in
theorem choiceKind_of_bool (hkind : (m.choice c).kind = .bool) (s : Option Bool) :
    (plain m u true t).choiceKind c s = .ok (.bool, s) := by
  simp only [choiceKind, plain_model, hkind]
  rfl

theorem infer_mode_of_bool (hkind : (plain m u true t).choiceKind c none = .ok (.bool, none))
    (hoptional : (m.choice c).isOptional = false) (h : m.infer u true t (.mode c) = .ok r) :
    m.infer u' true t' (.mode c) = .ok r := by
  have hlinked := linked_warning (m := m) u u' htt
  -- both modes that can be wanted come to the same
  have hmode : ∀ (w : Assigned) (t : Table), t (.choiceVisibility c) = .ok vis →
      (plain m w true t).choiceKind c none = .ok (.bool, none) →
      m.infer w true t (.mode c) = .ok (if vis = .no then .no else .yes, none) := by
    intro w t hvis hkind
    rw [infer_mode_eq hvis]
    have hne := Choice.wantedMode_ne_no hoptional (w.mode c)
    generalize (m.choice c).wantedMode (w.mode c) = wanted at hne ⊢
    dsimp only
    split
    · rename_i hmod
      rw [bind_of_ok hkind]
      cases vis with
      | no => cases wanted <;> cases hmod
      | mod | yes => rfl
    · rename_i hmod
      cases wanted <;> cases vis <;> first | rfl | exact absurd rfl hne | exact absurd rfl hmod
  rw [← h, hmode u t hvis hkind, hmode u' t' (htt _ _ hvis) (hlinked.choiceKind trivial _ _ hkind)]

omit htt hvis in
theorem defaultSelection_visible (h : (plain m u true t).defaultSelection c s = .ok (some j, s')) :
    ∃ vis, t (.visibility j) = .ok vis ∧ vis ≠ .no := by
  obtain ⟨d, s₁, hd, hrest⟩ := bind_ok_iff.1 h
  cases d with
  | none => exact ((firstVisible_spec hrest).1 j rfl).2
  | some k =>
    cases hrest
    exact (visibleDefault_spec hd j rfl).2

omit htt hvis in
theorem selection_visible (hmode : t (.mode c) = .ok .yes) {w : Option Bool}
    (h : m.infer u true t (.selection c) = .ok (some j, w)) :
    ∃ vis, t (.visibility j) = .ok vis ∧ vis ≠ .no := by
  obtain ⟨k, -, hpair, hvisible⟩ | hdefault := selection_cases hmode h
  · cases hpair
    exact hvisible
  · exact defaultSelection_visible hdefault

omit htt hvis in
theorem choiceKind_of_choiceKind (hk : (plain m u true t).choiceKind c s = .ok (k, s'))
    (s₁ : Option Bool) : (plain m u true t).choiceKind c s₁ = .ok (k, s₁) := by
  by_cases hkind : ((plain m u true t).model.choice c).kind = .tristate
  · simp only [choiceKind, hkind, if_true] at hk ⊢
    obtain ⟨x, hx, hrest⟩ := ask_bind_eq_ok.1 hk
    refine ask_bind_eq_ok.2 ⟨x, hx, ?_⟩
    split at hrest <;> cases hrest <;> simp [*]
  · simp only [choiceKind, hkind, if_false] at hk ⊢
    cases hk
    rfl

omit htt hvis in
theorem Balanced.choiceKind_of_mod (ht : m.Balanced u t) (hvis : t (.choiceVisibility c) = .ok .mod)
    (hk : (plain m u true t).choiceKind c s = .ok (k, s')) : k ≠ .bool := by
  rintro rfl
  obtain ⟨w, hinfer⟩ := ht.rule _ _ hvis rfl
  obtain ⟨x, s₁, -, hrest⟩ := bind_ok_iff.1 hinfer
  by_cases hx : x = .mod
  · subst hx
    obtain ⟨k, s₂, hk', hrest⟩ := bind_ok_iff.1 hrest
    cases hk'.symm.trans (choiceKind_of_choiceKind hk s₁)
    cases hrest
  · simp only [widened, if_neg hx] at hrest
    cases hrest
    exact hx rfl

end

end Choices

/-! ## Repeating -/

/-- What is assigned second repeats all that comes of what is assigned first. -/
structure Repeats (m : Model) (u u' : Assigned) : Prop where
  outcome : ∀ q a, m.outcome u q = .ok a → m.outcome u' q = .ok a
  infer : ∀ q r, m.infer u true (m.outcome u) q = .ok r → m.outcome u q = .ok r.1 →
    m.infer u' true (m.outcome u') q = .ok r

/-- What comes out is repeated if no rule tells the assignments apart, over any part of the values
that came out. -/
theorem repeats_of_tables (h : ∀ t t' : Table, (∀ q a, t q = .ok a → m.outcome u q = .ok a) →
      (∀ q a, t q = .ok a → t' q = .ok a) → ∀ q r, m.infer u true t q = .ok r →
        m.outcome u q = .ok r.1 → m.infer u' true t' q = .ok r) : m.Repeats u u' := by
  have hsettled : ∀ n q a, m.outcomeWithin u n q = .ok a → m.outcome u q = .ok a := by
    intro n q a ha
    rw [outcome_of_decided (by rw [ha]; exact decided_ok a), ha]
  have hsame : ∀ q a, m.outcome u q = .ok a → m.outcome u' q = .ok a := by
    refine outcomeWithin_induction (P := fun q a => m.outcome u' q = .ok a)
      (balanced_outcome m u').constants (fun n q r hq ih hinfer hfound => ?_) _
    exact outcome_of_infer hq (h _ _ (hsettled n) ih q r hinfer (hsettled _ q _ hfound))
  exact ⟨hsame, h _ _ (fun _ _ => id) hsame⟩

section Answers

variable (hu : ∀ q, ∃ a, m.outcome u q = .ok a)
  (hinfer : ∀ q r, m.infer u true (m.outcome u) q = .ok r → m.outcome u q = .ok r.1 →
    m.infer u' true (m.outcome u) q = .ok r)

include hu hinfer

/-- What comes of the second assignment came of the first, if the rules do not tell them apart.  The
induction is on the depth of evaluation after the change, so that nothing is known of its depth
before. -/
theorem outcome_of_repeated {q : Query} {a : q.Answer} (ha : m.outcome u' q = .ok a) :
    m.outcome u q = .ok a := by
  have hbalanced := balanced_outcome m u
  refine outcomeWithin_induction (P := fun q a => m.outcome u q = .ok a) hbalanced.constants
    (fun n q r hq ih hrule _ => ?_) _ q a ha
  obtain ⟨b, hb⟩ := hu q
  obtain ⟨w, hw⟩ := hbalanced.rule q b hb hq
  have hsame : r = (b, w) :=
    ok.inj ((infer_of_agrees ih (.refl _ _) hrule).symm.trans (hinfer q _ hw hb))
  rw [hb, hsame]

theorem repeats_of_answers (hu' : ∀ q, ∃ a, m.outcome u' q = .ok a) : m.Repeats u u' := by
  have hsame : ∀ q a, m.outcome u q = .ok a → m.outcome u' q = .ok a := by
    intro q a ha
    obtain ⟨b, hb⟩ := hu' q
    rw [hb, ← ha]
    exact (outcome_of_repeated hu hinfer hb).symm
  exact ⟨hsame, fun q r hr hq => infer_of_agrees hsame (.refl _ _) (hinfer q r hr hq)⟩

end Answers

end Model

/-!
## Rules over known answers

Where every query has an answer, the rules are functions of the answers: what a computation over the
table gives is what it gives when run on a valuation (`Valuation.Backs.value`).
-/

open Model

/-- Whether a table holds the answers of a valuation. -/
def Valuation.Backs (v : Valuation) (t : Table) : Prop := ∀ q, t q = .ok (v.answer q)

theorem Model.exists_backs {m : Model} {u : Assigned} (h : ∀ q, ∃ a, m.outcome u q = .ok a) :
    ∃ v : Valuation, v.Backs (m.outcome u) := by
  choose f hf using h
  have hconstant : ∀ q a, m.constant? q = some a → f q = a := fun q a hq =>
    ok.inj ((hf q).symm.trans ((balanced_outcome m u).constants q a hq))
  exact ⟨⟨f, hconstant _ _ rfl, hconstant _ _ rfl⟩, hf⟩

@[simp]
theorem Valuation.readers_model (v : Valuation) (m : Model) : (v.readers m).model = m := rfl

/-- The second computation gives the result of the first one from any note on being written, and
leaves the note `s` as it is. -/
def Link.mirrors (s : Option Bool) : Link Id PlainM where
  Rel x y := ∀ s₀, ∃ s₁, y s₀ = .ok (x, s₁) ∧ (s₀ = s → s₁ = s)
  pure _ s₀ := ⟨s₀, rfl, id⟩
  bind hx hf s₀ := by
    obtain ⟨s₁, hx, hs₁⟩ := hx s₀
    obtain ⟨s₂, hf, hs₂⟩ := hf _ s₁
    exact ⟨s₂, (bind_of_ok hx).trans hf, fun hs => hs₂ (hs₁ hs)⟩

theorem Link.mirrors_apply {α : Type} {s : Option Bool} {x : Id α} {y : PlainM α}
    (h : (mirrors s).Rel x y) : y s = .ok (x, s) := by
  obtain ⟨s₁, hy, hs⟩ := h s
  rw [hy, hs rfl]

namespace Valuation.Backs

variable {v : Valuation} {m : Model} {u : Assigned} {t : Table} {warns : Bool} (h : v.Backs t)

include h

theorem ask (q : Query) (s : Option Bool) : (plain m u warns t).ask q s = .ok (v.answer q, s) :=
  plain_ask_eq_ok.2 ⟨h q, rfl⟩

theorem linked (s : Option Bool) : Linked (Link.mirrors s) m (fun _ => True) (fun _ => False)
    (fun b => some b = s) True (v.readers m) (plain m u warns t) where
  left := rfl
  right := rfl
  ask q _ s₀ := ⟨s₀, h.ask q s₀, id⟩
  user _ := nofun
  userMode _ := nofun
  userSelection _ := nofun
  setWritten b hb _ := ⟨some b, rfl, fun _ => hb⟩
  warn x y hxy s₀ := by
    obtain ⟨s₁, hy, -⟩ := hxy trivial none
    refine ⟨s₀, ?_, id⟩
    cases warns with
    | false => rfl
    | true => exact lift_eq_ok.2 ⟨by rw [StateT.run', hy]; rfl, rfl⟩

theorem value (e : Expr) (s : Option Bool) : (plain m u warns t).value e s = .ok (v.value m e, s) :=
  Link.mirrors_apply ((h.linked s).value fun _ _ => trivial)

theorem impliedValue (i : SymbolId) : (plain m u warns t).impliedValue i (some true) =
    .ok ((v.readers m).impliedValue i, some true) :=
  Link.mirrors_apply ((h.linked (some true)).impliedValue rfl (fun _ _ _ _ => trivial)
    (fun _ _ => trivial) fun _ _ => trivial)

theorem activeDefault (ds : List (Expr × Expr)) (s : Option Bool) :
    (plain m u warns t).activeDefault ds s = .ok ((v.readers m).activeDefault ds, s) :=
  Link.mirrors_apply ((h.linked s).activeDefault fun _ _ _ _ => trivial)

end Valuation.Backs

end Buildsmith.Kconfig
