import Buildsmith.Proofs.Evaluation.Giving

/-!
# Visible symbols

A visible symbol is written, and its value is one that its kind allows.  Without modules, what is
visible has visibility `y`, and a visible choice that must have a value has mode `y`.
-/

namespace Buildsmith.Kconfig

open SymbolId

open Readers (plain_model plain widened)
open PlainM (bind_ok_iff)

namespace Model

variable {m : Model} {u : Assigned} {t : Table} {i : SymbolId} {c : ChoiceId} {vis : Tristate}

/-! ## Being written -/

theorem Balanced.choiceEntries_of_visible (ht : m.Balanced u t)
    (hvis : t (.choiceVisibility c) = .ok vis) (hne : vis ≠ .no) : (m.choice c).entries ≠ [] := by
  intro hentries
  obtain ⟨w, hinfer⟩ := ht.rule _ _ hvis rfl
  obtain ⟨x, s, hx, hrest⟩ := bind_ok_iff.1 hinfer
  simp only [plain_model, hentries] at hx
  cases hx
  cases hrest
  exact hne rfl

theorem Balanced.entries_of_visible (ht : m.Balanced u t) (hvis : t (.visibility i) = .ok vis)
    (hne : vis ≠ .no) : (m.symbol i).entries ≠ [] := by
  intro hentries
  obtain ⟨w, hinfer⟩ := ht.rule _ _ hvis rfl
  exact hne (visibility_eq_no hinfer (by rw [hentries]; rfl))

theorem written_tristate_of_visible (hl : (m.symbol i).kind.isLogical)
    (hvis : t (.visibility i) = .ok vis) (hne : vis ≠ .no) {r : Tristate × Option Bool}
    (h : m.infer u true t (.tristate i) = .ok r) : r.2 = some true := by
  have hshown : decide (vis ≠ .no) := decide_eq_true hne
  rw [infer_tristate_eq hl hvis, hshown] at h
  cases hc : (m.symbol i).choice with
  | some c =>
    rw [hc] at h
    exact linked_sameWritten.memberValue trivial trivial vis _ _ rfl h
  | none =>
    rw [hc] at h
    exact linked_sameWritten.plainValue rfl (fun _ _ => trivial) (fun hf => hf.elim) trivial vis _ _
      rfl h

theorem written_text_of_visible (hl : (m.symbol i).kind.isLogical = false)
    (hk : (m.symbol i).kind ≠ .unknown) (hvis : t (.visibility i) = .ok vis) (hne : vis ≠ .no)
    {r : String × Option Bool} (h : m.infer u true t (.text i) = .ok r) :
    r.2 = some !m.isLeftOut i := by
  have hshown : decide (vis ≠ .no) := decide_eq_true hne
  rw [infer_text_eq hl hk hvis, hshown] at h
  obtain ⟨x, s, hx, hrest⟩ := bind_ok_iff.1 h
  cases written_plainText hx
  cases hout : m.isLeftOut i with
  | true | false =>
    rw [hout] at hrest
    cases hrest
    rfl

theorem writes_of_visible (hi : yes < i) (hk : (m.symbol i).kind ≠ .unknown) {a : String}
    (hvis : m.outcome u (.visibility i) = .ok vis) (hne : vis ≠ .no)
    (ha : m.outcome u (.text i) = .ok a) :
    m.writes u i = ((m.symbol i).kind.isLogical || !m.isLeftOut i) := by
  have hn : m.asksNothing (.text i) = false := by
    have hlt : ¬i ≤ yes := Nat.not_le.2 hi
    simp [asksNothing, hk, hlt]
  obtain ⟨q, hitem, htells, hconstant, ⟨b, hb⟩, -, hwrites⟩ := exists_tells hn ha
  obtain ⟨w, hw⟩ := (balanced_outcome m u).rule q b hb hconstant
  rw [hwrites, hw]
  cases q with
  | tristate j =>
    cases hitem
    have hl : (m.symbol i).kind.isLogical := htells
    have hwritten : w = some true := written_tristate_of_visible hl hvis hne hw
    rw [hwritten, hl]
    rfl
  | text j =>
    cases hitem
    have hl : (m.symbol i).kind.isLogical = false := htells.1
    have hwritten : w = some !m.isLeftOut i := written_text_of_visible hl hk hvis hne hw
    rw [hwritten, hl]
    rfl
  | _ => exact htells.elim

theorem kind_of_writes (h : m.writes u i) : (m.symbol i).kind ≠ .unknown := by
  intro hk
  simp [writes, asksNothing, hk] at h

/-! ## Kinds -/

/-- Whether a symbol has only two values: it is no tristate, or there are no modules. -/
def IsTwoValued (m : Model) (t : Table) (i : SymbolId) : Prop :=
  (m.symbol i).kind ≠ .tristate ∨ t (.tristate SymbolId.modules) = .ok .no

section

variable {k : Kind} {s s' : Option Bool} (hoff : t (.tristate modules) = .ok .no)

include hoff

theorem tristateKind_of_off (h : (plain m u true t).tristateKind s = .ok (k, s')) : k = .bool := by
  obtain ⟨x, hx, hrest⟩ := Readers.ask_bind_eq_ok.1 h
  cases hx.symm.trans hoff
  cases hrest
  rfl

theorem choiceKind_eq_bool (hkind : (m.choice c).kind.isLogical) (s : Option Bool) :
    (plain m u true t).choiceKind c s = .ok (.bool, s) := by
  by_cases htristate : (m.choice c).kind = .tristate
  · have hchoice : (plain m u true t).choiceKind c =
        (plain m u true t).tristateKind := if_pos htristate
    have hask : (plain m u true t).tristate modules s = .ok (.no, s) :=
      Readers.plain_ask_eq_ok.2 ⟨hoff, rfl⟩
    rw [hchoice, Readers.tristateKind, PlainM.bind_of_ok hask]
    rfl
  · apply choiceKind_of_bool
    cases hcases : (m.choice c).kind <;> simp_all [Kind.isLogical]

theorem choiceKind_ne_tristate (h : (plain m u true t).choiceKind c s = .ok (k, s')) :
    k ≠ .tristate := by
  by_cases htristate : (m.choice c).kind = .tristate
  · cases (choiceKind_eq_bool hoff (by rw [htristate]; rfl) s).symm.trans h
    exact nofun
  · have hkind : (plain m u true t).choiceKind c = pure (m.choice c).kind := if_neg htristate
    rw [hkind] at h
    cases h
    exact htristate

omit hoff in
theorem IsTwoValued.kind (h : m.IsTwoValued t i) (hk : (plain m u true t).kind i s = .ok (k, s')) :
    k ≠ .tristate ∧ ((m.symbol i).kind.isLogical → k = .bool) := by
  by_cases htristate : (m.symbol i).kind = .tristate
  · have hoff := h.resolve_left (not_not.2 htristate)
    simp only [Readers.kind, plain_model, htristate, if_true] at hk
    have hbool : k = .bool := by
      cases hc : (m.symbol i).choice with
      | none =>
        rw [hc] at hk
        exact tristateKind_of_off hoff hk
      | some c =>
        rw [hc] at hk
        obtain ⟨mode, s₁, -, hk⟩ := bind_ok_iff.1 hk
        split at hk
        · cases hk
          rfl
        · exact tristateKind_of_off hoff hk
    rw [hbool]
    exact ⟨by simp, fun _ => rfl⟩
  · have hkind : (plain m u true t).kind i = pure (m.symbol i).kind := if_neg htristate
    rw [hkind] at hk
    cases hk
    refine ⟨htristate, fun hl => ?_⟩
    cases hcases : (m.symbol i).kind <;> simp_all [Kind.isLogical]

omit hoff in
theorem widened_ne_mod
    {kind : PlainM Kind} (hkind : ∀ k s s', kind s = .ok (k, s') → k ≠ .tristate) {x : Tristate}
    (h : widened kind x s = .ok (vis, s')) : vis ≠ .mod := by
  unfold widened at h
  split at h
  · obtain ⟨k, s₁, hk, hrest⟩ := bind_ok_iff.1 h
    rw [if_pos (hkind k _ _ hk)] at hrest
    cases hrest
    exact nofun
  · rename_i hx
    cases h
    exact hx

end

theorem Balanced.visibility_ne_mod (ht : m.Balanced u t)
    (hkind : ∀ k s s', (plain m u true t).kind i s = .ok (k, s') → k ≠ .tristate)
    (hvis : t (.visibility i) = .ok vis) : vis ≠ .mod := by
  obtain ⟨w, hinfer⟩ := ht.rule _ _ hvis rfl
  obtain ⟨x, s, -, hno | ⟨s', hwidened⟩⟩ := visibility_cases hinfer
  · rintro rfl
    cases hno
  · exact widened_ne_mod hkind hwidened

theorem Balanced.tristate_ne_mod
    (ht : m.Balanced u t) (hi : yes < i) (hl : (m.symbol i).kind.isLogical)
    (h : m.IsTwoValued t i) {x : Tristate} (hx : t (.tristate i) = .ok x) : x ≠ .mod := by
  obtain ⟨w, hinfer⟩ := ht.rule _ _ hx (by simpa [asksConstant] using hi)
  obtain ⟨vis, hvis⟩ := tristate_asks_visibility hl hinfer
  have hne := ht.visibility_ne_mod (fun _ _ _ hk => (h.kind hk).1) hvis
  rw [infer_tristate_eq hl hvis] at hinfer
  cases hc : (m.symbol i).choice with
  | none =>
    rw [hc] at hinfer
    obtain ⟨val, s₁, -, hrest⟩ := bind_ok_iff.1 hinfer
    obtain ⟨raised, s₂, -, hrest⟩ := bind_ok_iff.1 hrest
    split at hrest
    · obtain ⟨b, s₃, hb, hrest⟩ := bind_ok_iff.1 hrest
      obtain ⟨k, s₄, hk, hb⟩ := bind_ok_iff.1 hb
      rw [if_pos ((h.kind hk).2 hl)] at hb
      cases hb
      cases hrest
      simp
    · rename_i hmod
      cases hrest
      exact hmod
  | some c =>
    rw [hc] at hinfer
    cases vis with
    | no =>
      cases hinfer
      simp
    | mod => exact absurd rfl hne
    | yes =>
      obtain ⟨a, s₁, -, hrest⟩ := bind_ok_iff.1 hinfer
      split at hrest <;> cases hrest <;> simp

/-! ## Choices without modules -/

theorem Balanced.choiceVisibility_ne_mod
    (ht : m.Balanced u t) (hoff : t (.tristate modules) = .ok .no)
    (hvis : t (.choiceVisibility c) = .ok vis) : vis ≠ .mod := by
  obtain ⟨w, hinfer⟩ := ht.rule _ _ hvis rfl
  obtain ⟨x, s, -, hrest⟩ := bind_ok_iff.1 hinfer
  exact widened_ne_mod (fun k s s' hk => choiceKind_ne_tristate hoff hk) hrest

theorem Balanced.mode_eq_yes (ht : m.Balanced u t) (hoff : t (.tristate modules) = .ok .no)
    (hkind : (m.choice c).kind.isLogical) (hoptional : (m.choice c).isOptional = false)
    (hvis : t (.choiceVisibility c) = .ok vis) (hne : vis ≠ .no) {x : Tristate}
    (hx : t (.mode c) = .ok x) : x = .yes := by
  have hyes : vis = .yes := by
    have hmod := ht.choiceVisibility_ne_mod hoff hvis
    cases vis <;> simp_all
  subst hyes
  obtain ⟨w, hinfer⟩ := ht.rule _ _ hx rfl
  rw [infer_mode_eq hvis] at hinfer
  dsimp only at hinfer
  have hwanted := Choice.wantedMode_ne_no hoptional (u.mode c)
  split at hinfer
  · obtain ⟨k, s, hk, hrest⟩ := bind_ok_iff.1 hinfer
    cases (choiceKind_eq_bool hoff hkind _).symm.trans hk
    cases hrest
    rfl
  · rename_i hmod
    cases hinfer
    generalize (m.choice c).wantedMode (u.mode c) = wanted at *
    cases wanted with
    | no => exact absurd rfl hwanted
    | mod => exact absurd rfl hmod
    | yes => rfl

end Model

end Buildsmith.Kconfig
