import Buildsmith.Proofs.Evaluation.Link
import Mathlib.Tactic.Choose

/-!
# What values mean

A table gives the outcomes of queries.  Over a table a rule is evaluated without any state to be
remembered (`Model.infer`), and more entries in the table never change what it gives.

`Model.Means` is the meaning of queries: what follows from the rules in finitely many steps.  It is
relative to a set of items, and a step may ask only about items in the set, or what can be told
without them.  Some answers are fixed by the model alone (`Model.fixed?`).  Every query means at
most one answer.
-/

namespace Buildsmith.Kconfig

open Readers Option

open SymbolId (yes mod)
open StateT (lift run' run)

structure Assigned where
  user : SymbolId → Option UserValue
  mode : ChoiceId → Option Tristate
  selection : ChoiceId → Option SymbolId

def Assigned.AgreesAt (u u' : Assigned) : Item → Prop
  | .symbol i => u.user i = u'.user i
  | .choice c => u.mode c = u'.mode c ∧ u.selection c = u'.selection c

theorem Assigned.AgreesAt.refl (u : Assigned) (x : Item) : u.AgreesAt u x := by
  cases x with
  | symbol i => exact rfl
  | choice c => exact ⟨rfl, rfl⟩

/-- The query for the visibility of an item; its answer makes the item known. -/
def Item.visibility : Item → Query
  | .symbol i => .visibility i
  | .choice c => .choiceVisibility c

abbrev Table := (q : Query) → Except Fault q.Answer

def Table.orElse (t t' : Table) : Table := fun q =>
  match t q with
  | .ok a => .ok a
  | .error _ => t' q

/-- Evaluation over a table; a rule may say whether its symbol is written. -/
abbrev PlainM := StateT (Option Bool) (Except Fault)

/-- Reads from a table.  Warnings are composed only if `warns` holds, and then dropped. -/
def Readers.plain (m : Model) (u : Assigned) (warns : Bool) (t : Table) : Readers PlainM where
  model := m
  ask q := lift (t q)
  user i := pure (u.user i)
  userMode c := pure (u.mode c)
  userSelection c := pure (u.selection c)
  setWritten b := set (some b)
  warn text := if warns then lift (discard (text.run' none)) else pure ()

/-- What the rule behind a query gives over a table. -/
def Model.infer (m : Model) (u : Assigned) (warns : Bool) (t : Table) (q : Query) :
    Except Fault (q.Answer × Option Bool) :=
  ((Readers.plain m u warns t).answer q).run none

namespace PlainM

variable {α β : Type} {x : PlainM α} {f : α → PlainM β} {s : Option Bool}

@[simp]
theorem pure_apply (a : α) : (pure a : PlainM α) s = .ok (a, s) := rfl

theorem bind_apply : (x >>= f) s = (x s >>= fun p => f p.1 p.2) := rfl

variable {s' : Option Bool}

theorem bind_of_ok {a : α} (h : x s = .ok (a, s')) : (x >>= f) s = f a s' := by
  rw [bind_apply, h]
  rfl

@[simp]
theorem bind_ok_iff {p : β × Option Bool} :
    (x >>= f) s = .ok p ↔ ∃ a s', x s = .ok (a, s') ∧ f a s' = .ok p := by
  rw [bind_apply]
  cases hx : x s with
  | error e => simp [bind, Except.bind]
  | ok r =>
    obtain ⟨a, s'⟩ := r
    constructor
    · exact fun h => ⟨a, s', rfl, h⟩
    · rintro ⟨_, _, ⟨⟩, h⟩
      exact h

@[simp]
theorem lift_eq_ok {y : Except Fault α} {a : α} :
    (lift y : PlainM α) s = .ok (a, s') ↔ y = .ok a ∧ s' = s := by
  cases y with
  | error e => simp [lift, bind, Except.bind]
  | ok b => simp [lift, bind, Except.bind, pure, Except.pure, eq_comm]

@[simp]
theorem throw_apply (e : Fault) : (throw e : PlainM α) s = .error e := rfl

end PlainM

open PlainM (bind_ok_iff)

namespace Readers

variable {m : Model} {u : Assigned} {warns : Bool} {t : Table} {s : Option Bool}

@[simp]
theorem plain_model : (plain m u warns t).model = m := rfl

variable {q : Query} {α : Type}

@[simp]
theorem plain_ask_eq_ok {a : q.Answer} {s' : Option Bool} :
    (plain m u warns t).ask q s = .ok (a, s') ↔ t q = .ok a ∧ s' = s :=
  PlainM.lift_eq_ok

theorem ask_bind_eq_ok {f : q.Answer → PlainM α} {p : α × Option Bool} :
    ((plain m u warns t).ask q >>= f) s = .ok p ↔ ∃ a, t q = .ok a ∧ f a s = .ok p := by
  simp only [bind_ok_iff, plain_ask_eq_ok, and_assoc, exists_and_left, exists_eq_left]

theorem ask_bind_of_ok {a : q.Answer} (h : t q = .ok a)
    (f : q.Answer → PlainM α) : ((plain m u warns t).ask q >>= f) s = f a s := by
  rw [PlainM.bind_of_ok (plain_ask_eq_ok.2 ⟨h, rfl⟩)]

@[simp]
theorem plain_user (i : SymbolId) : (plain m u warns t).user i s = .ok (u.user i, s) := rfl

@[simp]
theorem plain_userMode (c : ChoiceId) : (plain m u warns t).userMode c s = .ok (u.mode c, s) := rfl

@[simp]
theorem plain_userSelection (c : ChoiceId) :
    (plain m u warns t).userSelection c s = .ok (u.selection c, s) := rfl

@[simp]
theorem plain_setWritten (b : Bool) : (plain m u warns t).setWritten b s = .ok ((), some b) := rfl

@[simp]
theorem plain_warn (x : PlainM String) : (plain m u false t).warn x s = .ok ((), s) := rfl

theorem eq_of_plain_warn {x : PlainM String} {p : Unit × Option Bool}
    (h : (plain m u warns t).warn x s = .ok p) : p = ((), s) := by
  cases warns with
  | false => exact (Except.ok.inj h).symm
  | true => exact Prod.ext rfl (PlainM.lift_eq_ok.1 h).2

end Readers

/-! ## Bigger tables -/

/-- The second computation gives at least what the first one gives. -/
def Link.gives : Link PlainM PlainM where
  Rel x y := ∀ s p, x s = .ok p → y s = .ok p
  pure _ _ _ h := h
  bind hx hf s p h := by
    rw [bind_ok_iff] at h ⊢
    obtain ⟨a, s', ha, hp⟩ := h
    exact ⟨a, s', hx _ _ ha, hf a _ _ hp⟩

instance : Link.gives.Faults := ⟨fun _ _ _ _ h => h⟩

namespace Model

variable {m : Model} {u u' : Assigned} {warns : Bool} {t t' : Table} {q : Query}

theorem linked_plain {S : Query → Prop} {U : Item → Prop} {W : Prop} {warns' : Bool}
    (hW : warns' → warns ∧ W) (hS : ∀ q, S q → ∀ a, t q = .ok a → t' q = .ok a)
    (hU : ∀ x, U x → u.AgreesAt u' x)
    (hs : ∀ c, U (.choice c) → ∀ i, u.selection c = some i → S (.visibility i)) :
    Linked Link.gives m S U (fun _ => True) W (.plain m u warns t) (.plain m u' warns' t') where
  left := rfl
  right := rfl
  ask q hq s p h := by
    obtain ⟨h, hs⟩ := plain_ask_eq_ok.1 h
    exact plain_ask_eq_ok.2 ⟨hS q hq _ h, hs⟩
  user i hi s p h := by
    have hu : u.user i = u'.user i := hU _ hi
    rwa [plain_user, hu] at h
  userMode c hc s p h := by
    have hu : u.mode c = u'.mode c := (hU _ hc).1
    rwa [plain_userMode, hu] at h
  userSelection c hc β f g hfg s p h := by
    have hu : u.selection c = u'.selection c := (hU _ hc).2
    have hg : g (u.selection c) s = .ok p := hfg _ (hs c hc) s p h
    rw [hu] at hg
    exact hg
  setWritten _ b s p h := h
  warn x y hxy s p h := by
    cases warns' with
    | false => rw [eq_of_plain_warn h, plain_warn]
    | true =>
      obtain ⟨rfl, hw⟩ := hW rfl
      cases hx : x none with
      | error e =>
        simp [plain, lift, run', hx, Functor.map, Except.map, Functor.discard,
          Functor.mapConst] at h
      | ok r =>
        have hy : y none = .ok r := hxy hw none r hx
        simp only [plain, run', hx, hy] at h ⊢
        exact h

variable {a : q.Answer} {r : q.Answer × Option Bool} {w : Option Bool} {i : SymbolId} {b : Bool}
  {c : ChoiceId} {p : Query}

theorem infer_mono (hask : ∀ p ∈ m.mayAsk q, ∀ a, t p = .ok a → t' p = .ok a)
    (hsel : ∀ c, q.item = .choice c → ∀ i, u.selection c = some i →
      ∀ a, t (.visibility i) = .ok a → t' (.visibility i) = .ok a) (hu : u.AgreesAt u' q.item)
    (h : m.infer u warns t q = .ok r) : m.infer u' false t' q = .ok r := by
  have hlinked : Linked Link.gives m (fun p => ∀ a, t p = .ok a → t' p = .ok a) (· = q.item)
      (fun _ => True) False (.plain m u warns t) (.plain m u' false t') :=
    linked_plain (fun h => absurd h Bool.false_ne_true) (fun _ h => h) (fun x hx => hx ▸ hu)
      fun c hc => hsel c hc.symm
  exact hlinked.answer hask rfl (fun _ _ => trivial) (fun hf => hf.elim) none r h

/-! ## The rules for symbols -/

/-- Whether a text never appears in configuration files: that of a symbol bound to a variable of the
environment, and of the one that lists default configurations. -/
def isLeftOut (m : Model) (i : SymbolId) : Bool :=
  (m.symbol i).envVar.isSome || m.defconfigList = some (.symbol i)

section Rules

variable {i : SymbolId} {r : Tristate × Option Bool} {vis : Tristate} {c : ChoiceId}

theorem tristate_asks_visibility (hl : (m.symbol i).kind.isLogical)
    (h : m.infer u warns t (.tristate i) = .ok r) : ∃ vis, t (.visibility i) = .ok vis := by
  simp only [infer, answer, freshTristate, plain_model, hl] at h
  exact (ask_bind_eq_ok.1 h).imp fun _ => And.left

theorem infer_tristate_eq (hl : (m.symbol i).kind.isLogical) (hvis : t (.visibility i) = .ok vis) :
    m.infer u warns t (.tristate i) = (match (m.symbol i).choice with
        | none => (plain m u warns t).plainValue i vis
        | some c => (plain m u warns t).memberValue i c vis)
      (some (decide (vis ≠ Tristate.no))) := by
  simp only [infer, answer, freshTristate, plain_model, hl, run,
    Bool.not_true, Bool.false_eq_true, if_false]
  rw [ask_bind_of_ok hvis]
  rfl

theorem tristate_of_not_logical (hl : (m.symbol i).kind.isLogical = false)
    (h : m.infer u warns t (.tristate i) = .ok r) : r = (.no, none) := by
  have hl' : ((plain m u warns t).model.symbol i).kind.isLogical = false := hl
  simp only [infer, answer, freshTristate, hl', Bool.not_false, if_true] at h
  split at h
  · obtain ⟨_, s, hwarn, hrest⟩ := bind_ok_iff.1 h
    cases eq_of_plain_warn hwarn
    cases hrest
    rfl
  · cases h
    rfl

theorem infer_text_of_logical (hl : (m.symbol i).kind.isLogical) {r : String × Option Bool} :
    m.infer u warns t (.text i) = .ok r ↔
      ∃ x : Tristate, t (.tristate i) = .ok x ∧ r = (x.letter, none) := by
  simp only [infer, answer, freshText, plain_model, hl, if_true, run]
  rw [ask_bind_eq_ok]
  exact exists_congr fun x => and_congr_right fun _ =>
    ⟨fun h => (Except.ok.inj h).symm, fun h => congrArg Except.ok h.symm⟩

theorem infer_text_of_unknown (hk : (m.symbol i).kind = .unknown) :
    m.infer u warns t (.text i) = .ok ((m.symbol i).name, none) := by
  simp only [infer, answer, freshText, plain_model, hk]
  rfl

theorem text_asks_visibility (hl : (m.symbol i).kind.isLogical = false)
    (hk : (m.symbol i).kind ≠ .unknown) {r : String × Option Bool}
    (h : m.infer u warns t (.text i) = .ok r) : ∃ vis, t (.visibility i) = .ok vis := by
  simp only [infer, answer, freshText, plain_model, hl, hk] at h
  exact (ask_bind_eq_ok.1 h).imp fun _ => And.left

theorem infer_text_eq (hl : (m.symbol i).kind.isLogical = false) (hk : (m.symbol i).kind ≠ .unknown)
    (hvis : t (.visibility i) = .ok vis) :
    m.infer u warns t (.text i) = (do
      let x ← (plain m u warns t).plainText i vis
      if m.isLeftOut i then (plain m u warns t).setWritten false
      return x : PlainM String) (some (decide (vis ≠ .no))) := by
  simp only [infer, answer, freshText, plain_model, hl, hk, run, Bool.false_eq_true, if_false]
  rw [ask_bind_of_ok hvis]
  rfl

theorem infer_assignable_of_not_logical (hl : (m.symbol i).kind.isLogical = false) :
    m.infer u warns t (.assignable i) = .ok ([], none) := by
  simp only [infer, answer, freshAssignable, plain_model, hl]
  rfl

theorem assignable_asks_visibility (hl : (m.symbol i).kind.isLogical)
    {r : List Tristate × Option Bool} (h : m.infer u warns t (.assignable i) = .ok r) :
    ∃ vis, t (.visibility i) = .ok vis := by
  simp only [infer, answer, freshAssignable, plain_model, hl] at h
  exact (ask_bind_eq_ok.1 h).imp fun _ => And.left

theorem infer_assignable_of_invisible (hvis : t (.visibility i) = .ok .no) :
    m.infer u warns t (.assignable i) = .ok ([], none) := by
  cases hl : (m.symbol i).kind.isLogical with
  | false => exact infer_assignable_of_not_logical hl
  | true =>
    simp only [infer, answer, freshAssignable, plain_model, hl]
    exact ask_bind_of_ok hvis _

theorem visibility_cases (h : m.infer u warns t (.visibility i) = .ok r) :
    ∃ x s, (plain m u warns t).promptValue (m.symbol i).entries .no none = .ok (x, s) ∧
      (r.1 = .no ∨ ∃ s', widened ((plain m u warns t).kind i) x s' = .ok r) := by
  obtain ⟨x, s, hx, hrest⟩ := bind_ok_iff.1 h
  refine ⟨x, s, hx, ?_⟩
  simp only [plain_model] at hrest
  cases hc : (m.symbol i).choice with
  | none =>
    rw [hc] at hrest
    exact .inr ⟨s, hrest⟩
  | some c =>
    rw [hc] at hrest
    obtain ⟨hidden, s', -, hrest⟩ := bind_ok_iff.1 hrest
    cases hidden with
    | true =>
      cases hrest
      exact .inl rfl
    | false => exact .inr ⟨s', hrest⟩

theorem visibility_eq_no {s : Option Bool} (h : m.infer u warns t (.visibility i) = .ok r)
    (hx : (plain m u warns t).promptValue (m.symbol i).entries .no none = .ok (.no, s)) :
    r.1 = .no := by
  obtain ⟨x, s', hx', hno | ⟨s'', hwidened⟩⟩ := visibility_cases h
  · exact hno
  · cases hx'.symm.trans hx
    cases hwidened
    rfl

theorem infer_selection_of_not_on {mode : Tristate} (hmode : t (.mode c) = .ok mode)
    (hon : mode ≠ .yes) : m.infer u warns t (.selection c) = .ok (none, none) := by
  refine (ask_bind_of_ok hmode _).trans ?_
  rw [if_pos hon]
  rfl

theorem infer_selection_of_on (hmode : t (.mode c) = .ok .yes) :
    m.infer u warns t (.selection c) = (match u.selection c with
        | some j => do
          if (← (plain m u warns t).visibility j) ≠ Tristate.no then return some j
          else (plain m u warns t).defaultSelection c
        | none => (plain m u warns t).defaultSelection c) none :=
  ask_bind_of_ok hmode _

end Rules

/-! ## Fixed answers -/

/-- Whether a query asks for the value of one of the constants, which no rule computes. -/
def asksConstant : Query → Bool
  | .tristate i => i ≤ yes
  | _ => false

/-- Whether a prompt of some entry has a condition that can hold. -/
def shows (m : Model) (ks : List EntryId) : Bool :=
  ks.any fun k => (m.entry k).prompt.any fun p => p.2 ≠ .no

/-- The value of a symbol that the model alone determines. -/
def fixedTristate? (m : Model) (i : SymbolId) : Option (Tristate × Option Bool) :=
  if i = SymbolId.no then some (.no, none)
  else if i = mod then some (.mod, none)
  else if i = yes then some (.yes, none)
  else if !(m.symbol i).kind.isLogical then some (.no, none)
  else if (m.symbol i).choice.isSome && !m.shows (m.symbol i).entries then some (.no, some false)
  else none

/-- The answer to a query, and whether the symbol is written, if the model alone determines it. -/
def fixed? (m : Model) : (q : Query) → Option (q.Answer × Option Bool)
  | .tristate i => m.fixedTristate? i
  | .text i =>
    if (m.symbol i).kind.isLogical then (m.fixedTristate? i).map fun a => (a.1.letter, none)
    else if (m.symbol i).kind = .unknown then some ((m.symbol i).name, none)
    else none
  | .visibility i => if m.shows (m.symbol i).entries then none else some (.no, none)
  | .assignable i =>
    if (m.symbol i).kind.isLogical && m.shows (m.symbol i).entries then none else some ([], none)
  | .mode c => if m.shows (m.choice c).entries then none else some (.no, none)
  | .choiceVisibility c => if m.shows (m.choice c).entries then none else some (.no, none)
  | .selection c => if m.shows (m.choice c).entries then none else some (none, none)
  | .choiceAssignable c => if m.shows (m.choice c).entries then none else some ([], none)

/-- A table that does not contradict the fixed answers. -/
def Respects (m : Model) (t : Table) : Prop :=
  ∀ q a, t q = .ok a → ∀ r, m.fixed? q = some r → r.1 = a

/-- The computation keeps a property of what is said of the symbol at hand being written. -/
def keepsWritten (P : Option Bool → Prop) : Link PlainM PlainM where
  Rel x _ := ∀ s p, P s → x s = .ok p → P p.2
  pure _ s p hs h := by
    cases h
    exact hs
  bind hx hf s p hs h := by
    obtain ⟨a, s', ha, hp⟩ := bind_ok_iff.1 h
    exact hf a s' p (hx s _ hs ha) hp

instance {P : Option Bool → Prop} : (keepsWritten P).Faults := ⟨fun _ _ _ _ _ h => by cases h⟩

theorem linked_keepsWritten (P : Option Bool → Prop) :
    Linked (keepsWritten P) m (fun _ => True) (fun _ => True) (fun b => P (some b)) False
      (.plain m u warns t) (.plain m u warns t) where
  left := rfl
  right := rfl
  ask q _ s p hs h := by
    rw [(plain_ask_eq_ok.1 h).2]
    exact hs
  user i _ s p hs h := by
    cases h
    exact hs
  userMode c _ s p hs h := by
    cases h
    exact hs
  userSelection c _ β f g hfg s p hs h := hfg _ (fun _ _ => trivial) s p hs h
  setWritten b hb s p _ h := by
    cases h
    exact hb
  warn x y _ s p hs h := by
    rw [eq_of_plain_warn h]
    exact hs

theorem linked_sameWritten {s : Option Bool} :
    Linked (keepsWritten (· = s)) m (fun _ => True) (fun _ => True) (fun b => some b = s) False
      (.plain m u warns t) (.plain m u warns t) :=
  linked_keepsWritten _

theorem infer_written_eq_none (hq : q.isValue = false)
    (h : m.infer u warns t q = .ok r) : r.2 = none :=
  linked_sameWritten.answer (fun _ _ => trivial) trivial (by simp [hq]) (fun hf => hf.elim)
    none r rfl h

section NotShown

variable (ht : m.Respects t) {i : SymbolId} {c : ChoiceId}

include ht

theorem promptValue_of_not_shows {ks : List EntryId} (hks : m.shows ks = false)
    {acc : Tristate} {s : Option Bool} {p : Tristate × Option Bool}
    (h : (plain m u warns t).promptValue ks acc s = .ok p) : p = (acc, s) := by
  induction ks generalizing acc s with
  | nil => exact (Except.ok.inj h).symm
  | cons k ks ih =>
    simp only [shows, List.any_cons, Bool.or_eq_false_iff] at hks
    have hrest := @ih hks.2
    simp only [promptValue, plain_model] at h
    cases hp : (m.entry k).prompt with
    | none =>
      rw [hp] at h
      exact hrest h
    | some c =>
      have hc : c.2 = .no := by simpa [hp] using hks.1
      rw [hp] at h
      obtain ⟨x, s', hx, hks'⟩ := bind_ok_iff.1 h
      rw [hc] at hx
      obtain ⟨hentry, rfl⟩ := plain_ask_eq_ok.1 hx
      have hno : x = Tristate.no := (ht (.tristate SymbolId.no) x hentry (.no, none) rfl).symm
      have hmax : max acc x = acc := by
        subst hno
        cases acc <;> rfl
      rw [hmax] at hks'
      exact hrest hks'

section Symbols

variable (hi : m.shows (m.symbol i).entries = false)

include hi

variable {r : Tristate × Option Bool}

theorem visibility_of_not_shows (h : m.infer u warns t (.visibility i) = .ok r) : r.1 = .no := by
  obtain ⟨vis, s, hvis, -⟩ := visibility_cases h
  cases promptValue_of_not_shows ht hi hvis
  exact visibility_eq_no h hvis

theorem Respects.eq_no_of_not_shows {vis : Tristate} (h : t (.visibility i) = .ok vis) :
    vis = .no :=
  (ht (.visibility i) vis h (.no, none) (by simp [fixed?, hi])).symm

theorem tristate_of_hidden_member
    (hl : (m.symbol i).kind.isLogical) (hc : (m.symbol i).choice = some c)
    (h : m.infer u warns t (.tristate i) = .ok r) : r = (.no, some false) := by
  obtain ⟨vis, hvis⟩ := tristate_asks_visibility hl h
  cases ht.eq_no_of_not_shows hi hvis
  rw [infer_tristate_eq hl hvis, hc] at h
  cases h
  rfl

end Symbols

variable {r : List Tristate × Option Bool}

theorem assignable_of_not_shows
    (hi : ((m.symbol i).kind.isLogical && m.shows (m.symbol i).entries) = false)
    (h : m.infer u warns t (.assignable i) = .ok r) : r.1 = [] := by
  cases hl : (m.symbol i).kind.isLogical with
  | false =>
    cases (infer_assignable_of_not_logical hl).symm.trans h
    rfl
  | true =>
    obtain ⟨vis, hvis⟩ := assignable_asks_visibility hl h
    rw [hl] at hi
    cases ht.eq_no_of_not_shows hi hvis
    cases (infer_assignable_of_invisible hvis).symm.trans h
    rfl

variable (hc : m.shows (m.choice c).entries = false)

include hc

theorem choiceVisibility_of_not_shows {r : Tristate × Option Bool}
    (h : m.infer u warns t (.choiceVisibility c) = .ok r) : r.1 = .no := by
  obtain ⟨vis, s, hvis, hrest⟩ := bind_ok_iff.1 h
  cases promptValue_of_not_shows ht hc hvis
  cases hrest
  rfl

theorem Respects.choice_eq_no_of_not_shows {vis : Tristate} (h : t (.choiceVisibility c) = .ok vis) :
    vis = .no :=
  (ht (.choiceVisibility c) vis h (.no, none) (by simp [fixed?, hc])).symm

theorem mode_of_not_shows {r : Tristate × Option Bool} (h : m.infer u warns t (.mode c) = .ok r) :
    r.1 = .no := by
  obtain ⟨user, s, -, hrest⟩ := bind_ok_iff.1 h
  obtain ⟨vis, hentry, hrest⟩ := ask_bind_eq_ok.1 hrest
  cases ht.choice_eq_no_of_not_shows hc hentry
  have hmin : ∀ a : Tristate, min a .no = .no := by
    intro a
    cases a <;> rfl
  simp only [hmin] at hrest
  cases hrest
  rfl

theorem selection_of_not_shows {r : Option SymbolId × Option Bool}
    (h : m.infer u warns t (.selection c) = .ok r) : r.1 = none := by
  obtain ⟨mode, hentry, hrest⟩ := ask_bind_eq_ok.1 h
  have hno : Tristate.no = mode := ht (.mode c) mode hentry (.no, none) (by simp [fixed?, hc])
  subst hno
  cases hrest
  rfl

theorem choiceAssignable_of_not_shows (h : m.infer u warns t (.choiceAssignable c) = .ok r) :
    r.1 = [] := by
  obtain ⟨vis, hentry, hrest⟩ := ask_bind_eq_ok.1 h
  cases ht.choice_eq_no_of_not_shows hc hentry
  cases hrest
  rfl

end NotShown

theorem fixedTristate?_eq_some (hi : yes < i) {r : Tristate × Option Bool}
    (h : m.fixedTristate? i = some r) : ((m.symbol i).kind.isLogical = false ∧ r = (.no, none)) ∨
      ((m.symbol i).kind.isLogical ∧ (∃ c, (m.symbol i).choice = some c) ∧
        m.shows (m.symbol i).entries = false ∧ r = (.no, some false)) := by
  have hno : i ≠ SymbolId.no := Nat.ne_of_gt (Nat.lt_trans (by decide) hi)
  have hmod : i ≠ mod := Nat.ne_of_gt (Nat.lt_trans (by decide) hi)
  have hyes : i ≠ yes := Nat.ne_of_gt hi
  rw [fixedTristate?, if_neg hno, if_neg hmod, if_neg hyes] at h
  cases hl : (m.symbol i).kind.isLogical with
  | false =>
    rw [hl] at h
    exact .inl ⟨rfl, (some.inj h).symm⟩
  | true =>
    simp only [hl, Bool.not_true, Bool.false_eq_true, if_false] at h
    split at h
    · rename_i hhidden
      simp only [Bool.and_eq_true, isSome_iff_exists, Bool.not_eq_true'] at hhidden
      exact .inr ⟨rfl, hhidden.1, hhidden.2, (some.inj h).symm⟩
    · cases h

theorem text_of_fixed (ht : m.Respects t) {f : String × Option Bool}
    (hf : m.fixed? (.text i) = some f)
    {r : String × Option Bool} (h : m.infer u warns t (.text i) = .ok r) : r = f := by
  cases hl : (m.symbol i).kind.isLogical with
  | true =>
    obtain ⟨x, hx, rfl⟩ := (infer_text_of_logical hl).1 h
    simp only [fixed?, hl, if_true, map_eq_some_iff] at hf
    obtain ⟨a, ha, rfl⟩ := hf
    have hax : a.1 = x := ht (.tristate i) x hx a ha
    rw [hax]
  | false =>
    simp only [fixed?, hl, Bool.false_eq_true, if_false] at hf
    split at hf
    · rename_i hk
      cases (infer_text_of_unknown hk).symm.trans h
      exact some.inj hf
    · cases hf

theorem eq_of_not_shows {α : Type} {a : α} {r f : α × Option Bool}
    (hf : (if b then none else some (a, none)) = some f)
    (ha : b = false → r.1 = a) (hw : r.2 = none) : r = f := by
  cases b with
  | true => cases hf
  | false =>
    cases hf
    exact Prod.ext (ha rfl) hw

theorem infer_eq_fixed (ht : m.Respects t) (hq : asksConstant q = false)
    {f : q.Answer × Option Bool} (hf : m.fixed? q = some f)
    (h : m.infer u warns t q = .ok r) : r = f := by
  cases q with
  | tristate i =>
    have hi : yes < i := by simpa [asksConstant] using hq
    obtain ⟨hl, rfl⟩ | ⟨hl, ⟨c, hc⟩, hs, rfl⟩ := fixedTristate?_eq_some hi hf
    · exact tristate_of_not_logical hl h
    · exact tristate_of_hidden_member ht hs hl hc h
  | text i => exact text_of_fixed ht hf h
  | visibility i =>
    exact eq_of_not_shows hf (visibility_of_not_shows ht · h) (infer_written_eq_none rfl h)
  | assignable i =>
    exact eq_of_not_shows hf (assignable_of_not_shows ht · h) (infer_written_eq_none rfl h)
  | mode c => exact eq_of_not_shows hf (mode_of_not_shows ht · h) (infer_written_eq_none rfl h)
  | choiceVisibility c =>
    exact eq_of_not_shows hf (choiceVisibility_of_not_shows ht · h) (infer_written_eq_none rfl h)
  | selection c =>
    exact eq_of_not_shows hf (selection_of_not_shows ht · h) (infer_written_eq_none rfl h)
  | choiceAssignable c =>
    exact eq_of_not_shows hf (choiceAssignable_of_not_shows ht · h) (infer_written_eq_none rfl h)

/-! ## Meaning -/

def Has (m : Model) : Item → Prop
  | .symbol i => i < m.symbols.size
  | .choice c => c < m.choices.size

/-- Whether the answer to a query is found without asking about its item. -/
def asksNothing (m : Model) : Query → Bool
  | .tristate i => i ≤ yes || !(m.symbol i).kind.isLogical
  | .text i => (m.symbol i).kind = .unknown || ((m.symbol i).kind.isLogical && i ≤ yes)
  | .assignable i => !(m.symbol i).kind.isLogical
  | _ => false

/-- Whether a query may be asked when the items in `K` are known.  A query that asks nothing of its
item, or whose item does not exist, may be asked at any time. -/
def Open (m : Model) (K : Item → Prop) (q : Query) : Prop :=
  K q.item ∨ ¬m.Has q.item ∨ m.asksNothing q

/-- What a query means: an answer, and whether the symbol is written.  Each step of the derivation
asks only queries that are open for `K`. -/
inductive Means (m : Model) (u : Assigned) (K : Item → Prop) :
    (q : Query) → q.Answer → Option Bool → Prop
  | fixed {q : Query} {a : q.Answer} {w : Option Bool} :
    m.fixed? q = some (a, w) → Means m u K q a w
  | rule {q : Query} {a : q.Answer} {w : Option Bool} (t : Table) (ws : Query → Option Bool) :
    m.fixed? q = none → (∀ p b, t p = .ok b → m.Open K p) →
    (∀ p b, t p = .ok b → Means m u K p b (ws p)) →
    m.infer u false t q = .ok (a, w) → Means m u K q a w

variable {K K' : Item → Prop}

theorem Open.mono (hK : ∀ x, K x → K' x) (h : m.Open K q) : m.Open K' q :=
  h.imp_left (hK _)

theorem Means.mono (hK : ∀ x, K x → K' x) (h : m.Means u K q a w) : m.Means u K' q a w := by
  induction h with
  | fixed hf => exact .fixed hf
  | rule t ws hf hopen _ hinfer ih =>
    exact .rule t ws hf (fun p b hp => (hopen p b hp).mono hK) ih hinfer

theorem Means.unique {a' : q.Answer} {w' : Option Bool}
    (h : m.Means u K q a w) (h' : m.Means u K' q a' w') : a = a' ∧ w = w' := by
  induction h generalizing w' with
  | fixed hf =>
    cases h' with
    | fixed hf' => exact Prod.mk.inj (some.inj (hf.symm.trans hf'))
    | rule _ _ hf' => cases hf.symm.trans hf'
  | @rule q a w t ws hf _ hmeans hinfer ih =>
    cases h' with
    | fixed hf' => cases hf.symm.trans hf'
    | rule t' ws' _ _ hmeans' hinfer' =>
      -- the two tables agree where both have an entry, so that one table extends both
      have hleft : ∀ p b, t p = .ok b → t.orElse t' p = .ok b := by
        intro p b hp
        simp only [Table.orElse, hp]
      have hright : ∀ p b, t' p = .ok b → t.orElse t' p = .ok b := by
        intro p b hp
        cases hp' : t p with
        | error e => simp only [Table.orElse, hp', hp]
        | ok b' =>
          have hb : b' = b := (ih p b' hp' (hmeans' p b hp)).1
          simp only [Table.orElse, hp', hb]
      have h₁ := infer_mono (fun p _ => hleft p) (fun _ _ i _ => hleft _) (.refl u _) hinfer
      have h₂ := infer_mono (fun p _ => hright p) (fun _ _ i _ => hright _) (.refl u _) hinfer'
      exact Prod.mk.inj (Except.ok.inj (h₁.symm.trans h₂))

open Classical in
/-- The table of all that is meant by open queries. -/
noncomputable def settled (m : Model) (u : Assigned) (K : Item → Prop) : Table := fun q =>
  if h : m.Open K q ∧ ∃ a w, m.Means u K q a w then .ok h.2.choose else .error .unbounded

theorem settled_eq_ok : m.settled u K q = .ok a ↔ m.Open K q ∧ ∃ w, m.Means u K q a w := by
  unfold settled
  constructor
  · intro h
    split at h
    · rename_i hq
      obtain ⟨w, hw⟩ := hq.2.choose_spec
      cases h
      exact ⟨hq.1, w, hw⟩
    · cases h
  · rintro ⟨hopen, w, hw⟩
    have hq : m.Open K q ∧ ∃ a w, m.Means u K q a w := ⟨hopen, a, w, hw⟩
    obtain ⟨w', hw'⟩ := hq.2.choose_spec
    rw [dif_pos hq, (hw'.unique hw).1]

theorem Means.eq_fixed (h : m.Means u K q a w)
    {f : q.Answer × Option Bool} (hf : m.fixed? q = some f) : f = (a, w) := by
  cases h with
  | fixed hf' => exact some.inj (hf.symm.trans hf')
  | rule _ _ hf' => cases hf.symm.trans hf'

theorem respects_settled : m.Respects (m.settled u K) := by
  intro q a h f hf
  obtain ⟨_, w, hw⟩ := settled_eq_ok.1 h
  rw [hw.eq_fixed hf]

theorem Means.of_infer (hq : asksConstant q = false)
    (h : m.infer u warns (m.settled u K) q = .ok (a, w)) : m.Means u K q a w := by
  cases hf : m.fixed? q with
  | some f =>
    have hfixed := infer_eq_fixed respects_settled hq hf h
    exact .fixed (hf.trans (congrArg some hfixed.symm))
  | none =>
    have hmeans : ∀ p, ∃ w, ∀ b, m.settled u K p = .ok b → m.Means u K p b w := by
      intro p
      cases hp : m.settled u K p with
      | error e => exact ⟨none, fun b hb => by cases hb⟩
      | ok b =>
        obtain ⟨_, w, hw⟩ := settled_eq_ok.1 hp
        exact ⟨w, fun b' hb => by cases hb; exact hw⟩
    choose ws hws using hmeans
    exact .rule _ ws hf (fun p b hp => (settled_eq_ok.1 hp).1) hws
      (infer_mono (fun _ _ _ hp => hp) (fun _ _ _ _ _ hp => hp) (.refl u _) h)

/-! ## Openness of what is meant -/

theorem symbol_of_not_has (hi : ¬m.Has (.symbol i)) : m.symbol i = { name := "" } := by
  have hsize : m.symbols.size ≤ i := Nat.le_of_not_lt hi
  simp [Model.symbol, hsize]

theorem choice_of_not_has (hc : ¬m.Has (.choice c)) : m.choice c = {} := by
  have hsize : m.choices.size ≤ c := Nat.le_of_not_lt hc
  simp [Model.choice, hsize]

theorem Open.of_visibility
    (h : m.Open K (.visibility i)) (hq : q.item = .symbol i) : m.Open K q := by
  rw [Open, hq]
  exact h.imp_right fun h => .inl (h.resolve_right (by simp [asksNothing]))

theorem Open.of_choice (hp : p.item = .choice c) (hq : q.item = .choice c)
    (h : m.Open K p) : m.Open K q := by
  rw [Open, hq, ← hp]
  refine h.imp_right fun h => .inl (h.resolve_right ?_)
  cases p <;> simp_all [asksNothing, Query.item]

theorem Open.of_infer (hq : ∀ x : Item, q ≠ x.visibility)
    (h : m.infer u warns (m.settled u K) q = .ok r) : m.Open K q := by
  cases q with
  | tristate i =>
    cases hl : (m.symbol i).kind.isLogical with
    | false => exact .inr (.inr (by simp [asksNothing, hl]))
    | true =>
      obtain ⟨vis, hvis⟩ := tristate_asks_visibility hl h
      exact (settled_eq_ok.1 hvis).1.of_visibility rfl
  | text i =>
    cases hl : (m.symbol i).kind.isLogical with
    | true =>
      obtain ⟨x, hx, -⟩ := (infer_text_of_logical hl).1 h
      refine (settled_eq_ok.1 hx).1.imp_right fun hx => hx.imp_right fun hx => ?_
      simp_all [asksNothing]
    | false =>
      by_cases hk : (m.symbol i).kind = .unknown
      · exact .inr (.inr (by simp [asksNothing, hk]))
      · obtain ⟨vis, hvis⟩ := text_asks_visibility hl hk h
        exact (settled_eq_ok.1 hvis).1.of_visibility rfl
  | visibility i => exact absurd rfl (hq (.symbol i))
  | assignable i =>
    cases hl : (m.symbol i).kind.isLogical with
    | false => exact .inr (.inr (by simp [asksNothing, hl]))
    | true =>
      obtain ⟨vis, hvis⟩ := assignable_asks_visibility hl h
      exact (settled_eq_ok.1 hvis).1.of_visibility rfl
  | mode c =>
    obtain ⟨_, _, -, hrest⟩ := bind_ok_iff.1 h
    obtain ⟨vis, hvis, -⟩ := ask_bind_eq_ok.1 hrest
    exact (settled_eq_ok.1 hvis).1.of_choice rfl rfl
  | choiceVisibility c => exact absurd rfl (hq (.choice c))
  | selection c | choiceAssignable c =>
    obtain ⟨_, hasked, -⟩ := ask_bind_eq_ok.1 h
    exact (settled_eq_ok.1 hasked).1.of_choice rfl rfl

/-- Whether a query asks for what tells whether a symbol is written: the truth value of a logical
symbol, the text of another one whose kind is known. -/
def TellsWritten (m : Model) : Query → Prop
  | .tristate i => (m.symbol i).kind.isLogical = true
  | .text i => (m.symbol i).kind.isLogical = false ∧ (m.symbol i).kind ≠ .unknown
  | _ => False

theorem tellsWritten_of_infer (h : m.infer u warns t q = .ok (a, some b)) : m.TellsWritten q := by
  cases hq : q.isValue with
  | false => cases infer_written_eq_none hq h
  | true =>
    cases q with
    | tristate i =>
      show (m.symbol i).kind.isLogical
      by_contra hl
      cases tristate_of_not_logical (by simpa using hl) h
    | text i =>
      constructor
      · by_contra hl
        obtain ⟨x, -, hx⟩ := (infer_text_of_logical (by simpa using hl)).1 h
        cases hx
      · intro hk
        cases (infer_text_of_unknown hk).symm.trans h
    | _ => cases hq

theorem tellsWritten_of_fixed (hf : m.fixed? q = some (a, some b)) : m.TellsWritten q := by
  cases q with
  | tristate i =>
    show (m.symbol i).kind.isLogical
    simp only [fixed?, fixedTristate?] at hf
    grind
  | text i => cases hm : m.fixedTristate? i <;> grind [fixed?]
  | visibility i | assignable i | mode c | choiceVisibility c | selection c | choiceAssignable c =>
    grind [fixed?]

theorem Means.tellsWritten (h : m.Means u K q a (some b)) : m.TellsWritten q := by
  cases h with
  | fixed hf => exact tellsWritten_of_fixed hf
  | rule t ws _ _ _ hinfer => exact tellsWritten_of_infer hinfer

theorem Means.asksConstant_eq_false (h : m.Means u K q a (some b)) : asksConstant q = false := by
  rw [← Bool.not_eq_true]
  intro hq
  cases q with
  | tristate i =>
    have hi : i ≤ 2 := of_decide_eq_true hq
    match i, hi with
    | 2, _ => cases h.eq_fixed (f := (.yes, none)) rfl
  | _ => cases hq

theorem TellsWritten.isValue (h : m.TellsWritten q) : q.isValue := by
  cases q <;> simp_all [TellsWritten, Query.isValue]

theorem TellsWritten.eq
    (hp : m.TellsWritten p) (hq : m.TellsWritten q) (h : p.item = q.item) : p = q := by
  cases p <;> cases q <;> simp_all [TellsWritten, Query.item]

end Model

end Buildsmith.Kconfig
