import Buildsmith.Proofs.Session.History
import Mathlib.Logic.Function.Basic

/-!
# What is on record

A state of values records what a user assigned, and which items have been set since a file was
begun.  All else in it is computed.  The `Ledger` is this record alone.

Operations on values change the record as functions on ledgers say, if the record is valid: each
value in it is one that its item accepts, so that offering the value again changes nothing.
-/

namespace Buildsmith.Kconfig

open Values Offer UserValue Tristate EvalM

open Function (update update_apply update_eq_self)

/-- What a user assigned, and which items have been set. -/
@[ext]
structure Ledger where
  user : SymbolId → Option UserValue
  isSet : SymbolId → Bool
  mode : ChoiceId → Option Tristate
  selection : ChoiceId → Option SymbolId
  choiceSet : ChoiceId → Bool

def Values.ledger (v : Values) : Ledger where
  user i := (v.symbol i).user
  isSet i := (v.symbol i).wasSet
  mode c := (v.choice c).user
  selection c := (v.choice c).userSelection
  choiceSet c := (v.choice c).wasSet

section

variable {v : Values}

theorem ledger_modifySymbol {i : SymbolId} {f : SymbolState → SymbolState}
    (hi : i < v.symbols.size ∨ (f {}).user = none ∧ (f {}).wasSet = false) :
    (v.modifySymbol i f).ledger = { v.ledger with
        user := update v.ledger.user i (f (v.symbol i)).user
        isSet := update v.ledger.isSet i (f (v.symbol i)).wasSet } := by
  have hnew : ¬i < v.symbols.size → v.symbol i = {} := by
    intro hi
    simp [symbol, hi]
  ext j <;> simp only [ledger, symbol_modifySymbol, choice_modifySymbol]
  all_goals grind

theorem ledger_modifyChoice {c : ChoiceId} {f : ChoiceState → ChoiceState}
    (hc : c < v.choices.size ∨
      (f {}).user = none ∧ (f {}).userSelection = none ∧ (f {}).wasSet = false) :
    (v.modifyChoice c f).ledger = { v.ledger with
        mode := update v.ledger.mode c (f (v.choice c)).user
        selection := update v.ledger.selection c (f (v.choice c)).userSelection
        choiceSet := update v.ledger.choiceSet c (f (v.choice c)).wasSet } := by
  have hnew : ¬c < v.choices.size → v.choice c = {} := by
    intro hc
    simp [choice, hc]
  ext j <;> simp only [ledger, choice_modifyChoice, symbol_modifyChoice]
  all_goals grind

end

/-! ## Changes that leave the record alone -/

/-- States of the same size with the same record. -/
structure SameLedger (v v' : Values) : Prop where
  symbols_size : v'.symbols.size = v.symbols.size
  choices_size : v'.choices.size = v.choices.size
  ledger : v'.ledger = v.ledger

namespace SameLedger

variable {m : Model} {v v' v'' : Values}

theorem refl (v : Values) : SameLedger v v := ⟨rfl, rfl, rfl⟩

theorem trans (h : SameLedger v v') (h' : SameLedger v' v'') : SameLedger v v'' :=
  ⟨h'.symbols_size.trans h.symbols_size, h'.choices_size.trans h.choices_size,
    h'.ledger.trans h.ledger⟩

theorem warned (h : SameLedger v v') (ws : List String) : SameLedger v { v' with warnings := ws } :=
  ⟨h.symbols_size, h.choices_size, h.ledger⟩

theorem modifySymbol (v : Values) (i : SymbolId) {f : SymbolState → SymbolState}
    (hf : ∀ x, (f x).user = x.user ∧ (f x).wasSet = x.wasSet) :
    SameLedger v (v.modifySymbol i f) where
  symbols_size := by simp [Values.modifySymbol]
  choices_size := rfl
  ledger := by
    rw [ledger_modifySymbol (.inr (hf {})), (hf _).1, (hf _).2]
    exact Ledger.ext (update_eq_self i _) (update_eq_self i _) rfl rfl rfl

theorem modifyChoice (v : Values) (c : ChoiceId) {f : ChoiceState → ChoiceState}
    (hf : ∀ x, (f x).user = x.user ∧ (f x).userSelection = x.userSelection ∧
      (f x).wasSet = x.wasSet) : SameLedger v (v.modifyChoice c f) where
  symbols_size := rfl
  choices_size := by simp [Values.modifyChoice]
  ledger := by
    rw [ledger_modifyChoice (.inr (hf {})), (hf _).1, (hf _).2.1, (hf _).2.2]
    exact Ledger.ext rfl rfl (update_eq_self c _) (update_eq_self c _) (update_eq_self c _)

theorem forget (v : Values) (x : Item) : SameLedger v (v.forget x) := by
  cases x with
  | symbol i => exact modifySymbol v i fun _ => ⟨rfl, rfl⟩
  | choice c => exact modifyChoice v c fun _ => ⟨rfl, rfl, rfl⟩

theorem foldl {ι : Type} {step : Values → ι → Values} (hstep : ∀ v i, SameLedger v (step v i))
    (is : List ι) (v : Values) : SameLedger v (is.foldl step v) := by
  induction is generalizing v with
  | nil => exact refl v
  | cons i is ih => exact (hstep v i).trans (ih _)

theorem invalidateFrom (fuel : Nat) (v : Values) (x : Item) :
    SameLedger v (invalidateFrom m fuel v x) := by
  induction fuel generalizing v x with
  | zero => exact refl v
  | succ fuel ih =>
    unfold Values.invalidateFrom
    split
    · exact (foldl (fun v i => forget v _) _ v).trans (foldl (fun v c => forget v _) _ _)
    · refine (forget v x).trans (foldl (fun v d => ?_) _ _)
      split
      · exact ih v d
      · exact refl v

theorem invalidate (v : Values) (x : Item) : SameLedger v (v.invalidate m x) :=
  invalidateFrom _ v x

theorem invalidatePrompted (warns : Bool) (i : SymbolId) (v : Values) :
    SameLedger v (Sound.invalidatedIfPrompted m warns i v) := by
  unfold Sound.invalidatedIfPrompted Kconfig.invalidatePrompted
  simp only [runOn_bind, runOn_read]
  split
  · exact invalidate v _
  · split
    · exact (refl v).warned _
    · exact refl v

end SameLedger

/-! ## What operations do -/

def UserValue.offer : UserValue → Offer
  | tristate t => .number t.toNat
  | text s => .text s

def UserValue.tristate? : UserValue → Option Tristate
  | tristate t => some t
  | text _ => none

variable {x : UserValue} {kind : Kind} {o : Offer}

theorem Offer.eq_offer_of_isSame (h : o.isSame (some x)) : o = x.offer := by
  cases o <;> cases x <;> simp_all [isSame, offer]

theorem Offer.accepted?_offer
    (h : o.accepted? kind = some x) : x.offer.accepted? kind = some x := by
  have htristate : ∀ t : Tristate, (number t.toNat).tristate? = some t := by
    intro t
    cases t <;> rfl
  cases kind <;> unfold accepted? at h ⊢ <;> grind [offer, Option.map_eq_some_iff]

section Operations

variable {m : Model} {v : Values}

/-- The state in which a symbol has a value, and is selected in its choice if that value is `y`. -/
def Values.put (m : Model) (i : SymbolId) (x : UserValue) (v : Values) : Values :=
  let v' := v.modifySymbol i fun y => { y with user := some x, wasSet := true }
  match (m.symbol i).choice, x with
  | some c, .tristate .yes =>
    v'.modifyChoice c fun y => { y with userSelection := some i, wasSet := true }
  | _, _ => v'

theorem setSymbol_cases (warns : Bool) (i : SymbolId) (o : Offer) (v : Values) :
    ∃ b v', (setSymbol warns i o).runOn m v = (.ok b, v') ∧ ∃ o',
      o' = (if (m.symbol i).kind.isLogical then o.ranked else o) ∧
      (o'.isSame (v.symbol i).user ∧ (m.symbol i).choice = none ∧
          v' = v.modifySymbol i (fun y => { y with wasSet := true }) ∨
        o'.accepted? (m.symbol i).kind = none ∧ SameLedger v v' ∨
        ∃ x, o'.accepted? (m.symbol i).kind = some x ∧ SameLedger (v.put m i x) v') := by
  simp only [Kconfig.setSymbol, runOn_bind, runOn_read, runOn_symbolState]
  generalize (if (m.symbol i).kind.isLogical then o.ranked else o) = o'
  split
  · rename_i hsame
    rw [Bool.and_eq_true, Option.isNone_iff_eq_none] at hsame
    exact ⟨_, _, rfl, o', rfl, .inl ⟨hsame.1, hsame.2, rfl⟩⟩
  · split
    · rename_i hnone
      exact ⟨_, _, rfl, o', rfl, .inr (.inl ⟨hnone, (SameLedger.refl v).warned _⟩)⟩
    · rename_i x hx
      split
      · rename_i c hc
        refine ⟨_, _, rfl, o', rfl, .inr (.inr ⟨_, hx, ?_⟩)⟩
        simp only [put, hc]
        exact SameLedger.invalidate _ _
      · rename_i x _ _ hother
        simp only [runOn_bind, Sound.runOn_invalidatePrompted]
        refine ⟨_, _, rfl, o', rfl, .inr (.inr ⟨x, hx, ?_⟩)⟩
        have hput : v.put m i x =
            v.modifySymbol i fun y => { y with user := some x, wasSet := true } := by
          unfold put
          split
          · exact (hother _ ‹_› rfl).elim
          · rfl
        rw [hput]
        exact SameLedger.invalidatePrompted _ _ _

theorem setChoice_cases (c : ChoiceId) (o : Offer) (v : Values) :
    ∃ b v', (setChoice c o).runOn m v = (.ok b, v') ∧ ∃ a,
      a = (if (m.choice c).kind.isLogical then o.ranked.accepted? (m.choice c).kind else none) ∧
      (o.ranked.isSame ((v.choice c).user.map .tristate) ∧
          v' = v.modifyChoice c (fun y => { y with wasSet := true }) ∨
        (∀ t, a ≠ some (.tristate t)) ∧ SameLedger v v' ∨
        ∃ t, a = some (.tristate t) ∧
          SameLedger (v.modifyChoice c fun y => { y with user := some t, wasSet := true }) v') := by
  simp only [Kconfig.setChoice, runOn_bind, runOn_read, runOn_choiceState]
  split
  · exact ⟨_, _, rfl, _, rfl, .inl ⟨‹_›, rfl⟩⟩
  · split
    · rename_i t ht
      exact ⟨_, _, rfl, _, rfl, .inr (.inr ⟨t, ht, SameLedger.invalidate _ _⟩)⟩
    · rename_i hnone
      exact ⟨_, _, rfl, _, rfl, .inr (.inl ⟨hnone, (SameLedger.refl v).warned _⟩)⟩

theorem unsetSymbol_cases (warns : Bool) (i : SymbolId) (v : Values) :
    ∃ v', (unsetSymbol warns i).runOn m v = (.ok (), v') ∧
      SameLedger (v.modifySymbol i fun y => { y with user := none }) v' := by
  simp only [Kconfig.unsetSymbol, runOn_bind, runOn_symbolState]
  split
  · simp only [runOn_bind, runOn_updateSymbol, Sound.runOn_invalidatePrompted]
    exact ⟨_, rfl, SameLedger.invalidatePrompted _ _ _⟩
  · rename_i hnone
    rw [Bool.not_eq_true, Option.isSome_eq_false_iff, Option.isNone_iff_eq_none] at hnone
    refine ⟨v, rfl, by simp [modifySymbol], rfl, ?_⟩
    ext j <;> simp only [ledger, symbol_modifySymbol, choice_modifySymbol]
    all_goals grind

theorem unsetChoice_cases (c : ChoiceId) (v : Values) :
    ∃ v', (unsetChoice c).runOn m v = (.ok (), v') ∧
      SameLedger (v.modifyChoice c fun y => { y with user := none, userSelection := none }) v' := by
  simp only [Kconfig.unsetChoice, runOn_bind, runOn_choiceState]
  split
  · exact ⟨_, rfl, SameLedger.invalidate _ _⟩
  · rename_i hnone
    simp only [Bool.or_eq_true, not_or, Bool.not_eq_true, Option.isSome_eq_false_iff,
      Option.isNone_iff_eq_none] at hnone
    refine ⟨v, rfl, rfl, by simp [modifyChoice], ?_⟩
    ext j <;> simp only [ledger, choice_modifyChoice, symbol_modifyChoice]
    all_goals grind

theorem assigned_eq_of_ledger {v' : Values} (h : v'.ledger = v.ledger) :
    v'.assigned = v.assigned := by
  injection h with huser _ hmode hselection _
  simp only [assigned, huser, hmode, hselection]

end Operations

/-! ## Valid records -/

/-- A state of the size of a model in which every value on record is one that its item accepts, and
only truth values are selected. -/
structure Valid (m : Model) (v : Values) : Prop where
  symbols_size : v.symbols.size = m.symbols.size
  choices_size : v.choices.size = m.choices.size
  user : ∀ i x, v.assigned.user i = some x → x.offer.accepted? (m.symbol i).kind = some x
  mode : ∀ c t, v.assigned.mode c = some t → (m.choice c).kind.isLogical = true ∧
    (tristate t).offer.accepted? (m.choice c).kind = some (.tristate t)
  selection : ∀ c i, v.assigned.selection c = some i → (m.symbol i).kind.isLogical = true

namespace Valid

variable {m : Model} {v v' : Values}

theorem initial (hm : SymbolId.yes < m.symbols.size) : Valid m (.initial m) where
  symbols_size := by simp [Values.initial]
  choices_size := by simp [Values.initial]
  user i x hx := by simp [assigned, symbol_initial hm] at hx
  mode c t ht := by simp [assigned, choice_initial] at ht
  selection c i hi := by simp [assigned, choice_initial] at hi

theorem of_assigned (h : Valid m v) (hs : v'.symbols.size = v.symbols.size)
    (hc : v'.choices.size = v.choices.size) (ha : v'.assigned = v.assigned) : Valid m v' :=
  ⟨hs.trans h.symbols_size, hc.trans h.choices_size, ha ▸ h.user, ha ▸ h.mode, ha ▸ h.selection⟩

theorem modifySymbol (h : Valid m v) (i : SymbolId) {f : SymbolState → SymbolState}
    (hf : ∀ x y, (f x).user = some y →
      x.user = some y ∨ y.offer.accepted? (m.symbol i).kind = some y) :
    Valid m (v.modifySymbol i f) where
  symbols_size := by simpa [Values.modifySymbol] using h.symbols_size
  choices_size := h.choices_size
  user j x hx := by
    simp only [assigned, symbol_modifySymbol] at hx
    split at hx
    · rename_i hij
      obtain ⟨rfl, -⟩ := hij
      exact (hf _ x hx).elim (h.user i x) id
    · exact h.user j x hx
  mode := h.mode
  selection := h.selection

theorem modifyChoice (h : Valid m v) (c : ChoiceId) {f : ChoiceState → ChoiceState}
    (hf : ∀ x t, (f x).user = some t → x.user = some t ∨ (m.choice c).kind.isLogical ∧
      (tristate t).offer.accepted? (m.choice c).kind = some (.tristate t))
    (hf' : ∀ x i, (f x).userSelection = some i →
      x.userSelection = some i ∨ (m.symbol i).kind.isLogical) :
    Valid m (v.modifyChoice c f) where
  symbols_size := h.symbols_size
  choices_size := by simpa [Values.modifyChoice] using h.choices_size
  user := h.user
  mode d t ht := by
    simp only [assigned, choice_modifyChoice] at ht
    split at ht
    · rename_i hcd
      obtain ⟨rfl, -⟩ := hcd
      exact (hf _ t ht).elim (h.mode c t) id
    · exact h.mode d t ht
  selection d i hi := by
    simp only [assigned, choice_modifyChoice] at hi
    split at hi
    · rename_i hcd
      obtain ⟨rfl, -⟩ := hcd
      exact (hf' _ i hi).elim (h.selection c i) id
    · exact h.selection d i hi

theorem put (h : Valid m v) {i : SymbolId} {x : UserValue}
    (hx : x.offer.accepted? (m.symbol i).kind = some x) : Valid m (v.put m i x) := by
  have hsymbol : Valid m (v.modifySymbol i fun y => { y with user := some x, wasSet := true }) :=
    h.modifySymbol i fun _ y hy => .inr (by cases hy; exact hx)
  unfold Values.put
  split
  · refine hsymbol.modifyChoice _ (fun _ t ht => .inl ht) fun _ j hj => ?_
    cases hj
    exact .inr (Sound.isLogical_of_accepted hx)
  · exact hsymbol

theorem kept (m : Model) : Kept m (Valid m) := by
  have hledger : ∀ {v v'}, SameLedger v v' → Valid m v → Valid m v' := fun hv h =>
    h.of_assigned hv.symbols_size hv.choices_size (assigned_eq_of_ledger hv.ledger)
  refine ⟨fun _ _ h => h.of_assigned rfl rfl rfl, fun _ _ hv ha h =>
    h.of_assigned hv.symbols_size hv.choices_size ha, fun q v h => ?_, fun warns i o v h => ?_,
    fun c o v h => ?_, fun warns i v h => ?_, fun c v h => ?_⟩
  · rw [runOn_answerTo]
    exact Kept.answerWithin (fun _ _ h => h.of_assigned rfl rfl rfl)
      (fun _ _ _ _ h => h.of_assigned (by simp) (by simp) (by simp)) _ q v h
  · obtain ⟨b, v', hrun, o', -, hcases⟩ := setSymbol_cases (m := m) warns i o v
    rw [hrun]
    obtain ⟨-, -, rfl⟩ | ⟨-, hv'⟩ | ⟨x, hx, hv'⟩ := hcases
    · exact h.modifySymbol i fun _ _ hy => .inl hy
    · exact hledger hv' h
    · exact hledger hv' (h.put (accepted?_offer hx))
  · obtain ⟨b, v', hrun, a, ha, hcases⟩ := setChoice_cases (m := m) c o v
    rw [hrun]
    obtain ⟨-, rfl⟩ | ⟨-, hv'⟩ | ⟨t, rfl, hv'⟩ := hcases
    · exact h.modifyChoice c (fun _ _ hy => .inl hy) fun _ _ hi => .inl hi
    · exact hledger hv' h
    · have hlogical : (m.choice c).kind.isLogical := by
        by_contra hk
        simp [hk] at ha
      rw [if_pos hlogical] at ha
      refine hledger hv' (h.modifyChoice c (fun _ _ hy => ?_) fun _ _ hi => .inl hi)
      cases hy
      exact .inr ⟨hlogical, accepted?_offer ha.symm⟩
  · obtain ⟨v', hrun, hv'⟩ := unsetSymbol_cases (m := m) warns i v
    rw [hrun]
    exact hledger hv' (h.modifySymbol i fun _ _ hy => nomatch hy)
  · obtain ⟨v', hrun, hv'⟩ := unsetChoice_cases (m := m) c v
    rw [hrun]
    exact hledger hv' (h.modifyChoice c (fun _ _ hy => nomatch hy) fun _ _ hy => nomatch hy)

end Valid

/-! ## Changes of the record -/

/-- The value that a symbol takes from an offer, if it accepts it. -/
def Symbol.takes? (x : Symbol) (o : Offer) : Option UserValue :=
  (if x.kind.isLogical then o.ranked else o).accepted? x.kind

/-- The value that a symbol takes from a text, if it accepts it. -/
def Symbol.accepts (x : Symbol) (t : String) : Option UserValue :=
  (if x.kind.isLogical then (Offer.text t).ranked else .text t).accepted? x.kind

/-- The mode that a choice takes from a text, if it accepts it. -/
def Choice.accepts (x : Choice) (t : String) : Option Tristate :=
  (if x.kind.isLogical then (Offer.text t).ranked.accepted? x.kind else none).bind
    tristate?

theorem Offer.accepted?_ranked (h : kind.isLogical) (t : String) :
    (text t).ranked.accepted? kind = (ofLetter? t).bind fun y =>
      if kind = .bool ∧ y = .mod then none else some (.tristate y) := by
  simp only [ranked]
  cases ofLetter? t with
  | none =>
    cases kind with
    | bool | tristate => rfl
    | _ => cases h
  | some y =>
    cases kind with
    | bool | tristate => cases y <;> rfl
    | _ => cases h

theorem Symbol.accepts_of_logical {x : Symbol} (h : x.kind.isLogical) (t : String) :
    x.accepts t = (ofLetter? t).bind fun y =>
      if x.kind = .bool ∧ y = .mod then none else some (.tristate y) := by
  rw [Symbol.accepts, if_pos h, accepted?_ranked h]

theorem Symbol.eq_yes_of_accepts {x : Symbol} {t : String}
    (h : x.accepts t = some (.tristate .yes)) : x.kind.isLogical ∧ t = "y" := by
  have hlogical := Sound.isLogical_of_accepted h
  refine ⟨hlogical, ?_⟩
  rw [Symbol.accepts_of_logical hlogical] at h
  obtain ⟨y, hy, hyes⟩ := Option.bind_eq_some_iff.1 h
  have hyes' : y = .yes := by grind
  rw [hyes'] at hy
  unfold ofLetter? at hy
  grind

theorem Choice.accepts_of_logical {x : Choice} (h : x.kind.isLogical) (t : String) :
    x.accepts t = (ofLetter? t).bind fun y =>
      if x.kind = .bool ∧ y = .mod then none else some y := by
  rw [Choice.accepts, if_pos h, accepted?_ranked h]
  cases ofLetter? t with
  | none => rfl
  | some y =>
    simp only [Option.bind_some]
    split <;> rfl

namespace Ledger

variable {m : Model} {L : Ledger}

def clear (m : Model) (L : Ledger) : Ledger :=
  { L with
    isSet := fun i => L.isSet i && !decide (i ∈ m.uniqueDefined)
    choiceSet := fun c => L.choiceSet c && !decide (c ∈ m.uniqueChoices) }

/-- A symbol gets a value; a symbol of a choice that gets `y` is then selected there. -/
def put (m : Model) (i : SymbolId) (x : UserValue) (L : Ledger) : Ledger :=
  let L' := { L with
    user := update L.user i (some x), isSet := update L.isSet i true }
  match (m.symbol i).choice, x with
  | some c, .tristate .yes =>
    { L' with
      selection := update L.selection c (some i)
      choiceSet := update L.choiceSet c true }
  | _, _ => L'

def setSymbol (m : Model) (i : SymbolId) (t : String) (L : Ledger) : Ledger :=
  ((m.symbol i).accepts t).elim L fun x => L.put m i x

def setMode (m : Model) (c : ChoiceId) (t : String) (L : Ledger) : Ledger :=
  ((m.choice c).accepts t).elim L fun x =>
    { L with
      mode := update L.mode c (some x)
      choiceSet := update L.choiceSet c true }

/-- The choice whose mode follows a symbol that gets a text. -/
def followedBy (m : Model) (i : SymbolId) (t : String) : Option ChoiceId :=
  if (m.symbol i).kind.isLogical && t ≠ "n" then (m.symbol i).choice else none

def enter (m : Model) (L : Ledger) (e : SymbolId × String) : Ledger :=
  ((followedBy m e.1 e.2).elim L fun c => L.setMode m c e.2).setSymbol m e.1 e.2

/-- What has not been set is taken back. -/
def unsetOthers (m : Model) (L : Ledger) : Ledger :=
  { L with
    user := fun i => if i ∈ m.uniqueDefined ∧ L.isSet i = false then none else L.user i
    mode := fun c => if c ∈ m.uniqueChoices ∧ L.choiceSet c = false then none else L.mode c
    selection := fun c =>
      if c ∈ m.uniqueChoices ∧ L.choiceSet c = false then none else L.selection c }

def unsetSymbol (L : Ledger) (i : SymbolId) : Ledger :=
  if L.isSet i then L else { L with user := update L.user i none }

def unsetChoice (L : Ledger) (c : ChoiceId) : Ledger :=
  if L.choiceSet c then L
  else { L with
    mode := update L.mode c none
    selection := update L.selection c none }

theorem foldl_unsetSymbol (is : List SymbolId) (L : Ledger) : is.foldl unsetSymbol L =
      { L with user := fun i => if i ∈ is ∧ L.isSet i = false then none else L.user i } := by
  induction is generalizing L with
  | nil => simp
  | cons i is ih =>
    rw [List.foldl_cons, ih, unsetSymbol]
    split
    all_goals
      ext j <;> simp only [update_apply]
      grind

theorem foldl_unsetChoice (cs : List ChoiceId) (L : Ledger) :
    cs.foldl unsetChoice L = { L with
        mode := fun c => if c ∈ cs ∧ L.choiceSet c = false then none else L.mode c
        selection := fun c => if c ∈ cs ∧ L.choiceSet c = false then none else L.selection c } := by
  induction cs generalizing L with
  | nil => simp
  | cons c cs ih =>
    rw [List.foldl_cons, ih, unsetChoice]
    split
    all_goals
      ext j <;> simp only [update_apply]
      all_goals grind

/-- Whether a symbol counts as set but has no value. -/
def Hollow (L : Ledger) (i : SymbolId) : Prop :=
  L.isSet i = true ∧ L.user i = none

variable {i j : SymbolId} {e : SymbolId × String}

theorem not_hollow_clear (L : Ledger) (hi : i ∈ m.uniqueDefined) : ¬(L.clear m).Hollow i := by
  rintro ⟨hset, -⟩
  simp [clear, hi] at hset

theorem hollow_setMode (c : ChoiceId) (t : String) (i : SymbolId) :
    (L.setMode m c t).Hollow i ↔ L.Hollow i := by
  unfold setMode
  cases (m.choice c).accepts t with
  | none | some x => rfl

theorem put_eq (i : SymbolId) (x : UserValue) :
    L.put m i x =
      { user := fun j => if j = i then some x else L.user j
        isSet := fun j => L.isSet j || decide (j = i)
        mode := L.mode
        selection := fun c =>
          if (m.symbol i).choice = some c ∧ x = .tristate .yes then some i else L.selection c
        choiceSet := fun c =>
          L.choiceSet c || decide ((m.symbol i).choice = some c ∧ x = .tristate .yes) } := by
  unfold put
  split
  all_goals
    ext j <;> simp only [update_apply] <;> grind

theorem enter_eq (i : SymbolId) (t : String) :
    L.enter m (i, t) =
      { user := fun j => if j = i then ((m.symbol i).accepts t).or (L.user j) else L.user j
        isSet := fun j => L.isSet j || decide (j = i ∧ ((m.symbol i).accepts t).isSome)
        mode := fun c =>
          if followedBy m i t = some c then ((m.choice c).accepts t).or (L.mode c) else L.mode c
        selection := fun c =>
          if (m.symbol i).choice = some c ∧ (m.symbol i).accepts t = some (.tristate .yes) then some i
          else L.selection c
        choiceSet := fun c => L.choiceSet c ||
          decide (followedBy m i t = some c ∧ ((m.choice c).accepts t).isSome ∨
            (m.symbol i).choice = some c ∧ (m.symbol i).accepts t = some (.tristate .yes)) } := by
  unfold enter setSymbol setMode
  cases followedBy m i t with
  | none => cases (m.symbol i).accepts t <;> simp [put_eq]
  | some d =>
    cases hd : (m.choice d).accepts t <;> cases (m.symbol i).accepts t
    all_goals
      simp only [Option.elim_some, Option.elim_none, hd, put_eq]
      ext j <;> simp only [update_apply] <;> grind

theorem hollow_of_enter (h : (L.enter m e).Hollow i) : L.Hollow i := by
  rw [enter_eq] at h
  grind [Hollow]

theorem hollow_enter_of_ne (hi : i ≠ e.1) : (L.enter m e).Hollow i ↔ L.Hollow i := by
  rw [enter_eq]
  simp [Hollow, hi]

end Ledger

/-! ## Runs on values -/

section Runs

variable {m : Model} {v : Values}

section

variable {i : SymbolId} (h : Valid m v) (hi : i < m.symbols.size)
  (hc : ∀ c, (m.symbol i).choice = some c → c < m.choices.size)

include h hi hc

theorem ledger_put (x : UserValue) : (v.put m i x).ledger = v.ledger.put m i x := by
  have hi' : i < v.symbols.size := h.symbols_size ▸ hi
  unfold put Ledger.put
  split
  · rename_i c hchoice
    have hc' : c < (v.modifySymbol i fun y =>
        { y with user := some (.tristate .yes), wasSet := true }).choices.size :=
      h.choices_size ▸ hc c hchoice
    have hmode : update v.ledger.mode c (v.choice c).user = v.ledger.mode :=
      update_eq_self c v.ledger.mode
    simp only [ledger_modifyChoice (.inl hc'), ledger_modifySymbol (.inl hi'),
      choice_modifySymbol, hmode]
  · exact ledger_modifySymbol (.inl hi')

theorem runOn_offer (warns : Bool) (o : Offer) :
    ∃ b v', (setSymbol warns i o).runOn m v = (.ok b, v') ∧
      (v'.ledger = ((m.symbol i).takes? o).elim v.ledger (v.ledger.put m i) ∨
        (if (m.symbol i).kind.isLogical then o.ranked else o) = .nothing ∧
          v' = v.modifySymbol i fun y => { y with wasSet := true }) := by
  obtain ⟨b, v', hrun, o', ho', hcases⟩ := setSymbol_cases (m := m) warns i o v
  refine ⟨b, v', hrun, ?_⟩
  rw [Symbol.takes?, ← ho']
  obtain ⟨hsame, hchoice, rfl⟩ | ⟨hnone, hsame⟩ | ⟨x, hx, hsame⟩ := hcases
  · cases hu : (v.symbol i).user with
    | none =>
      rw [hu] at hsame
      exact .inr ⟨by cases o' <;> simp_all [isSame], rfl⟩
    | some x =>
      -- what is assigned already is accepted again
      rw [hu] at hsame
      have hput : v.ledger.put m i x = { v.ledger with
            user := update v.ledger.user i (some x)
            isSet := update v.ledger.isSet i true } := by
        simp only [Ledger.put, hchoice]
      rw [eq_offer_of_isSame hsame, h.user i x hu, Option.elim_some, hput]
      simp only [ledger_modifySymbol (.inl (h.symbols_size ▸ hi)), hu, true_or]
  · exact .inl (by rw [hnone, hsame.ledger, Option.elim_none])
  · exact .inl (by rw [hx, hsame.ledger, Option.elim_some, ledger_put h hi hc])

theorem runOn_setSymbol (warns : Bool) (t : String) :
    ∃ b v', (setSymbol warns i (.text t)).runOn m v = (.ok b, v') ∧
      v'.ledger = v.ledger.setSymbol m i t := by
  obtain ⟨b, v', hrun, hledger | ⟨hnothing, -⟩⟩ := runOn_offer h hi hc warns (.text t)
  · exact ⟨b, v', hrun, hledger⟩
  · unfold ranked at hnothing
    grind

omit hi hc in
theorem runOn_setChoice {c : ChoiceId} (hc : c < m.choices.size) (t : String) :
    ∃ b v', (setChoice c (.text t)).runOn m v = (.ok b, v') ∧
      v'.ledger = v.ledger.setMode m c t := by
  obtain ⟨b, v', hrun, a, ha, hcases⟩ := setChoice_cases (m := m) c (.text t) v
  refine ⟨b, v', hrun, ?_⟩
  have hc' : c < v.choices.size := h.choices_size ▸ hc
  have haccepts : (m.choice c).accepts t = a.bind UserValue.tristate? := by
    rw [Choice.accepts, ha]
  rw [Ledger.setMode, haccepts]
  have hselection : update v.ledger.selection c (v.choice c).userSelection =
      v.ledger.selection := update_eq_self c v.ledger.selection
  obtain ⟨hsame, rfl⟩ | ⟨hnone, hsame⟩ | ⟨y, rfl, hsame⟩ := hcases
  · -- what is assigned already is accepted again
    obtain ⟨y, hy⟩ : ∃ y, (v.choice c).user = some y := by
      cases hu : (v.choice c).user with
      | some y => exact ⟨y, rfl⟩
      | none =>
        rw [hu] at hsame
        unfold ranked at hsame
        grind [isSame]
    rw [hy] at hsame
    obtain ⟨hlogical, haccepted⟩ := h.mode c y hy
    rw [if_pos hlogical, eq_offer_of_isSame hsame, haccepted] at ha
    have hmode : update v.ledger.mode c (some y) = v.ledger.mode :=
      hy ▸ update_eq_self c v.ledger.mode
    simp only [ha, Option.bind_some, UserValue.tristate?, Option.elim_some,
      ledger_modifyChoice (.inl hc'), hselection, hmode, hy]
  · have hbind : a.bind UserValue.tristate? = none := by
      cases a with
      | none => rfl
      | some x =>
        cases x with
        | tristate y => exact absurd rfl (hnone y)
        | text _ => rfl
    rw [hbind, hsame.ledger, Option.elim_none]
  · simp only [hsame.ledger, Option.bind_some, UserValue.tristate?, Option.elim_some,
      ledger_modifyChoice (.inl hc'), hselection]

end

theorem ledger_clearWasSet (m : Model) (v : Values) :
    (v.clearWasSet m).ledger = v.ledger.clear m := by
  have hsymbols : ∀ v : Values, ∀ is : List SymbolId,
      (is.foldl (fun v i => v.modifySymbol i fun x => { x with wasSet := false }) v).ledger =
        { v.ledger with isSet := fun i => v.ledger.isSet i && !decide (i ∈ is) } := by
    intro v is
    induction is generalizing v with
    | nil => simp
    | cons i is ih =>
      rw [List.foldl_cons, ih, ledger_modifySymbol (.inr ⟨rfl, rfl⟩)]
      ext j <;> simp [update_apply] <;> grind [ledger]
  have hchoices : ∀ v : Values, ∀ cs : List ChoiceId,
      (cs.foldl (fun v c => v.modifyChoice c fun x => { x with wasSet := false }) v).ledger =
        { v.ledger with choiceSet := fun c => v.ledger.choiceSet c && !decide (c ∈ cs) } := by
    intro v cs
    induction cs generalizing v with
    | nil => simp
    | cons c cs ih =>
      rw [List.foldl_cons, ih, ledger_modifyChoice (.inr ⟨rfl, rfl, rfl⟩)]
      ext j <;> simp [update_apply] <;> grind [ledger]
  rw [clearWasSet, hchoices, hsymbols]
  rfl

theorem runOn_forIn {ι : Type} {f : ι → PUnit → EvalM (ForInStep PUnit)} {g : Ledger → ι → Ledger}
    (hf : ∀ i v, ∃ v', (f i ⟨⟩).runOn m v = (.ok (.yield ⟨⟩), v') ∧ v'.ledger = g v.ledger i)
    (is : List ι) (v : Values) :
    ∃ v', (forIn is PUnit.unit f).runOn m v = (.ok ⟨⟩, v') ∧ v'.ledger = is.foldl g v.ledger := by
  induction is generalizing v with
  | nil => exact ⟨v, rfl, rfl⟩
  | cons i is ih =>
    obtain ⟨v₁, hrun, hledger⟩ := hf i v
    obtain ⟨v', hrun', hledger'⟩ := ih v₁
    refine ⟨v', ?_, ?_⟩
    · rw [List.forIn_cons, runOn_bind_ok hrun]
      exact hrun'
    · rw [hledger', hledger, List.foldl_cons]

theorem runOn_unsetOthers (m : Model) (v : Values) :
    ∃ v', unsetOthers.runOn m v = (.ok (), v') ∧ v'.ledger = v.ledger.unsetOthers m := by
  obtain ⟨v₁, hrun₁, hledger₁⟩ := runOn_forIn (m := m) (g := Ledger.unsetSymbol)
    (f := fun i _ => do
      if !(← symbolState i).wasSet then unsetSymbol false i
      pure (.yield ⟨⟩))
    (fun i v => by
      simp only [runOn_bind, runOn_symbolState, Ledger.unsetSymbol]
      cases hset : (v.symbol i).wasSet with
      | true => exact ⟨v, rfl, (if_pos hset).symm⟩
      | false =>
        obtain ⟨v', hrun, hsame⟩ := unsetSymbol_cases (m := m) false i v
        refine ⟨v', runOn_bind_ok hrun, ?_⟩
        have hupdate : update v.ledger.isSet i (v.symbol i).wasSet = v.ledger.isSet :=
          update_eq_self i v.ledger.isSet
        have hset' : ¬v.ledger.isSet i := by simp [ledger, hset]
        rw [hsame.ledger, ledger_modifySymbol (.inr ⟨rfl, rfl⟩), if_neg hset', hupdate])
    m.uniqueDefined v
  obtain ⟨v₂, hrun₂, hledger₂⟩ := runOn_forIn (m := m) (g := Ledger.unsetChoice)
    (f := fun c _ => do
      if !(← choiceState c).wasSet then unsetChoice c
      pure (.yield ⟨⟩))
    (fun c v => by
      simp only [runOn_bind, runOn_choiceState, Ledger.unsetChoice]
      cases hset : (v.choice c).wasSet with
      | true => exact ⟨v, rfl, (if_pos hset).symm⟩
      | false =>
        obtain ⟨v', hrun, hsame⟩ := unsetChoice_cases (m := m) c v
        refine ⟨v', runOn_bind_ok hrun, ?_⟩
        have hupdate : update v.ledger.choiceSet c (v.choice c).wasSet =
            v.ledger.choiceSet := update_eq_self c v.ledger.choiceSet
        have hset' : ¬v.ledger.choiceSet c := by simp [ledger, hset]
        rw [hsame.ledger, ledger_modifyChoice (.inr ⟨rfl, rfl, rfl⟩), if_neg hset', hupdate])
    m.uniqueChoices v₁
  refine ⟨v₂, ?_, ?_⟩
  · rw [unsetOthers, runOn_bind, runOn_read]
    simp only
    rw [runOn_bind_ok hrun₁, runOn_bind_ok hrun₂]
    rfl
  · rw [hledger₂, hledger₁, Ledger.foldl_unsetSymbol, Ledger.foldl_unsetChoice]
    rfl

end Runs

end Buildsmith.Kconfig
