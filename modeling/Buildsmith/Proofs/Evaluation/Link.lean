import Buildsmith.Kconfig.Eval

/-!
# Relating two ways to evaluate

The rules are written for any way to read values.  A relation between computations in two monads
that respects `pure`, `bind` and faults therefore relates what a rule does in both, once the two
ways to read are related on the queries that the rule may ask.

`Model.mayAsk` lists those queries.  `Linked.answer` is the main result; everything that is said of
all rules together is an instance of it.
-/

namespace Buildsmith.Kconfig

open List Readers Model Buildsmith.Kconfig.Expr SymbolId

/-! ## The queries that a rule may ask -/

def Expr.queries : Expr → List Query
  | .item (.symbol i) => [.tristate i]
  | .item (.choice c) => [.mode c]
  | .not e => e.queries
  | .and a b => a.queries ++ b.queries
  | .or a b => a.queries ++ b.queries
  | .rel _ a b => [.tristate a, .text a, .tristate b, .text b]

def Expr.symbolQuery (f : SymbolId → Query) : Expr → List Query
  | .item (.symbol i) => [f i]
  | _ => []

/-- Whether a query asks for the value of a symbol; its rule says whether the symbol is written. -/
def Query.isValue : Query → Bool
  | tristate _ | text _ => true
  | _ => false

namespace Model

def promptQueries (m : Model) (ks : List EntryId) : List Query :=
  ks.flatMap fun k => ((m.entry k).prompt.map (·.2.queries)).getD []

def kindQueries (m : Model) (i : SymbolId) : List Query :=
  .tristate modules :: (m.symbol i).choice.toList.map .mode

/-- The queries that the warning about a select may ask beside those of the symbol's own value. -/
def selectQueries (m : Model) (i : SymbolId) : List Query :=
  (m.symbol i).reverseDep.disjuncts.flatMap fun e =>
    match e.conjuncts.headD e with
    | .item (.symbol k) => .text k :: (m.symbol k).directDep.queries
    | _ => []

/-- The queries that the rule behind a query may ask, other than for warnings. -/
def mayAsk (m : Model) : Query → List Query
  | .tristate i =>
    .visibility i :: (m.symbol i).choice.toList.map .selection ++ m.kindQueries i ++
      (m.symbol i).defaults.flatMap (fun d => d.2.queries ++ d.1.queries) ++
      (m.symbol i).weakReverseDep.queries ++ (m.symbol i).directDep.queries ++
      (m.symbol i).reverseDep.queries
  | .text i =>
    .tristate i :: .visibility i ::
      (m.symbol i).ranges.flatMap (fun x => x.2.2.queries ++ [.text x.1, .text x.2.1]) ++
      (m.symbol i).defaults.flatMap (fun d => d.2.queries ++ d.1.symbolQuery .text)
  | .visibility i => m.promptQueries (m.symbol i).entries ++ m.kindQueries i
  | .assignable i =>
    .visibility i :: m.kindQueries i ++ (m.symbol i).reverseDep.queries ++
      (m.symbol i).weakReverseDep.queries
  | .mode c => [.choiceVisibility c, .tristate modules]
  | .choiceVisibility c => .tristate modules :: m.promptQueries (m.choice c).entries
  | .selection c =>
    .mode c :: (m.choice c).defaults.flatMap
      (fun d => d.2.queries ++ d.1.symbolQuery .visibility) ++
      (m.choice c).symbols.map .visibility
  | .choiceAssignable c => [.choiceVisibility c, .tristate modules]

/-- The queries that the rule behind a query may ask for warnings alone. -/
def mayMention (m : Model) : Query → List Query
  | .tristate i => m.selectQueries i
  | _ => []

end Model

/-! ## Links -/

/-- A relation between computations that respects how they are put together. -/
structure Link (M N : Type → Type) [Monad M] [Monad N] where
  Rel : {α : Type} → M α → N α → Prop
  pure : ∀ {α : Type} (a : α), Rel (Pure.pure a : M α) (Pure.pure a)
  bind : ∀ {α β : Type} {x : M α} {y : N α} {f : α → M β} {g : α → N β},
    Rel x y → (∀ a, Rel (f a) (g a)) → Rel (x >>= f) (y >>= g)

variable {M N : Type → Type} [Monad M] [Monad N]

/-- A link that respects the faults of rules.  These do not say by themselves that evaluation does
not end. -/
class Link.Faults [MonadExceptOf Fault M] [MonadExceptOf Fault N] (L : Link M N) : Prop where
  throw : ∀ {α : Type} (e : Fault), e ≠ .unbounded → L.Rel (throw e : M α) (throw e)

theorem Link.map {α β : Type} {x : M α} {y : N α} {f : α → β} (L : Link M N) (h : L.Rel x y) :
    L.Rel (x >>= fun a => Pure.pure (f a)) (y >>= fun a => Pure.pure (f a)) :=
  L.bind h fun _ => L.pure _

/-- Two ways to read are linked on the queries in `S` and on what is assigned to the items in `U`.
A selection that a user made may be assumed to have its visibility in `S`.  What is said of being
written matters only where `V` holds, and the texts of warnings only if `W` holds. -/
structure Linked (L : Link M N) (m : Model) (S : Query → Prop) (U : Item → Prop)
    (V : Bool → Prop) (W : Prop) (r : Readers M) (r' : Readers N) : Prop where
  left : r.model = m
  right : r'.model = m
  ask : ∀ q, S q → L.Rel (r.ask q) (r'.ask q)
  user : ∀ i, U (.symbol i) → L.Rel (r.user i) (r'.user i)
  userMode : ∀ c, U (.choice c) → L.Rel (r.userMode c) (r'.userMode c)
  userSelection : ∀ c, U (.choice c) → ∀ {β : Type} {f : Option SymbolId → M β}
    {g : Option SymbolId → N β},
    (∀ s, (∀ i, s = some i → S (.visibility i)) → L.Rel (f s) (g s)) →
      L.Rel (r.userSelection c >>= f) (r'.userSelection c >>= g)
  setWritten : ∀ b, V b → L.Rel (r.setWritten b) (r'.setWritten b)
  warn : ∀ x y, (W → L.Rel x y) → L.Rel (r.warn x) (r'.warn y)

attribute [grind ←] Link.pure Link.bind Link.Faults.throw

grind_pattern Linked.ask => L.Rel (r.ask q) (r'.ask q), Linked L m S U V W r r'
grind_pattern Linked.user => L.Rel (r.user i) (r'.user i), Linked L m S U V W r r'
grind_pattern Linked.userMode => L.Rel (r.userMode c) (r'.userMode c), Linked L m S U V W r r'
grind_pattern Linked.setWritten => L.Rel (r.setWritten b) (r'.setWritten b), Linked L m S U V W r r'
grind_pattern Linked.warn => L.Rel (r.warn x) (r'.warn y), Linked L m S U V W r r'

theorem Expr.queries_of_mem_disjuncts {e d : Expr} (hd : d ∈ e.disjuncts) :
    ∀ q ∈ d.queries, q ∈ e.queries := by
  induction e with
  | or a b iha ihb =>
    simp only [disjuncts] at hd
    simp only [queries]
    grind
  | _ =>
    simp only [disjuncts, mem_singleton] at hd
    subst hd
    exact fun _ hq => hq

namespace Linked

variable {L : Link M N} {m : Model} {S : Query → Prop} {U : Item → Prop} {V : Bool → Prop}
  {W : Prop} {r : Readers M} {r' : Readers N} (h : Linked L m S U V W r r') {i : SymbolId} {c : ChoiceId}

include h

theorem number? (ht : S (.tristate i)) (hs : S (.text i)) : L.Rel (r.number? i) (r'.number? i) := by
  simp only [Readers.number?, h.left, h.right]
  grind

grind_pattern number? => L.Rel (r.number? i) (r'.number? i), Linked L m S U V W r r'

variable {e direct : Expr} {a b : SymbolId}

theorem compareTexts (ha : S (.text a)) (hb : S (.text b)) :
    L.Rel (r.compareTexts a b) (r'.compareTexts a b) :=
  L.bind (h.ask _ ha) fun _ => L.map (h.ask _ hb)

grind_pattern compareTexts => L.Rel (r.compareTexts a b) (r'.compareTexts a b), Linked L m S U V W r r'

theorem compareSymbols (hat : S (.tristate a)) (has : S (.text a)) (hbt : S (.tristate b))
    (hbs : S (.text b)) : L.Rel (r.compareSymbols a b) (r'.compareSymbols a b) := by
  simp only [Readers.compareSymbols, h.left, h.right]
  grind

grind_pattern compareSymbols => L.Rel (r.compareSymbols a b) (r'.compareSymbols a b), Linked L m S U V W r r'

theorem value (he : ∀ q ∈ e.queries, S q) : L.Rel (r.value e) (r'.value e) := by
  induction e with
  | item i =>
    cases i with
    | symbol i | choice c => exact h.ask _ (he _ (by simp [queries]))
  | not e ih => exact L.map (ih he)
  | and a b iha ihb | or a b iha ihb =>
    simp only [queries, mem_append] at he
    refine L.bind (iha fun q hq => he q (.inl hq)) fun x => ?_
    grind
  | rel op a b =>
    refine L.map (h.compareSymbols ?_ ?_ ?_ ?_)
    all_goals exact he _ (by simp [queries])

grind_pattern value => L.Rel (r.value e) (r'.value e), Linked L m S U V W r r'

theorem tristateKind (hm : S (.tristate modules)) :
    L.Rel r.tristateKind r'.tristateKind := by
  refine L.bind (h.ask _ hm) fun x => ?_
  split <;> exact L.pure _

grind_pattern tristateKind => L.Rel r.tristateKind r'.tristateKind, Linked L m S U V W r r'

theorem kind (hk : ∀ q ∈ m.kindQueries i, S q) : L.Rel (r.kind i) (r'.kind i) := by
  have hmodules := h.tristateKind (hk _ (by simp [kindQueries]))
  simp only [Readers.kind, h.left, h.right]
  split
  · cases hc : (m.symbol i).choice with
    | none => exact hmodules
    | some c =>
      refine L.bind (h.ask _ (hk _ (by simp [kindQueries, hc]))) fun x => ?_
      grind
  · exact L.pure _

grind_pattern kind => L.Rel (r.kind i) (r'.kind i), Linked L m S U V W r r'

theorem choiceKind (hm : S (.tristate modules)) :
    L.Rel (r.choiceKind c) (r'.choiceKind c) := by
  simp only [Readers.choiceKind, h.left, h.right]
  grind

grind_pattern choiceKind => L.Rel (r.choiceKind c) (r'.choiceKind c), Linked L m S U V W r r'

theorem promptValue {ks : List EntryId} (hks : ∀ q ∈ m.promptQueries ks, S q) (acc : Tristate) :
    L.Rel (r.promptValue ks acc) (r'.promptValue ks acc) := by
  induction ks generalizing acc with
  | nil => exact L.pure _
  | cons k ks ih =>
    simp only [promptQueries, flatMap_cons, mem_append] at hks
    have hrest := ih fun q hq => hks q (.inr hq)
    simp only [Readers.promptValue, h.left, h.right]
    grind

omit h in
@[grind ←]
theorem widened {k : M Kind} {k' : N Kind} (hk : L.Rel k k') (vis : Tristate) :
    L.Rel (widened k vis) (widened k' vis) := by
  simp only [Readers.widened]
  grind

theorem hiddenByMode (hc : S (.mode c)) (vis : Tristate) :
    L.Rel (r.hiddenByMode i c vis) (r'.hiddenByMode i c vis) := by
  simp only [Readers.hiddenByMode, h.left, h.right]
  grind

grind_pattern hiddenByMode => L.Rel (r.hiddenByMode i c vis) (r'.hiddenByMode i c vis), Linked L m S U V W r r'

theorem freshVisibility (hi : ∀ q ∈ m.mayAsk (.visibility i), S q) :
    L.Rel (r.freshVisibility i) (r'.freshVisibility i) := by
  simp only [mayAsk, mem_append] at hi
  have hwidened := widened (h.kind fun q hq => hi q (.inr hq))
  simp only [Readers.freshVisibility, h.left, h.right]
  refine L.bind (h.promptValue (fun q hq => hi q (.inl hq)) _) fun vis => ?_
  cases hc : (m.symbol i).choice with
  | none => exact hwidened vis
  | some c =>
    refine L.bind (h.hiddenByMode (hi _ (.inr (by simp [kindQueries, hc]))) vis) fun b => ?_
    grind

theorem freshChoiceVisibility (hc : ∀ q ∈ m.mayAsk (.choiceVisibility c), S q) :
    L.Rel (r.freshChoiceVisibility c) (r'.freshChoiceVisibility c) := by
  simp only [mayAsk, mem_cons] at hc
  simp only [Readers.freshChoiceVisibility, h.left, h.right]
  exact L.bind (h.promptValue (fun q hq => hc q (.inr hq)) _)
    fun vis => widened (h.choiceKind (hc _ (.inl rfl))) vis

theorem memberValue (hc : S (.selection c)) (hi : U (.symbol i)) (vis : Tristate) :
    L.Rel (r.memberValue i c vis) (r'.memberValue i c vis) := by
  simp only [Readers.memberValue]
  grind

grind_pattern memberValue => L.Rel (r.memberValue i c vis) (r'.memberValue i c vis), Linked L m S U V W r r'

theorem freshMode (hc : ∀ q ∈ m.mayAsk (.mode c), S q) (hu : U (.choice c)) :
    L.Rel (r.freshMode c) (r'.freshMode c) := by
  simp only [mayAsk] at hc
  simp only [Readers.freshMode, h.left, h.right]
  grind

theorem firstVisible {ss : List SymbolId} (hss : ∀ i ∈ ss, S (.visibility i)) :
    L.Rel (r.firstVisible ss) (r'.firstVisible ss) := by
  induction ss with
  | nil => exact L.pure _
  | cons i ss ih =>
    refine L.bind (h.ask _ (hss i mem_cons_self)) fun vis => ?_
    grind

theorem excludesMod
    (hk : ∀ q ∈ m.kindQueries i, S q) (hw : ∀ q ∈ (m.symbol i).weakReverseDep.queries, S q) :
    L.Rel (r.excludesMod i) (r'.excludesMod i) := by
  simp only [Readers.excludesMod, h.left, h.right]
  grind

grind_pattern excludesMod => L.Rel (r.excludesMod i) (r'.excludesMod i), Linked L m S U V W r r'

theorem freshAssignable (hi : ∀ q ∈ m.mayAsk (.assignable i), S q) :
    L.Rel (r.freshAssignable i) (r'.freshAssignable i) := by
  simp only [mayAsk, mem_append] at hi
  simp only [Readers.freshAssignable, h.left, h.right]
  grind

theorem freshChoiceAssignable (hc : ∀ q ∈ m.mayAsk (.choiceAssignable c), S q) :
    L.Rel (r.freshChoiceAssignable c) (r'.freshChoiceAssignable c) := by
  simp only [mayAsk] at hc
  simp only [Readers.freshChoiceAssignable, h.left, h.right]
  grind

theorem activeRange (base : Nat) {rs : List (SymbolId × SymbolId × Expr)}
    (hrs : ∀ x ∈ rs, ∀ q ∈ x.2.2.queries ++ [.text x.1, .text x.2.1], S q) :
    L.Rel (r.activeRange base rs) (r'.activeRange base rs) := by
  induction rs with
  | nil => exact L.pure _
  | cons x rs ih =>
    have hx := hrs x mem_cons_self
    simp only [mem_append] at hx
    have hrest := ih fun y hy => hrs y (mem_cons_of_mem _ hy)
    refine L.bind (h.value fun q hq => hx q (.inl hq)) fun c => ?_
    grind

/-! ### Defaults -/

section

variable [LawfulMonad M] [LawfulMonad N]

theorem bind_activeDefault {ds : List (Expr × Expr)} (hds : ∀ d ∈ ds, ∀ q ∈ d.2.queries, S q)
    {β : Type} {f : Option (Expr × Tristate) → M β} {g : Option (Expr × Tristate) → N β}
    (hnone : L.Rel (f none) (g none))
    (hsome : ∀ d ∈ ds, ∀ c, L.Rel (f (some (d.1, c))) (g (some (d.1, c)))) :
    L.Rel (r.activeDefault ds >>= f) (r'.activeDefault ds >>= g) := by
  induction ds with
  | nil => simpa only [activeDefault, pure_bind] using hnone
  | cons d ds ih =>
    have hrest := ih (fun d' hd' => hds d' (mem_cons_of_mem _ hd'))
      fun d' hd' => hsome d' (mem_cons_of_mem _ hd')
    simp only [activeDefault, bind_assoc]
    grind

theorem activeDefault {ds : List (Expr × Expr)} (hds : ∀ d ∈ ds, ∀ q ∈ d.2.queries, S q) :
    L.Rel (r.activeDefault ds) (r'.activeDefault ds) := by
  simpa only [bind_pure] using h.bind_activeDefault hds (L.pure none) fun d _ c => L.pure (some (d.1, c))

variable (hv : V true) (hi : ∀ d ∈ (m.symbol i).defaults, ∀ q ∈ d.2.queries ++ d.1.queries, S q)

include hv hi

theorem defaultValue : L.Rel (r.defaultValue i) (r'.defaultValue i) := by
  simp only [mem_append] at hi
  simp only [Readers.defaultValue, h.left, h.right]
  refine h.bind_activeDefault (fun d hd q hq => hi d hd q (.inl hq)) (L.pure _) fun d hd c => ?_
  grind

theorem impliedValue (hweak : ∀ q ∈ (m.symbol i).weakReverseDep.queries, S q)
    (hdirect : ∀ q ∈ (m.symbol i).directDep.queries, S q) :
    L.Rel (r.impliedValue i) (r'.impliedValue i) := by
  simp only [Readers.impliedValue, h.left, h.right]
  refine L.bind (h.defaultValue hv hi) fun val => L.bind (h.value hweak) fun weak => ?_
  grind

omit hi in
theorem unselectedValue (hi : ∀ q ∈ m.mayAsk (.tristate i), S q) (hu : U (.symbol i)) (vis : Tristate) :
    L.Rel (r.unselectedValue i vis) (r'.unselectedValue i vis) := by
  simp only [mayAsk, mem_append] at hi
  have himplied := h.impliedValue hv
    (fun d hd q hq => hi q (.inl (.inl (.inl (.inr (List.mem_flatMap.2 ⟨d, hd, hq⟩))))))
    (fun q hq => hi q (.inl (.inl (.inr hq)))) (fun q hq => hi q (.inl (.inr hq)))
  refine L.bind (h.user _ hu) fun u => ?_
  unfold chosenValue
  grind

end

variable [MonadExceptOf Fault M] [MonadExceptOf Fault N] [L.Faults]

theorem defaultText (he : ∀ q ∈ e.symbolQuery .text, S q) :
    L.Rel (r.defaultText e) (r'.defaultText e) := by
  unfold Readers.defaultText
  split
  · exact h.ask _ (he _ (by simp [symbolQuery]))
  · exact Link.Faults.throw _ (by simp)

grind_pattern defaultText => L.Rel (r.defaultText e) (r'.defaultText e), Linked L m S U V W r r'

omit h in
@[grind ←]
theorem numberText (kind : Kind) (n : Int) :
    L.Rel (numberText kind n) (numberText kind n) := by
  unfold Readers.numberText
  grind

theorem clampedText (i : SymbolId) (number : Int) (clamped : String) (low high : Int) :
    L.Rel (r.clampedText i number clamped low high) (r'.clampedText i number clamped low high) := by
  simp only [Readers.clampedText, h.left, h.right]
  grind

grind_pattern clampedText => L.Rel (r.clampedText i number clamped low high) (r'.clampedText i number clamped low high), Linked L m S U V W r r'

theorem intoRange (i : SymbolId) (range : Option (Int × Int)) (given : Option String) :
    L.Rel (r.intoRange i range given) (r'.intoRange i range given) := by
  simp only [Readers.intoRange, h.left, h.right]
  grind

grind_pattern intoRange => L.Rel (r.intoRange i range given) (r'.intoRange i range given), Linked L m S U V W r r'

theorem outsideText (i : SymbolId) (n low high : Int) :
    L.Rel (r.outsideText i n low high) (r'.outsideText i n low high) := by
  simp only [Readers.outsideText, h.left, h.right]
  grind

grind_pattern outsideText => L.Rel (r.outsideText i n low high) (r'.outsideText i n low high), Linked L m S U V W r r'

theorem visibleDefault {ds : List (Expr × Expr)}
    (hds : ∀ d ∈ ds, ∀ q ∈ d.2.queries ++ d.1.symbolQuery .visibility, S q) :
    L.Rel (r.visibleDefault ds) (r'.visibleDefault ds) := by
  induction ds with
  | nil => exact L.pure _
  | cons d ds ih =>
    have hd := hds d mem_cons_self
    have hrest := ih fun d' hd' => hds d' (mem_cons_of_mem _ hd')
    simp only [mem_append] at hd
    refine L.bind (h.value fun q hq => hd q (.inl hq)) fun c => ?_
    split
    · split
      · rename_i s hs
        refine L.bind (h.ask _ (hd _ (.inr (by simp [hs, symbolQuery])))) fun vis => ?_
        grind
      · exact Link.Faults.throw _ (by simp)
    · exact hrest

theorem defaultSelection (hc : ∀ q ∈ m.mayAsk (.selection c), S q) :
    L.Rel (r.defaultSelection c) (r'.defaultSelection c) := by
  simp only [Readers.defaultSelection, h.left, h.right]
  refine L.bind (h.visibleDefault fun d hd q hq => hc q ?_) fun s => ?_
  · exact mem_append_left _ (mem_cons_of_mem _ (List.mem_flatMap.2 ⟨d, hd, hq⟩))
  · split
    · exact L.pure _
    · exact h.firstVisible fun i hi =>
        hc _ (mem_append_right _ (List.mem_map.2 ⟨i, hi, rfl⟩))

theorem freshSelection (hc : ∀ q ∈ m.mayAsk (.selection c), S q) (hu : U (.choice c)) :
    L.Rel (r.freshSelection c) (r'.freshSelection c) := by
  have hdefault := h.defaultSelection hc
  refine L.bind (h.ask _ (hc _ (by simp [mayAsk]))) fun mode => ?_
  split
  · exact L.pure _
  · refine h.userSelection c hu fun s hs => ?_
    grind

/-! ### Warnings about selects -/

theorem selectingText (hd : ∀ q ∈ direct.queries, S q) (he : ∀ q ∈ e.queries, S q)
    (hk : ∀ k, e.conjuncts.headD e = .item (.symbol k) →
      S (.text k) ∧ ∀ q ∈ (m.symbol k).directDep.queries, S q) :
    L.Rel (r.selectingText direct e) (r'.selectingText direct e) := by
  simp only [Readers.selectingText, h.left, h.right]
  refine L.bind (h.value he) fun x => L.bind (h.value hd) fun y => ?_
  split
  · exact L.pure _
  · split
    · rename_i k hhead
      obtain ⟨htext, hdirect⟩ := hk k hhead
      refine L.bind (h.ask _ htext) fun v => L.bind (h.value hdirect) fun d => ?_
      split
      · refine L.map (h.value fun q hq => he q ?_)
        exact mem_append_right _ hq
      · exact L.pure _
    · exact Link.Faults.throw _ (by simp)

variable [LawfulMonad M] [LawfulMonad N]

theorem mapM_selectingText {es : List Expr} (hd : ∀ q ∈ direct.queries, S q)
    (hes : ∀ e ∈ es, (∀ q ∈ e.queries, S q) ∧ ∀ k, e.conjuncts.headD e = .item (.symbol k) →
      S (.text k) ∧ ∀ q ∈ (m.symbol k).directDep.queries, S q) :
    L.Rel (es.mapM (r.selectingText direct)) (es.mapM (r'.selectingText direct)) := by
  induction es with
  | nil => exact L.pure _
  | cons e es ih =>
    obtain ⟨he, hk⟩ := hes e mem_cons_self
    have hrest := ih fun e' he' => hes e' (mem_cons_of_mem _ he')
    simp only [mapM_cons]
    exact L.bind (h.selectingText hd he hk) fun _ => L.map hrest

theorem unsatisfiedText (hd : ∀ q ∈ (m.symbol i).directDep.queries, S q)
    (hr : ∀ q ∈ (m.symbol i).reverseDep.queries, S q) (hs : ∀ q ∈ m.selectQueries i, S q) :
    L.Rel (r.unsatisfiedText i) (r'.unsatisfiedText i) := by
  have hes : ∀ e ∈ (m.symbol i).reverseDep.disjuncts, (∀ q ∈ e.queries, S q) ∧
      ∀ k, e.conjuncts.headD e = .item (.symbol k) →
        S (.text k) ∧ ∀ q ∈ (m.symbol k).directDep.queries, S q := by
    intro e he
    refine ⟨fun q hq => hr q (queries_of_mem_disjuncts he q hq), fun k hk => ?_⟩
    have hmem : ∀ q ∈ .text k :: (m.symbol k).directDep.queries, q ∈ m.selectQueries i := by
      intro q hq
      refine List.mem_flatMap.2 ⟨e, he, ?_⟩
      rw [hk]
      exact hq
    grind
  simp only [Readers.unsatisfiedText, h.left, h.right]
  exact L.bind (h.value hd) fun _ => L.bind (h.value hr) fun _ =>
    L.map (h.mapM_selectingText hd hes)

/-! ### Values -/

section Values

variable (hv : V true)

include hv

section

variable
    (hd : ∀ d ∈ (m.symbol i).defaults, ∀ q ∈ d.2.queries ++ d.1.symbolQuery .text, S q)

include hd

theorem givenDefault : L.Rel (r.givenDefault i) (r'.givenDefault i) := by
  simp only [mem_append] at hd
  simp only [Readers.givenDefault, h.left, h.right]
  refine h.bind_activeDefault (fun d hmem q hq => hd d hmem q (.inl hq)) (L.pure _) fun d hmem c => ?_
  grind

theorem numericDefault (range : Option (Int × Int)) :
    L.Rel (r.numericDefault i range) (r'.numericDefault i range) :=
  L.bind (h.givenDefault hv hd) fun _ => h.intoRange ..

theorem numericText
    (hr : ∀ x ∈ (m.symbol i).ranges, ∀ q ∈ x.2.2.queries ++ [.text x.1, .text x.2.1], S q)
    (hu : U (.symbol i)) (vis : Tristate) : L.Rel (r.numericText i vis) (r'.numericText i vis) := by
  have hdefault := h.numericDefault hv hd
  simp only [Readers.numericText, h.left, h.right]
  refine L.bind (h.activeRange _ hr) fun range => L.bind (h.user _ hu) fun u => ?_
  simp only [chosenNumber, h.left, h.right]
  split
  · grind
  · exact hdefault _

theorem stringText (hu : U (.symbol i)) (vis : Tristate) :
    L.Rel (r.stringText i vis) (r'.stringText i vis) := by
  have hdefault : L.Rel (r.stringDefault i) (r'.stringDefault i) := L.map (h.givenDefault hv hd)
  refine L.bind (h.user _ hu) fun u => ?_
  unfold chosenString
  grind

theorem plainText
    (hr : ∀ x ∈ (m.symbol i).ranges, ∀ q ∈ x.2.2.queries ++ [.text x.1, .text x.2.1], S q)
    (hu : U (.symbol i)) (vis : Tristate) : L.Rel (r.plainText i vis) (r'.plainText i vis) := by
  simp only [Readers.plainText, h.left, h.right]
  split
  · exact h.numericText hv hd hr hu vis
  · exact h.stringText hv hd hu vis

end

/-! ### The rules -/

omit hv in
theorem freshText (hv : ∀ b, V b) (hi : ∀ q ∈ m.mayAsk (.text i), S q) (hu : U (.symbol i)) :
    L.Rel (r.freshText i) (r'.freshText i) := by
  have hr : ∀ x ∈ (m.symbol i).ranges, ∀ q ∈ x.2.2.queries ++ [.text x.1, .text x.2.1], S q :=
    fun x hx q hq => hi q (mem_append_left _ (mem_cons_of_mem _
      (mem_cons_of_mem _ (List.mem_flatMap.2 ⟨x, hx, hq⟩))))
  have hd : ∀ d ∈ (m.symbol i).defaults, ∀ q ∈ d.2.queries ++ d.1.symbolQuery .text, S q :=
    fun d hd q hq => hi q (mem_append_right _ (List.mem_flatMap.2 ⟨d, hd, hq⟩))
  simp only [Readers.freshText, h.left, h.right]
  split
  · exact L.map (h.ask _ (hi _ (by simp [mayAsk])))
  · split
    · exact L.pure _
    · refine L.bind (h.ask _ (hi _ (by simp [mayAsk]))) fun vis =>
        L.bind (h.setWritten _ (hv _)) fun _ => L.bind (h.plainText (hv _) hd hr hu vis) fun t => ?_
      grind

variable (hi : ∀ q ∈ m.mayAsk (.tristate i), S q)

include hi

variable (hw : W → ∀ q ∈ m.selectQueries i, S q)

include hw

theorem selectedValue (val : Tristate) :
    L.Rel (r.selectedValue i val) (r'.selectedValue i val) := by
  simp only [mayAsk, mem_append] at hi
  have hdirect : ∀ q ∈ (m.symbol i).directDep.queries, S q := fun q hq => hi q (.inl (.inr hq))
  have hreverse : ∀ q ∈ (m.symbol i).reverseDep.queries, S q := fun q hq => hi q (.inr hq)
  simp only [Readers.selectedValue, h.left, h.right]
  refine L.bind (h.value hreverse) fun reverse => ?_
  split
  · refine L.bind (h.value hdirect) fun direct => ?_
    split
    · refine L.bind (h.warn _ _ fun w => h.unsatisfiedText hdirect hreverse (hw w)) fun _ => ?_
      exact L.map (h.setWritten _ hv)
    · exact L.map (h.setWritten _ hv)
  · exact L.pure _

theorem plainValue_of_unselected {vis : Tristate}
    (hvis : L.Rel (r.unselectedValue i vis) (r'.unselectedValue i vis)) :
    L.Rel (r.plainValue i vis) (r'.plainValue i vis) := by
  refine L.bind hvis fun val => L.bind (h.selectedValue hv hi hw val) fun val => ?_
  split
  · simp only [mayAsk] at hi
    grind
  · exact L.pure _

theorem plainValue (hu : U (.symbol i)) (vis : Tristate) :
    L.Rel (r.plainValue i vis) (r'.plainValue i vis) :=
  h.plainValue_of_unselected hv hi hw (h.unselectedValue hv hi hu vis)

omit hv in
theorem freshTristate (hv : ∀ b, V b) (hu : U (.symbol i)) :
    L.Rel (r.freshTristate i) (r'.freshTristate i) := by
  simp only [Readers.freshTristate, h.left, h.right]
  split
  · grind
  · refine L.bind (h.ask _ (hi _ (by simp [mayAsk]))) fun vis =>
      L.bind (h.setWritten _ (hv _)) fun _ => ?_
    cases hc : (m.symbol i).choice with
    | none => exact h.plainValue (hv _) hi hw hu vis
    | some c => exact h.memberValue (hi _ (by simp [mayAsk, hc])) hu vis

end Values

/-- A rule does related things in two ways to evaluate that are linked on what it may ask. -/
theorem answer {q : Query} (hq : ∀ p ∈ m.mayAsk q, S p) (hu : U q.item) (hv : q.isValue → ∀ b, V b)
    (hw : W → ∀ p ∈ m.mayMention q, S p) : L.Rel (r.answer q) (r'.answer q) := by
  cases q with
  | tristate i => exact h.freshTristate hq hw (hv rfl) hu
  | text i => exact h.freshText (hv rfl) hq hu
  | visibility i => exact h.freshVisibility hq
  | assignable i => exact h.freshAssignable hq
  | mode c => exact h.freshMode hq hu
  | choiceVisibility c => exact h.freshChoiceVisibility hq
  | selection c => exact h.freshSelection hq hu
  | choiceAssignable c => exact h.freshChoiceAssignable hq

end Linked

end Buildsmith.Kconfig
