import Buildsmith.Kconfig.ConfigFile
import Buildsmith.Proofs.Assignment.Operations
import Buildsmith.Proofs.Session.Preservation

/-!
# Loading configuration files

A property of values that the steps of loading keep is kept by loading a configuration file, whatever
the file says and however the loading ends (`KeptByLoading.loadConfig`).  So is a property that every
operation on values keeps.
-/

namespace Buildsmith.Kconfig

theorem runFrom_evaluating_eq {α : Type} (x : EvalM α) (s : Session) :
    runFrom (evaluating x) s = ((x.runOn s.model s.values).1, { s with
        values := { (x.runOn s.model s.values).2 with warnings := [] }
        reading := (x.runOn s.model s.values).2.warnings.foldl
          (fun r w => r.log ("warning: " ++ w)) s.reading }) := by
  rw [evaluating, runFrom_bind_ok runFrom_get]
  rcases hrun : ((x.run s.model).run).run s.values with ⟨r, v⟩
  have hrun' : x.runOn s.model s.values = (r, v) := hrun
  simp only [hrun']
  cases r <;> rfl

variable {m : Model} {P : Values → Prop} {α : Type}

/-- A property of values that every operation on values keeps. -/
structure Kept (m : Model) (P : Values → Prop) : Prop where
  warned : ∀ v ws, P v → P { v with warnings := ws }
  same : ∀ v v', SameMemory v v' → v'.assigned = v.assigned → P v → P v'
  answerTo : ∀ q v, P v → P ((answerTo q).runOn m v).2
  setSymbol : ∀ warns i o v, P v → P ((setSymbol warns i o).runOn m v).2
  setChoice : ∀ c o v, P v → P ((setChoice c o).runOn m v).2
  unsetSymbol : ∀ warns i v, P v → P ((unsetSymbol warns i).runOn m v).2
  unsetChoice : ∀ c v, P v → P ((unsetChoice c).runOn m v).2

/-- What stays the same in a session while values are assigned and read: all but the values, what was
assigned to undefined symbols, and what was reported. -/
def Session.setting (s : Session) : Session :=
  { s with
    reading := { s.reading with
      warnings := #[], workspace := { s.reading.workspace with out := "", err := "" } }
    values := {}
    missing := [] }

/-- A session in the same setting as another one, whose values have a property. -/
structure Session.Over (S : Session) (P : Values → Prop) (s : Session) : Prop where
  setting : s.setting = S.setting
  values : P s.values

theorem Session.eq_of_setting {S s : Session} {f : Session → α} (h : s.setting = S.setting)
    (hf : ∀ t, f t.setting = f t := by exact fun _ => rfl) : f s = f S := by
  rw [← hf s, h, hf]

theorem Session.Over.model {S s : Session} (h : S.Over P s) : s.model = S.model :=
  eq_of_setting h.setting

theorem Session.Over.lead_eq {S s : Session} (h : S.Over P s) :
    s.reading.symbolLead = S.reading.symbolLead :=
  eq_of_setting (f := (·.reading.symbolLead)) h.setting

theorem Session.Over.encoding_eq {S s : Session} (h : S.Over P s) :
    s.reading.encoding = S.reading.encoding :=
  eq_of_setting (f := (·.reading.encoding)) h.setting

/-! ## Computations of values -/

/-- Whether a computation of values keeps a property, whatever its outcome. -/
def EvalM.Keeps (m : Model) (P : Values → Prop) (x : EvalM α) : Prop :=
  ∀ v, P v → P (x.runOn m v).2

namespace EvalM.Keeps

variable {β : Type} {x : EvalM α} {f : α → EvalM β}

theorem pure (a : α) : Keeps m P (Pure.pure a) := fun _ h => h

theorem bind (hx : Keeps m P x) (hf : ∀ a, Keeps m P (f a)) : Keeps m P (x >>= f) := by
  have hbind : Preserves P (x.run m >>= fun a => (f a).run m) :=
    (preserves_iff.2 hx).bind fun a => preserves_iff.2 (hf a)
  exact preserves_iff.1 hbind

theorem forIn {xs : List β} {f : β → PUnit → EvalM (ForInStep PUnit)}
    (hf : ∀ x ∈ xs, ∀ a, Keeps m P (f x a)) (a : PUnit) : Keeps m P (ForIn.forIn xs a f) := by
  induction xs generalizing a with
  | nil => exact pure a
  | cons x xs ih =>
    rw [List.forIn_cons]
    refine bind (hf x List.mem_cons_self a) fun step => ?_
    cases step with
    | done a => exact pure a
    | yield a => exact ih (fun y hy => hf y (List.mem_cons_of_mem _ hy)) a

end EvalM.Keeps

namespace Kept

/-- The unary relation of keeping a property, as a link of evaluation with itself. -/
def link (m : Model) (P : Values → Prop) : Link RuleM RuleM where
  Rel x _ := ∀ s, EvalM.Keeps m P (x.run s)
  pure a s := .pure (a, s)
  bind hx hf s := (hx s).bind fun p => hf p.1 p.2

instance {P : Values → Prop} : (link m P).Faults := ⟨fun _ _ _ _ h => h⟩

theorem linked_evaluating {ask : (q : Query) → EvalM q.Answer}
    (hwarned : ∀ v ws, P v → P { v with warnings := ws }) (hask : ∀ q, EvalM.Keeps m P (ask q)) :
    Linked (link m P) m (fun _ => True) (fun _ => True) (fun _ => True) True
      (.evaluating m ask) (.evaluating m ask) where
  left := rfl
  right := rfl
  ask q _ s := .bind (hask q) fun a => .pure (a, s)
  user _ _ _ _ hv := hv
  userMode _ _ _ _ hv := hv
  userSelection c _ _ f g hfg s v hv := hfg (v.choice c).userSelection (fun _ _ => trivial) s v hv
  setWritten _ _ _ _ hv := hv
  warn x _ hxy s := by
    have htext : EvalM.Keeps m P (x.run' none >>= evalWarn) := by
      refine .bind ?_ fun text v hv => hwarned v _ hv
      exact .bind (hxy trivial none) fun p => .pure p.1
    exact .bind htext fun _ => .pure ((), s)

theorem answerWithin (hwarned : ∀ v ws, P v → P { v with warnings := ws })
    (hremember : ∀ v w q a, P v → P (v.remember w q a)) (n : Nat) (q : Query) :
    EvalM.Keeps m P (answerWithin m n q) := by
  induction n generalizing q with
  | zero => exact fun _ hv => hv
  | succ n ih =>
    have hrule := (linked_evaluating hwarned ih).answer (q := q) (fun _ _ => trivial) trivial
      (fun _ _ => trivial) (fun _ _ _ => trivial)
    refine .bind (fun _ hv => hv) fun v => ?_
    split
    · exact .pure _
    · exact .bind (hrule none) fun p =>
        .bind (fun v hv => hremember v p.2 q p.1 hv) fun _ => .pure _

theorem unsetAll (h : Kept m P) : EvalM.Keeps m P unsetAll := by
  refine .bind (fun _ hv => hv) fun m' => ?_
  refine .bind (.forIn (fun i _ _ => ?_) _) fun _ => ?_
  · exact .bind (h.unsetSymbol false i) fun _ => .pure _
  · refine .bind (.forIn (fun c _ _ => ?_) _) fun _ => .pure _
    exact .bind (h.unsetChoice c) fun _ => .pure _

theorem unsetOthers (h : Kept m P) : EvalM.Keeps m P unsetOthers := by
  refine .bind (fun _ hv => hv) fun m' => ?_
  refine .bind (.forIn (fun i _ _ => ?_) _) fun _ => ?_
  · refine .bind (fun _ hv => hv) fun x => ?_
    split
    · exact .bind (h.unsetSymbol false i) fun _ => .pure _
    · exact .pure _
  · refine .bind (.forIn (fun c _ _ => ?_) _) fun _ => .pure _
    refine .bind (fun _ hv => hv) fun x => ?_
    split
    · exact .bind (h.unsetChoice c) fun _ => .pure _
    · exact .pure _

theorem withReaders {f : Readers RuleM → RuleM α}
    (hf : (link m P).Rel (f (.evaluating m Kconfig.answerTo)) (f (.evaluating m Kconfig.answerTo))) :
    EvalM.Keeps m P (withReaders f) :=
  fun v => EvalM.Keeps.bind (hf none) (fun p => .pure p.1) v

theorem foldl_same
    (h : Kept m P) {ι : Type} {step : Values → ι → Values} (is : List ι) {v : Values} (hv : P v)
    (hstep : ∀ v i, SameMemory v (step v i) ∧ (step v i).assigned = v.assigned) :
    P (is.foldl step v) := by
  induction is generalizing v with
  | nil => exact hv
  | cons i is ih =>
    obtain ⟨hsame, hassigned⟩ := hstep v i
    exact ih (h.same _ _ hsame hassigned hv)

theorem clearWasSet (h : Kept m P) {v : Values} (hv : P v) : P (v.clearWasSet m) := by
  refine h.foldl_same _ (h.foldl_same _ hv fun v i => ?_) fun v c => ?_
  · refine ⟨sameMemory_modifySymbol v i fun _ => ⟨rfl, rfl, rfl, rfl, rfl⟩, ?_⟩
    simp [Values.assigned, Values.symbol_modifySymbol, apply_ite SymbolState.user]
  · refine ⟨sameMemory_modifyChoice v c fun _ => ⟨rfl, rfl, rfl⟩, ?_⟩
    simp [Values.assigned, Values.choice_modifyChoice, apply_ite ChoiceState.user,
      apply_ite ChoiceState.userSelection]

end Kept

/-! ## What the steps of loading keep -/

/-- A property of values that the steps of loading a file keep. -/
structure KeptByLoading (m : Model) (P : Values → Prop) : Prop where
  warned : ∀ v ws, P v → P { v with warnings := ws }
  answerTo : ∀ q v, P v → P ((answerTo q).runOn m v).2
  setSymbol : ∀ i t v, P v → P ((setSymbol false i (.text t)).runOn m v).2
  setChoice : ∀ c t v, P v → P ((setChoice c (.text t)).runOn m v).2
  clearWasSet : ∀ v, P v → P (v.clearWasSet m)
  unsetOthers : EvalM.Keeps m P unsetOthers

theorem Kept.byLoading (h : Kept m P) : KeptByLoading m P where
  warned := h.warned
  answerTo := h.answerTo
  setSymbol i t := h.setSymbol false i (.text t)
  setChoice c t := h.setChoice c (.text t)
  clearWasSet _ hv := h.clearWasSet hv
  unsetOthers := h.unsetOthers

variable {S : Session}

namespace Kept

theorem setting_log (s : Session) (text : String) :
    Session.setting { s with reading := s.reading.log text } = s.setting := by
  unfold Reading.log
  split
  · split <;> rfl
  · rfl

theorem setting_foldl_log (ws : List String) (s : Session) : Session.setting { s with
      reading := ws.foldl (fun r w => r.log ("warning: " ++ w)) s.reading } = s.setting := by
  induction ws generalizing s with
  | nil => rfl
  | cons w ws ih =>
    exact (ih { s with reading := s.reading.log ("warning: " ++ w) }).trans (setting_log s _)

end Kept

namespace KeptByLoading

theorem linked (h : KeptByLoading m P) :
    Linked (Kept.link m P) m (fun _ => True) (fun _ => True) (fun _ => True) True
      (.evaluating m Kconfig.answerTo) (.evaluating m Kconfig.answerTo) :=
  Kept.linked_evaluating h.warned h.answerTo

theorem exprValue (h : KeptByLoading m P) (e : Expr) : EvalM.Keeps m P (exprValue e) :=
  Kept.withReaders (h.linked.value fun _ _ => trivial)

theorem defaultText (h : KeptByLoading m P) (e : Expr) :
    EvalM.Keeps m P (Kconfig.withReaders (·.defaultText e)) :=
  Kept.withReaders (h.linked.defaultText fun _ _ => trivial)

/-! ## Sessions -/

theorem evaluating (h : KeptByLoading S.model P) {x : EvalM α} (hx : EvalM.Keeps S.model P x) :
    Preserves (Session.Over S P) (evaluating x) := by
  refine preserves_iff.2 fun s hs => ?_
  have hv : P (x.runOn s.model s.values).2 := hs.model ▸ hx s.values hs.values
  rw [runFrom_evaluating_eq]
  exact ⟨(Kept.setting_foldl_log _ s).trans hs.setting, h.warned _ _ hv⟩

theorem sessionWarn (place : Option (String × Nat)) (text : String) :
    Preserves (Session.Over S P) (sessionWarn place text) :=
  .modify fun s hs => ⟨(Kept.setting_log s _).trans hs.setting, hs.values⟩

theorem noteMissing (place : String × Nat) (name value : Option String) :
    Preserves (Session.Over S P) (noteMissing place name value) := by
  refine .bind (R := fun _ => S.Over P) (.modify fun _ hs => ⟨hs.setting, hs.values⟩) fun _ => ?_
  refine .get_bind' fun s => ?_
  exact .ite (fun _ => sessionWarn _ _) fun _ => .keep

theorem noteRepeated (place : String × Nat) (i : SymbolId) (value : String) :
    Preserves (Session.Over S P) (noteRepeated place i value) := by
  refine .get_bind' fun s => ?_
  have hwarn : ∀ (c : Prop) [Decidable c] text, Preserves (Session.Over S P)
      (if c then Kconfig.sessionWarn (some place) text else pure ()) :=
    fun c _ text => .ite (fun _ => sessionWarn _ _) fun _ => .keep
  split
  · exact hwarn _ _
  · exact hwarn _ _
  · exact .ite (fun _ => (Preserves.throw _).bind fun _ => hwarn _ _) fun _ => hwarn _ _

section

variable (h : KeptByLoading S.model P)

include h

variable (place : String × Nat) (path : String) (Q : Session → Prop) (i : SymbolId) (value : String)

theorem assignFromFile : Preserves (Session.Over S P) (assignFromFile place i value) := by
  have hset := (h.evaluating (h.setSymbol i value)).discard
  refine .get_bind' fun s => ?_
  exact .ite (fun _ => (noteRepeated _ _ _).bind fun _ => hset) fun _ => hset

theorem assignLogical : Preserves (Session.Over S P) (assignLogical place i value) := by
  refine .get_bind' fun s => ?_
  refine .ite (fun _ => sessionWarn _ _) fun _ => ?_
  have hassign := h.assignFromFile place i (Text.takeFirst 1 value)
  refine .ite (fun _ => ?_) fun _ => hassign
  cases (s.model.symbol i).choice with
  | none => exact hassign
  | some c =>
    dsimp only
    have hmode := (h.evaluating (h.setChoice c (Text.takeFirst 1 value))).discard
    have hrest := hmode.bind fun _ => hassign
    cases (s.values.choice c).user with
    | none => exact hrest
    | some mode => exact .ite (fun _ => (sessionWarn _ _).bind fun _ => hrest) fun _ => hrest

theorem loadLine (line : String) : Preserves (Session.Over S P) (loadLine place line) := by
  refine .get_bind' fun s => ?_
  refine .bind (R := fun _ => S.Over P) (preserves_iff.2 fun _ hs => hs) fun found => ?_
  cases found with
  | set name value =>
    dsimp only
    cases s.definedSymbol? name with
    | none => exact noteMissing _ _ _
    | some i =>
      refine .ite (fun _ => h.assignLogical _ _ _) fun _ => ?_
      refine .ite (fun _ => ?_) fun _ => h.assignFromFile _ _ _
      cases Text.Quoted.literalBody? (value.getD "") with
      | none => exact sessionWarn _ _
      | some body => exact h.assignFromFile _ _ _
  | unset name =>
    dsimp only
    cases s.definedSymbol? name with
    | none => exact noteMissing _ _ _
    | some i => exact .ite (fun _ => h.assignFromFile _ _ _) fun _ => .keep
  | other => exact .ite (fun _ => sessionWarn _ _) fun _ => .keep

theorem loadLines (n : Nat) (lines : List String) :
    Preserves (Session.Over S P) (loadLines path n lines) := by
  induction lines generalizing n with
  | nil => exact .keep
  | cons l ls ih => exact (h.loadLine _ _).bind fun _ => ih (n + 1)

omit h in
theorem openConfig : Preserves Q (openConfig path) := by
  refine .get_bind' fun s => ?_
  split
  · exact .keep
  · exact .throw fun _ h => h
  · dsimp only
    split
    · exact .keep
    · exact .throw fun _ h => h
    · exact .throw fun _ h => h

theorem loadFrom (replaces : Bool) : Preserves (Session.Over S P) (loadFrom path replaces) := by
  have hothers := h.evaluating h.unsetOthers
  have hclear : Preserves (Session.Over S P) (modify fun s =>
      { s with missing := [], values := s.values.clearWasSet s.model } : SessionM PUnit) :=
    .modify fun s hs => ⟨hs.setting, hs.model ▸ h.clearWasSet _ hs.values⟩
  refine .bind (openConfig _ _) fun opened => ?_
  have hrest : Preserves (Session.Over S P) (loadBytes path replaces opened.2) := by
    refine .get_bind' fun s => ?_
    refine (h.loadLines _ _ _).bind fun _ => ?_
    have hlast : Preserves (Session.Over S P)
        (if replaces then Kconfig.evaluating Kconfig.unsetOthers else pure ⟨⟩) :=
      .ite (fun _ => hothers) fun _ => .keep
    cases (Text.decodeFile s.reading.encoding opened.2).fault with
    | some f => exact (Preserves.throw _).bind fun _ => hlast
    | none => exact hlast
  exact .ite (fun _ => hclear.bind fun _ => hrest) fun _ => hrest

omit h in
theorem openablePath? : Preserves Q (openablePath? path) := by
  refine .tryCatch ((openConfig _ _).bind fun _ => .keep) fun f => ?_
  split
  · exact .keep
  · exact .throw fun _ h => h

theorem firstDefconfig (candidates : List (Expr × Expr)) :
    Preserves (Session.Over S P) (firstDefconfig candidates) := by
  induction candidates with
  | nil => exact .keep
  | cons candidate rest ih =>
    refine (h.evaluating (h.exprValue _)).bind fun cond => ?_
    refine .ite (fun _ => ih) fun _ => ?_
    refine (h.evaluating (h.defaultText _)).bind fun path => ?_
    refine (openablePath? _ _).bind fun opened => ?_
    cases opened with
    | some p => exact .keep
    | none => exact ih

theorem defconfigName : Preserves (Session.Over S P) defconfigName := by
  refine .bind ?_ fun candidates => h.firstDefconfig candidates
  refine .get_bind' fun s => ?_
  dsimp only
  split
  · exact .keep
  · exact .keep
  · exact .keep
  · exact .throw fun _ h => h

/-- Loading a configuration file keeps a property that its steps keep. -/
theorem loadConfig (path : Option String) (replaces : Bool) :
    Preserves (Session.Over S P) (loadConfig path replaces) := by
  refine .get_bind' fun s => ?_
  cases path with
  | some p => exact (h.loadFrom _ _).bind fun _ => .keep
  | none =>
    refine .get_bind' fun s' => ?_
    refine .ite (fun _ => (h.loadFrom _ _).bind fun _ => .keep) fun _ => ?_
    refine h.defconfigName.bind fun found => ?_
    cases found with
    | none => exact .keep
    | some d => exact (h.loadFrom _ _).bind fun _ => .keep

end

end KeptByLoading

namespace Kept

theorem evaluating (h : Kept S.model P) {x : EvalM α} (hx : EvalM.Keeps S.model P x) :
    Preserves (Session.Over S P) (evaluating x) :=
  h.byLoading.evaluating hx

theorem loadConfig (h : Kept S.model P) (path : Option String) (replaces : Bool) :
    Preserves (Session.Over S P) (loadConfig path replaces) :=
  h.byLoading.loadConfig path replaces

end Kept

end Buildsmith.Kconfig
