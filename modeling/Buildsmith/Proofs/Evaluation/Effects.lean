import Buildsmith.Kconfig.Sync
import Buildsmith.Proofs.Evaluation.Condensing
import Buildsmith.Proofs.Session.Loading

/-!
# What builds see of symbols

A build sees nothing of a symbol that is not written or is a truth value `n`, and sees the value of
every other symbol.  In all coherent states over what is assigned this is the same.  A symbol has
changed exactly if what is seen of it differs from the value of the previous build, and the list of
values has a line for each symbol of which something is seen.
-/

namespace Buildsmith.Kconfig

variable {m : Model} {u : Assigned} {i : SymbolId} {val : String} {b : Bool}

namespace Model

/-- What a build sees of a symbol that is written or not and has some value. -/
def effect (m : Model) (i : SymbolId) (isWritten : Bool) (val : String) : Option String :=
  if isWritten && !((m.symbol i).kind.isLogical && val = "n") then some val else none

/-- The line of a symbol in the list of values, given what a build sees of the symbol. -/
def effectLine (m : Model) (lead : String) (i : SymbolId) : Option String → String
  | none => ""
  | some val => m.lineFor lead i val

theorem Means.tristate_of_text
    {K : Item → Prop} {w : Option Bool} (hl : (m.symbol i).kind.isLogical)
    (h : m.Means u K (.text i) val w) : ∃ x w', m.Means u K (.tristate i) x w' ∧ val = x.letter := by
  cases h with
  | fixed hf =>
    simp only [fixed?, hl, if_true, Option.map_eq_some_iff] at hf
    obtain ⟨a, ha, hval⟩ := hf
    cases hval
    exact ⟨a.1, a.2, .fixed ha, rfl⟩
  | rule t ws _ _ hmeans hinfer =>
    obtain ⟨x, hx, hval⟩ := (infer_text_of_logical hl).1 hinfer
    cases hval
    exact ⟨x, _, hmeans _ _ hx, rfl⟩

/-- Whether a symbol has a value, and is written or not, in a coherent state that remembers this. -/
def Appears (m : Model) (u : Assigned) (i : SymbolId) (val : String) (b : Bool) : Prop :=
  ∃ v, Coherent m u v ∧ v.recalled? (.text i) = some val ∧ (v.symbol i).isWritten = b

theorem Appears.unique (h : m.Appears u i val b) {val' : String} {b' : Bool}
    (h' : m.Appears u i val' b') : val = val' ∧ b = b' := by
  obtain ⟨v, hv, hval, rfl⟩ := h
  obtain ⟨v', hv', hval', rfl⟩ := h'
  obtain ⟨w, hw, -⟩ := hv.means _ _ hval
  obtain ⟨w', hw', -⟩ := hv'.means _ _ hval'
  refine ⟨(hw.unique hw').1, hv.isWritten_eq hv' ?_ ?_⟩
  · exact fun _ => by simp [hval]
  · exact fun _ => by simp [hval']

theorem Appears.eq_letter
    (h : m.Appears u i val b) (hl : (m.symbol i).kind.isLogical) {K : Item → Prop}
    {x : Tristate} {w : Option Bool} (hx : m.Means u K (.tristate i) x w) : val = x.letter := by
  obtain ⟨v, hv, hval, -⟩ := h
  obtain ⟨_, hw, -⟩ := hv.means _ _ hval
  obtain ⟨x', _, hx', rfl⟩ := hw.tristate_of_text hl
  rw [(hx'.unique hx).1]

def HasEffect (m : Model) (u : Assigned) (i : SymbolId) (o : Option String) : Prop :=
  ∃ val b, m.Appears u i val b ∧ m.effect i b val = o

theorem HasEffect.unique
    {o o' : Option String} (h : m.HasEffect u i o) (h' : m.HasEffect u i o') : o = o' := by
  obtain ⟨val, b, happears, rfl⟩ := h
  obtain ⟨val', b', happears', rfl⟩ := h'
  obtain ⟨rfl, rfl⟩ := happears.unique happears'
  rfl

theorem HasEffect.ne_no {o : Option String} (h : m.HasEffect u i o)
    (hl : (m.symbol i).kind.isLogical) : o ≠ some "n" := by
  obtain ⟨val, b, -, rfl⟩ := h
  unfold effect
  split
  · rename_i hwritten
    simp only [hl, Bool.and_eq_true]
      at hwritten
    simpa using hwritten.2
  · exact nofun

end Model

/-- What a build sees of a symbol: nothing if the symbol is not written or is a truth value `n`, and
its value otherwise. -/
def effectOf (i : SymbolId) : EvalM (Option String) := do
  let val ← symbolText i
  let x ← symbolState i
  return (← read).effect i x.isWritten val

/-- A coherent state that holds the values of the previous build. -/
structure Recollects (m : Model) (u : Assigned) (old : SymbolId → Option String) (v : Values) :
    Prop where
  coherent : Coherent m u v
  old : ∀ i ∈ m.uniqueDefined, (v.symbol i).oldText = old i

namespace Recollects

variable {old : SymbolId → Option String} {α : Type}

theorem warned {v : Values} (h : Recollects m u old v) (ws : List String) :
    Recollects m u old { v with warnings := ws } :=
  ⟨h.coherent.warned ws, h.old⟩

theorem oldText_remember (v : Values) (w : Option Bool) (q : Query) (a : q.Answer) (i : SymbolId) :
    ((v.remember w q a).symbol i).oldText = (v.symbol i).oldText := by
  cases q <;> simp only [Values.remember, Values.symbol_modifySymbol, Values.symbol_modifyChoice]
  all_goals
    split
    · rfl
    · rfl

theorem ensures_answerTo (q : Query) :
    EvalM.Ensures m (Recollects m u old) (answerTo q) fun a => ∃ K w, m.Means u K q a w := by
  intro v a v' hv hrun
  have hkeeps : ∀ i, EvalM.Keeps m (fun v' => (v'.symbol i).oldText = (v.symbol i).oldText)
      (answerTo q) := by
    intro i x hx
    rw [runOn_answerTo]
    refine Kept.answerWithin (P := fun v' => (v'.symbol i).oldText = (v.symbol i).oldText)
      (fun _ _ h => h) (fun y w p b hy => ?_) _ q x hx
    rw [oldText_remember, hy]
  obtain ⟨r, x, hrun', hx, hfound⟩ := answers_answerWithin m.readDepth q v hv.coherent
  rw [← runOn_answerTo, hrun] at hrun'
  cases hrun'
  obtain ⟨w, hw⟩ := (hfound a rfl).means
  refine ⟨⟨hx, fun i hi => ?_⟩, _, w, hw⟩
  have hold := hkeeps i v rfl
  rw [hrun] at hold
  exact hold.trans (hv.old i hi)

section

variable {o : Option String} (hi : i ∈ m.uniqueDefined) (hhas : m.Has (.symbol i))
  (ho : m.HasEffect u i o)

include hi hhas ho

omit ho in
theorem ensures_symbolText_bind {f : String → SymbolState → EvalM α} {R : α → Prop}
    (hf : ∀ val x, m.Appears u i val x.isWritten → x.oldText = old i →
      EvalM.Ensures m (Recollects m u old) (f val x) R) : EvalM.Ensures m (Recollects m u old)
      (symbolText i >>= fun val => symbolState i >>= fun x => f val x) R := by
  intro v a v' hv hrun
  rw [EvalM.runOn_bind] at hrun
  split at hrun
  · rename_i val x hfirst
    obtain ⟨hx, -⟩ := ensures_answerTo (.text i) v val x hv hfirst
    rw [EvalM.runOn_bind, EvalM.runOn_symbolState] at hrun
    refine hf val (x.symbol i) ⟨x, hx.coherent, ?_, rfl⟩ (hx.old i hi) x a v' hx hrun
    obtain ⟨r, y, hrun', hy, hfound⟩ := answers_answerWithin m.readDepth (.text i) v hv.coherent
    have hfirst' : (answerTo (.text i)).runOn m v = (.ok val, x) := hfirst
    rw [← runOn_answerTo, hfirst'] at hrun'
    cases hrun'
    obtain ⟨⟨w, hw⟩, hrecalled⟩ := hfound val rfl
    obtain ⟨val', hval'⟩ := Option.isSome_iff_exists.1
      (hrecalled ((hy.has_iff _).2 hhas) fun c => by simp)
    obtain ⟨w', hw', -⟩ := hy.means _ _ hval'
    rw [hval', (hw.unique hw').1]
  · cases hrun

omit ho in
theorem ensures_effectOf : EvalM.Ensures m (Recollects m u old) (effectOf i) (m.HasEffect u i) := by
  refine ensures_symbolText_bind hi hhas fun val x hx _ => ?_
  exact .read_bind (.pure ⟨val, _, hx, rfl⟩)

theorem ensures_hasChanged (hold : (m.symbol i).kind.isLogical → old i ≠ some "n") :
    EvalM.Ensures m (Recollects m u old) (hasChanged i) (· = decide (o ≠ old i)) := by
  refine ensures_symbolText_bind hi hhas fun val x hx hxold => ?_
  have heffect : m.effect i x.isWritten val = o :=
    Model.HasEffect.unique ⟨val, _, hx, rfl⟩ ho
  rw [hxold, ← heffect]
  cases hprevious : old i with
  | none =>
    refine .read_bind (.pure ?_)
    simp only [Model.effect]
    split <;> simp_all
  | some previous =>
    refine .pure ?_
    simp only [Model.effect]
    split <;> grind

omit ho in
theorem ensures_configLine (lead : String) :
    EvalM.Ensures m (Recollects m u old) (configLine lead i) fun line =>
      ∃ val b, m.Appears u i val b ∧ line = if b then m.lineFor lead i val else "" := by
  refine .read_bind (ensures_symbolText_bind hi hhas fun val x hx _ => ?_)
  cases hwritten : x.isWritten with
  | false => exact .pure ⟨val, false, hwritten ▸ hx, rfl⟩
  | true =>
    have happears : m.Appears u i val true := hwritten ▸ hx
    simp only [Bool.not_true, Bool.false_eq_true, if_false]
    split
    all_goals
      split
      all_goals exact .pure ⟨val, true, happears, by simp [Model.lineFor, *]⟩

theorem ensures_valueLine (lead : String) :
    EvalM.Ensures m (Recollects m u old) (do
      if ((← read).symbol i).kind.isLogical then
        if (← symbolTristate i) = .no then return ""
      configLine lead i) (· = m.effectLine lead i o) := by
  obtain ⟨val, b, happears, rfl⟩ := ho
  have hline : ((m.symbol i).kind.isLogical → val ≠ "n") →
      EvalM.Ensures m (Recollects m u old) (configLine lead i)
        (· = m.effectLine lead i (m.effect i b val)) := by
    rintro hn v line v' hv hrun
    obtain ⟨hv', val', b', happears', rfl⟩ := ensures_configLine hi hhas lead v line v' hv hrun
    obtain ⟨rfl, rfl⟩ := happears.unique happears'
    refine ⟨hv', ?_⟩
    cases b with
    | false => rfl
    | true =>
      have heffect : m.effect i true val = some val := by
        exact if_pos (by grind)
      rw [heffect]
      rfl
  refine .read_bind ?_
  cases hl : (m.symbol i).kind.isLogical with
  | false =>
    exact hline (by simp [hl])
  | true =>
    refine (ensures_answerTo (.tristate i)).bind fun x hx => ?_
    obtain ⟨K, w, hx⟩ := hx
    have hval := happears.eq_letter hl hx
    by_cases hno : x = .no
    · rw [if_pos hno]
      refine .pure ?_
      rw [hval, hno]
      simp [Model.effect, Model.effectLine, hl, Tristate.letter]
    · rw [if_neg hno]
      refine hline fun _ => ?_
      rw [hval]
      cases x with
      | no => exact absurd rfl hno
      | mod | yes => decide

end

theorem ensures_valuesText
    {out : SymbolId → Option String} (hhas : ∀ i ∈ m.uniqueDefined, m.Has (.symbol i))
    (hout : ∀ i ∈ m.uniqueDefined, m.HasEffect u i (out i)) (lead : String) :
    EvalM.Ensures m (Recollects m u old) (valuesText lead)
      (· = String.join (m.uniqueDefined.map fun i => m.effectLine lead i (out i))) := by
  have hlines := EvalM.Ensures.mapM (m := m) (I := Recollects m u old)
    fun i (hi : i ∈ m.uniqueDefined) => ensures_valueLine hi (hhas i hi) (hout i hi) lead
  refine .read_bind (hlines.bind fun lines hforall => .pure ?_)
  have hmap : lines = m.uniqueDefined.map fun i => m.effectLine lead i (out i) := by
    generalize m.uniqueDefined = is at hforall ⊢
    induction hforall with
    | nil => rfl
    | cons h _ ih => rw [List.map_cons, h, ih]
  rw [hmap]

end Recollects

end Buildsmith.Kconfig
