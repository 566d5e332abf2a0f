import Buildsmith.Proofs.Evaluation.Reentry
import Buildsmith.Proofs.Session.Entering
import Buildsmith.Proofs.Session.Exclusivity

/-!
# Loading that replaces

A load that replaces what was assigned notes what the file sets, and takes back all else.  What is
then on record depends on the file alone, with one exception: a choice that the file gives a mode
but no selection keeps the selection that it had (`replacing_load`).
-/

namespace Buildsmith.Kconfig

open Ledger

/-! ## Records along a load -/

/-- A symbol that counts as set in both records has the same value in both. -/
structure Ledger.TrailsSymbol (L L' : Ledger) (i : SymbolId) : Prop where
  isSet : L'.isSet i = L.isSet i
  user : L.isSet i = true → L'.user i = L.user i

/-- A choice that counts as set in both records has the same mode in both.  It has the same
selection, or the first record has none and the second one that of the past.  In the first record it
is set exactly if it has a mode or a selection. -/
structure Ledger.TrailsChoice (past : Option SymbolId) (L L' : Ledger) (c : ChoiceId) : Prop where
  choiceSet : L'.choiceSet c = L.choiceSet c
  mode : L.choiceSet c = true → L'.mode c = L.mode c
  selection : L'.selection c = (L.selection c).or past
  chosen : L.choiceSet c = ((L.mode c).isSome || (L.selection c).isSome)

/-- The record `L'` of a load in a session with a past, beside the record `L` of the same load in a
new session.  `past` are the selections that the past has left. -/
structure Ledger.Trails (m : Model) (past : ChoiceId → Option SymbolId) (L L' : Ledger) : Prop where
  symbols : ∀ i ∈ m.uniqueDefined, TrailsSymbol L L' i
  choices : ∀ c ∈ m.uniqueChoices, TrailsChoice (past c) L L' c
  /-- A choice without truth values has no mode. -/
  refuses : ∀ c, (m.choice c).kind.isLogical = false → L.mode c = none ∧ L'.mode c = none

namespace Ledger.Trails

variable {m : Model} {past : ChoiceId → Option SymbolId} {L L' : Ledger}

section

variable (h : Trails m past L L')

include h

theorem enter (e : SymbolId × String) : Trails m past (L.enter m e) (L'.enter m e) := by
  obtain ⟨i, t⟩ := e
  have hrefused : ∀ c, (m.choice c).kind.isLogical = false → (m.choice c).accepts t = none := by
    intro c hc
    simp [Choice.accepts, hc]
  -- a symbol that becomes `y` sets the mode of its choice, if that has one
  have hfollows : ∀ c, (m.symbol i).choice = some c →
      (m.symbol i).accepts t = some (.tristate .yes) →
      (m.choice c).kind.isLogical →
      followedBy m i t = some c ∧ (m.choice c).accepts t = some .yes := by
    intro c hc hyes hkind
    obtain ⟨hlogical, rfl⟩ := Symbol.eq_yes_of_accepts hyes
    refine ⟨by simp [followedBy, hlogical, hc], ?_⟩
    rw [Choice.accepts_of_logical hkind]
    simp [Tristate.ofLetter?]
  rw [enter_eq, enter_eq]
  refine ⟨fun j hj => ?_, fun c hc => ?_, fun c hc => ?_⟩
  · obtain ⟨hset, huser⟩ := h.symbols j hj
    cases (m.symbol i).accepts t <;> constructor <;> grind
  · obtain ⟨hset, hmode, hselection, hchosen⟩ := h.choices c hc
    have hrefuses := h.refuses c
    cases haccepts : (m.choice c).accepts t <;> constructor <;> grind
  · simpa [hrefused c hc] using h.refuses c hc

theorem foldl_enter (es : List (SymbolId × String)) :
    Trails m past (es.foldl (Ledger.enter m) L) (es.foldl (Ledger.enter m) L') := by
  induction es generalizing L L' with
  | nil => exact h
  | cons e es ih => exact ih (h.enter e)

omit h in
theorem clear (hmodes : L.mode = fun _ => none) (hselections : L.selection = fun _ => none)
    (hrefuses : ∀ c, (m.choice c).kind.isLogical = false → L'.mode c = none) :
    Trails m L'.selection (L.clear m) (L'.clear m) := by
  refine ⟨fun i hi => ?_, fun c hc => ?_, fun c hc => ?_⟩
  · constructor <;> simp [Ledger.clear, hi]
  · constructor <;> simp [Ledger.clear, hc, hmodes, hselections]
  · exact ⟨congrFun hmodes c, hrefuses c hc⟩

theorem user_unsetOthers {i : SymbolId} (hi : i ∈ m.uniqueDefined) :
    (L'.unsetOthers m).user i = (L.unsetOthers m).user i := by
  obtain ⟨hset, huser⟩ := h.symbols i hi
  simp only [unsetOthers, hi, hset]
  split
  · rfl
  · rename_i hne
    exact huser (by simpa using hne)

/-- Once what has not been set is taken back, choices have the same modes in both records.  A choice
that has a mode without a selection has that of the past. -/
theorem choice_unsetOthers {c : ChoiceId} (hc : c ∈ m.uniqueChoices) :
    (L'.unsetOthers m).mode c = (L.unsetOthers m).mode c ∧
      (L'.unsetOthers m).selection c = ((L.unsetOthers m).selection c).or
        (if ((L.unsetOthers m).mode c).isSome then past c else none) := by
  obtain ⟨hset, hmode, hselection, hchosen⟩ := h.choices c hc
  simp only [unsetOthers, hc, hset, true_and]
  cases hchoiceSet : L.choiceSet c with
  | false => simp
  | true =>
    rw [hchoiceSet] at hchosen
    refine ⟨by simpa using hmode hchoiceSet, ?_⟩
    simp only [Bool.true_eq_false, if_false, hselection]
    cases hold : L.selection c with
    | some i => rfl
    | none =>
      have hsome : (L.mode c).isSome := by simpa [hold] using hchosen.symm
      rw [if_pos hsome]

end

end Ledger.Trails

/-! ## Loading in a session with a past -/

section Sessions

variable {w : Workspace} {o : LoadOptions} {s : Session} {r : Reading}

theorem valid_after (hopen : openSession w o = (.ok s, r)) (actions : List Action) :
    s.Over (Valid s.model) (s.after actions) := by
  obtain ⟨hloaded, hvalues⟩ := loaded_of_openSession hopen
  have hstart : s.Over (Valid s.model) s :=
    ⟨rfl, hvalues ▸ Valid.initial hloaded.wellFormed.lt_size⟩
  exact (Valid.kept s.model).after hstart actions

theorem runFrom_loadConfig_some (s : Session) (path : String) (replaces : Bool) :
    runFrom (loadConfig (some path) replaces) s = runFrom (loadFrom path replaces >>= fun _ =>
      pure ((if replaces then "Loaded" else "Merged") ++ " configuration '" ++ path ++ "'")) s :=
  rfl

theorem outcome_load_after
    (hopen : openSession w o = (.ok s, r)) (actions : List Action) (path : String) :
    (runFrom (loadConfig (some path) true) (s.after actions)).1 =
      (s.linesOf path).map fun _ => "Loaded configuration '" ++ path ++ "'" := by
  obtain ⟨hloaded, -⟩ := loaded_of_openSession hopen
  have hs : s.Holds _ _ (s.after actions) := ⟨valid_after hopen actions, rfl, rfl⟩
  rw [runFrom_loadConfig_some]
  cases hlines : s.linesOf path with
  | error f =>
    obtain ⟨_, _, -, h⟩ | ⟨_, _, hrun, rfl⟩ := (Session.Holds.loadFrom_error hloaded hlines).cases hs
    · exact h.elim
    · rw [runFrom_bind_error hrun]
      rfl
  | ok founds =>
    obtain ⟨_, s', hrun, -⟩ := (Session.Holds.loadFrom hloaded hlines).result hs
    rw [runFrom_bind_ok hrun]
    rfl

/-- The session after some actions and a load that replaces what was assigned. -/
def Session.loadedAfter (s : Session) (actions : List Action) (path : String) : Session :=
  s.after (actions ++ [.load (some path) true])

theorem holds_loadedAfter (hopen : openSession w o = (.ok s, r)) (actions : List Action)
    {path : String} {founds : List ConfigLine} (hfounds : s.linesOf path = .ok founds) :
    s.Holds ((s.after actions).values.ledger.replacedBy s founds) (founds.flatMap s.missingIn)
      (s.loadedAfter actions path) := by
  obtain ⟨hloaded, -⟩ := loaded_of_openSession hopen
  have hs : s.Holds _ _ (s.after actions) := ⟨valid_after hopen actions, rfl, rfl⟩
  obtain ⟨_, s', hrun, hs'⟩ := (Session.Holds.loadFrom hloaded hfounds).result hs
  have hafter : s.loadedAfter actions path =
      (runFrom (Action.load (some path) true).run (s.after actions)).2 := by
    simp [Session.loadedAfter, Session.after]
  have hload : (runFrom (Action.load (some path) true).run (s.after actions)).2 = s' := by
    rw [Action.run, runFrom_discard_snd, runFrom_loadConfig_some, runFrom_bind_ok hrun]
    rfl
  rw [hafter, hload]
  exact hs'

theorem trails_loadedAfter
    (hopen : openSession w o = (.ok s, r)) (actions : List Action) (founds : List ConfigLine) :
    Ledger.Trails s.model (s.after actions).values.assigned.selection
      ((founds.filterMap s.statement?).foldl (enter s.model) (s.values.ledger.clear s.model))
      ((founds.filterMap s.statement?).foldl (enter s.model)
        ((s.after actions).values.ledger.clear s.model)) := by
  obtain ⟨hloaded, hvalues⟩ := loaded_of_openSession hopen
  have hvalid := (valid_after hopen actions).values
  have hstart : Ledger.Trails s.model (s.after actions).values.ledger.selection
      (s.values.ledger.clear s.model) ((s.after actions).values.ledger.clear s.model) := by
    refine Ledger.Trails.clear ?_ ?_ fun c hc => ?_
    · simp [hvalues, Values.ledger, Values.choice_initial]
    · simp [hvalues, Values.ledger, Values.choice_initial]
    · cases hmode : (s.after actions).values.ledger.mode c with
      | none => rfl
      | some t =>
        have hlogical := (hvalid.mode c t hmode).1
        rw [hc] at hlogical
        cases hlogical
  exact hstart.foldl_enter _

/-- A load that replaces what was assigned forgets the past, but for the selection of a choice to
which the file gives a mode and no selection.  So values are the same as in a new session, unless
such a choice has mode `y`. -/
theorem replacing_load {w : Workspace} {o : LoadOptions} {s : Session} {r : Reading}
    (hopen : openSession w o = (.ok s, r)) (actions : List Action) (path : String) :
    (runFrom (loadConfig (some path) true) (s.after actions)).1 =
        (runFrom (loadConfig (some path) true) s).1 ∧
      ((runFrom (loadConfig (some path) true) s).1.isOk = true →
        (s.loadedAfter actions path).missing = (s.loadedAfter [] path).missing ∧
        (∀ i ∈ s.model.uniqueDefined, (s.loadedAfter actions path).values.assigned.user i =
          (s.loadedAfter [] path).values.assigned.user i) ∧
        (∀ c ∈ s.model.uniqueChoices, (s.loadedAfter actions path).values.assigned.mode c =
          (s.loadedAfter [] path).values.assigned.mode c) ∧
        (∀ c ∈ s.model.uniqueChoices, (s.loadedAfter actions path).values.assigned.selection c =
          ((s.loadedAfter [] path).values.assigned.selection c).or
            (if ((s.loadedAfter [] path).values.assigned.mode c).isSome then
              (s.after actions).values.assigned.selection c else none)) ∧
        (s.model.ChoicesSane →
          (∀ c ∈ s.model.uniqueChoices, (s.loadedAfter [] path).cleared.Reads (.mode c) .yes →
            (s.loadedAfter actions path).values.assigned.selection c =
              (s.loadedAfter [] path).values.assigned.selection c) →
          ∀ q a, (s.loadedAfter [] path).cleared.Reads q a →
            (s.loadedAfter [] path).Reads q a ∧ (s.loadedAfter actions path).Reads q a)) := by
  obtain ⟨hloaded, -⟩ := loaded_of_openSession hopen
  have houtcome := outcome_load_after hopen actions path
  have houtcome' := outcome_load_after hopen [] path
  refine ⟨houtcome.trans houtcome'.symm, fun hok => ?_⟩
  obtain ⟨founds, hfounds⟩ : ∃ founds, s.linesOf path = .ok founds := by
    have hmap : ((s.linesOf path).map fun _ => "Loaded configuration '" ++ path ++ "'").isOk =
        true := houtcome' ▸ hok
    cases hlines : s.linesOf path with
    | error f =>
      rw [hlines] at hmap
      cases hmap
    | ok founds => exact ⟨founds, rfl⟩
  have hfresh := holds_loadedAfter hopen [] hfounds
  have hagain := holds_loadedAfter hopen actions hfounds
  have htrails := trails_loadedAfter hopen actions founds
  have huser : ∀ i ∈ s.model.uniqueDefined, (s.loadedAfter actions path).values.assigned.user i =
      (s.loadedAfter [] path).values.assigned.user i := by
    intro i hi
    have hrecord := congrFun (congrArg user hagain.ledger) i
    have hrecord' := congrFun (congrArg user hfresh.ledger) i
    exact (hrecord.trans (htrails.user_unsetOthers hi)).trans hrecord'.symm
  have hmode : ∀ c ∈ s.model.uniqueChoices, (s.loadedAfter actions path).values.assigned.mode c =
      (s.loadedAfter [] path).values.assigned.mode c := by
    intro c hc
    have hrecord := congrFun (congrArg mode hagain.ledger) c
    have hrecord' := congrFun (congrArg mode hfresh.ledger) c
    exact (hrecord.trans (htrails.choice_unsetOthers hc).1).trans hrecord'.symm
  refine ⟨hagain.missing.trans hfresh.missing.symm, huser, hmode, fun c hc => ?_, ?_⟩
  · have hrecord := congrFun (congrArg selection hagain.ledger) c
    have hselection := hrecord.trans (htrails.choice_unsetOthers hc).2
    have hrecord' : (s.loadedAfter [] path).values.ledger = s.values.ledger.replacedBy s founds :=
      hfresh.ledger
    rw [← replacedBy, ← hrecord'] at hselection
    exact hselection
  · intro hsane hselection q a ha
    have hsound := sound_after hopen hsane [.load (some path) true]
    have hsound' := sound_after hopen hsane (actions ++ [.load (some path) true])
    have hfound : s.model.outcome (s.loadedAfter [] path).values.assigned q = .ok a :=
      (reads_cleared_iff hsound).1 ha
    refine ⟨reads_of_outcome hsound hfound, reads_of_outcome hsound' ?_⟩
    refine Model.outcome_of_agrees (fun x => ?_) hfound
    by_cases hbare : s.model.Bare x
    · exact .inl hbare
    · have hdefines := hloaded.defines_of_not_bare hbare
      cases x with
      | symbol i => exact .inr (.inl (huser i hdefines).symm)
      | choice c =>
        by_cases hyes : s.model.outcome (s.loadedAfter [] path).values.assigned (.mode c) = .ok .yes
        · have hsame := hselection c hdefines ((reads_cleared_iff hsound).2 hyes)
          exact .inr (.inl ⟨(hmode c hdefines).symm, hsame.symm⟩)
        · exact .inr (.inr ⟨c, rfl, (hmode c hdefines).symm, hyes⟩)

end Sessions

/-- A choice between two tristates, and a configuration file. -/
def tristatesWorkspace (config : String) : Workspace :=
  { files := { entries := [(["Kconfig"], .file ("choice\n\tprompt \"c\"\nconfig A\n\ttristate \"a\"\n" ++
      "config B\n\ttristate \"b\"\nendchoice\n").toUTF8), ([".config"], .file config.toUTF8)] } }

/-- After the second symbol is selected, loading a file that selects the first one gives what it gives
in a new session. -/
theorem replacing_load_selectFirst :
    ∃ s r, openSession (tristatesWorkspace "CONFIG_A=y\n") {} = (.ok s, r) ∧
      (s.after selectSecond).Reads (.tristate 4) .no ∧
      (s.loadedAfter [] ".config").Reads (.tristate 4) .yes ∧
      (s.loadedAfter selectSecond ".config").Reads (.tristate 4) .yes := by
  obtain ⟨s, r, hopen, hrun⟩ := exists_of_opensTo (tristatesWorkspace "CONFIG_A=y\n") (fun s =>
      decide s.model.ChoicesSane &&
      (runFrom (loadConfig (some ".config") true) s).1.isOk &&
      s.model.uniqueChoices.all (fun c =>
        (s.loadedAfter selectSecond ".config").values.assigned.selection c ==
          (s.loadedAfter [] ".config").values.assigned.selection c) &&
      (runFrom (Observation.ask (.tristate 4)).read (s.after selectSecond)).1.toOption ==
        some .no &&
      (runFrom (Observation.ask (.tristate 4)).read
        (s.loadedAfter [] ".config").cleared).1.toOption == some .yes)
    (by decide +kernel)
  simp only [Bool.and_eq_true, decide_eq_true_eq, List.all_eq_true, beq_iff_eq] at hrun
  obtain ⟨⟨⟨⟨hsane, hok⟩, hselections⟩, hbefore⟩, hfresh⟩ := hrun
  obtain ⟨-, hload⟩ := replacing_load hopen selectSecond ".config"
  obtain ⟨-, -, -, -, hvalues⟩ := hload hok
  have hreads := hvalues hsane (fun c hc _ => hselections c hc) (.tristate 4) .yes
    (eq_ok_of_toOption hfresh)
  exact ⟨s, r, hopen, eq_ok_of_toOption hbefore, hreads⟩

end Buildsmith.Kconfig
