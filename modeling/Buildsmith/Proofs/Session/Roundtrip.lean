import Buildsmith.Proofs.Session.Drafting
import Buildsmith.Proofs.Session.Reloading
import Buildsmith.Proofs.Session.Saving

/-!
# Saving and loading again

Without modules, the configuration that is saved restores all values in a new session that loads it,
and is saved there with the same text (`saved_config_reloads`).  Titles of menus must not break a
line, as the second line could be read as an assignment.  And evaluation must not fail because the
mode of a choice is lost, of which no symbol is `y`.

A file that was just loaded is up to date if saving it would restate what it sets and nothing else
(`upToDate_iff`).
-/

namespace Buildsmith.Kconfig

open Observation List

/-- A description whose configuration files are read as they are written. -/
structure Session.IsLegible (s : Session) : Prop where
  lead : s.reading.symbolLead = "CONFIG_"
  names : ∀ i ∈ s.model.uniqueDefined, IsPlainName (s.model.symbol i).name
  titles : ∀ k ∈ s.model.allEntries, (s.model.entry k).HasPlainTitle

/-- A state in which each text fits on a line, and each number is without blanks. -/
structure Session.FitsLines (s : Session) : Prop where
  strings : ∀ i ∈ s.model.uniqueDefined, (s.model.symbol i).kind = .string →
    ∀ v, s.Reads (.text i) v → '\n' ∉ v.toList ∧ '\r' ∉ v.toList
  numbers : ∀ i ∈ s.model.uniqueDefined, (s.model.symbol i).kind.isNumeric = true →
    ∀ v, s.Reads (.text i) v → ∀ c ∈ v.toList, Text.isBlank c = false

namespace Model

variable {m : Model} {u u' : Assigned} {V : SymbolId → String} {i : SymbolId}

theorem Repeats.refl (m : Model) (u : Assigned) : m.Repeats u u :=
  ⟨fun _ _ => id, fun _ _ h _ => h⟩

def toldBy (m : Model) (u : Assigned) (V : SymbolId → String) (i : SymbolId) :
    List (SymbolId × String) :=
  if m.writes u i then [(i, V i)] else []

theorem mem_toldBy {j : SymbolId} {t : String} :
    (j, t) ∈ m.toldBy u V i ↔ m.writes u i ∧ j = i ∧ t = V i := by
  unfold toldBy
  split <;> simp_all

theorem retells_toldBy (m : Model) (u : Assigned) (v : Valuation) :
    m.Retells u v (fun _ => False) (m.uniqueDefined.flatMap (m.toldBy u v.texts)) where
  only i t ht := by
    simp only [mem_flatMap, mem_toldBy] at ht
    obtain ⟨_, hi, hwrites, rfl, rfl⟩ := ht
    exact ⟨hi, hwrites, rfl⟩
  rest i hi hwrites := .inl (mem_flatMap.2 ⟨i, hi, mem_toldBy.2 ⟨hwrites, rfl, rfl⟩⟩)

theorem Loaded.nodup_toldBy (hm : m.Loaded) (u : Assigned) (V : SymbolId → String) :
    ((m.uniqueDefined.flatMap (m.toldBy u V)).map Prod.fst).Nodup := by
  have hfilter : (m.uniqueDefined.flatMap (m.toldBy u V)).map Prod.fst =
      m.uniqueDefined.filter (m.writes u) := by
    induction m.uniqueDefined with
    | nil => rfl
    | cons i is ih =>
      rw [flatMap_cons, map_append, ih, filter_cons, toldBy]
      split <;> rfl
  rw [hfilter, hm.finished.uniqueDefined]
  exact (nodup_orderedUnique _).filter _

end Model

variable {s : Session} {u u' : Assigned} {v : Valuation}

theorem Session.IsLegible.composes (h : s.IsLegible) (hstandard : s.HasStandardLead)
    (hm : s.model.Loaded) (hv : s.model.Writable u v) (hrepeats : s.model.Repeats u u')
    (hfits : ∀ i ∈ s.model.uniqueDefined, s.model.Fits i (v.texts i)) :
    s.Composes (fun v => Coherent s.model u v ∨ Coherent s.model u' v)
      (fun i => if s.model.writes u i then s.model.lineFor "CONFIG_" i (v.texts i) else "")
      (s.model.toldBy u v.texts) where
  standard := hstandard
  lines i _ := hrepeats.gives_configLine (hv.backs (.text i)) "CONFIG_"
  tells i hi := by
    unfold Model.toldBy
    split
    · rename_i hwrites
      exact hstandard.tells_lineFor hm hi (h.names i hi) (Model.kind_of_writes hwrites) (hfits i hi)
    · exact .empty s
  conditions := hrepeats.gives_exprValue fun q => ⟨_, hv.backs q⟩
  titles := h.titles

/-! ## States of a session -/

section States

variable {w : Workspace} {o : LoadOptions} {r : Reading} (hopen : openSession w o = (.ok s, r))
  (hsane : s.model.ChoicesSane) (actions : List Action)

include hopen hsane

theorem exists_writable_after (hevaluates : (s.after actions).Evaluates) :
    ∃ v, s.model.Writable (s.after actions).values.assigned v := by
  have hsound := sound_after hopen hsane actions
  have hvalid := (valid_after hopen actions).values
  obtain ⟨v, hv⟩ := Model.exists_backs (exists_outcome hsound hevaluates)
  refine ⟨v, hv, hvalid.user, fun c t ht => (hvalid.mode c t ht).1, fun c i hi => ?_⟩
  exact ⟨hsound.values.members c i hi, hvalid.selection c i hi⟩

theorem fits_after (hfits : (s.after actions).FitsLines)
    (hv : s.model.Writable (s.after actions).values.assigned v) {i : SymbolId}
    (hi : i ∈ s.model.uniqueDefined) : s.model.Fits i (v.texts i) := by
  obtain ⟨hloaded, -⟩ := loaded_of_openSession hopen
  have hsound := sound_after hopen hsane actions
  have hmodel := hsound.model
  have hread := reads_of_outcome hsound (hv.backs (.text i))
  refine ⟨fun hl => ?_, fun hk => ?_, fun hk => ?_⟩
  · have hlt := hloaded.wellFormed.yes_lt_of_defined
      (hloaded.finished.mem_uniqueDefined.1 hi)
    rw [hv.text_eq_letter hl]
    cases hx : v.answer (.tristate i) with
    | no => exact .inl rfl
    | yes => exact .inr (.inl rfl)
    | mod => exact .inr (.inr ⟨rfl, hv.tristate_of_mod hlt hl hx⟩)
  · exact hfits.strings i (hmodel ▸ hi) (hmodel ▸ hk) _ hread
  · exact hfits.numbers i (hmodel ▸ hi) (hmodel ▸ hk) _ hread

end States

theorem runFrom_evaluating_of_gives {S t : Session} (ht : S.Over (Sound S.model) t) {α : Type}
    {x : EvalM α} {a : α} {I : Values → Prop} (hx : EvalM.Gives S.model I x a)
    (hI : ∀ v, Coherent S.model t.values.assigned v → I v) :
    (runFrom (evaluating x) t).1 = .ok a := by
  obtain ⟨v, hrun, -⟩ := hx t.values (hI _ ht.values.coherent)
  rw [runFrom_evaluating, ht.model, hrun]

/-- Without modules, loading the configuration that was saved restores all values in a new session,
where it is saved with the same text: if evaluation answers all queries in that session, or each
choice that is set to `y` has a symbol that is `y`. -/
theorem saved_config_reloads {w : Workspace} {o : LoadOptions} {s : Session} {r : Reading}
    (hopen : openSession w o = (.ok s, r)) (hsane : s.model.ChoicesSane)
    (hrequired : ∀ c ∈ s.model.uniqueChoices, (s.model.choice c).isOptional = false)
    (hlegible : s.IsLegible) (actions : List Action) (hevaluates : (s.after actions).Evaluates)
    (hoff : (s.after actions).Reads (.tristate SymbolId.modules) .no)
    (hfits : (s.after actions).FitsLines)
    (hleft : ∀ i ∈ s.model.uniqueDefined, s.model.isLeftOut i = true →
      (s.after actions).values.assigned.user i = none) {header path message : String}
    {keepsOld : Bool} {saved : Session} (hheader : s.Tells header [])
    (hsave : runFrom (saveConfig (some path) header keepsOld) (s.after actions) =
      (.ok message, saved)) :
    ∃ text reloaded,
      (runFrom (evaluating (configText "CONFIG_" header)) (s.after actions)).1 = .ok text ∧
      runFrom (loadConfig (some path) true) (s.on saved.workspace) =
        (.ok ("Loaded configuration '" ++ path ++ "'"), reloaded) ∧
      (reloaded.Evaluates ∨
        (∀ c ∈ s.model.uniqueChoices, (s.model.choice c).kind = .tristate →
          (s.after actions).values.assigned.mode c = some .yes →
          (∃ vis, (s.after actions).Reads (.choiceVisibility c) vis ∧ vis ≠ .no) →
          ∃ i, (s.model.symbol i).choice = some c ∧ (s.after actions).Reads (.tristate i) .yes) →
        (∀ q a, (s.after actions).Reads q a → reloaded.Reads q a) ∧
        (runFrom (evaluating (configText "CONFIG_" header)) reloaded).1 = .ok text) := by
  obtain ⟨hloaded, hvalues⟩ := loaded_of_openSession hopen
  obtain ⟨⟨os, r₀, -, hcompletes⟩, -⟩ := completes_of_openSession hopen
  have htop := hcompletes.entry_top
  have hstandard := hasStandardLead_of_openSession hopen hlegible.lead
  have hsound := sound_after hopen hsane actions
  obtain ⟨v, hv⟩ := exists_writable_after hopen hsane actions hevaluates
  have hfits : ∀ i ∈ s.model.uniqueDefined, s.model.Fits i (v.texts i) := fun i hi =>
    fits_after hopen hsane actions hfits hv hi
  have hread : ∀ {q a}, (s.after actions).Reads q a → a = v.answer q := fun {q a} ha =>
    ha.eq_of_outcome hsound (hv.backs q)
  -- the text that is written, and what it tells
  have hcomposes := hlegible.composes hstandard hloaded hv (.refl _ _) hfits
  obtain ⟨text, hgives, htells⟩ := hcomposes.configText hloaded htop hheader
  have htext : (runFrom (evaluating (configText "CONFIG_" header)) (s.after actions)).1 =
      .ok text := runFrom_evaluating_of_gives hsound hgives fun v hv => .inl hv
  have hlead : (s.after actions).reading.symbolLead = "CONFIG_" := hsound.lead_eq.trans hlegible.lead
  have hfile := saveConfig_hasText hsound.encoding_eq htells.not_mem_return (hlead ▸ htext) hsave
  obtain ⟨reloaded, hload, hreflects⟩ :=
    htells.exists_load hloaded hvalues (hloaded.nodup_toldBy _ v.texts) hfile
  refine ⟨text, reloaded, htext, hload, fun hkept => ?_⟩
  -- what is loaded repeats what was assigned
  have hsound' := sound_of_load hloaded hsane hvalues hload
  have htold := s.model.retells_toldBy (s.after actions).values.assigned v
  have hoff' := (hread hoff).symm
  have hleft' : ∀ i, (s.model.symbol i).kind.isLogical = false → s.model.isLeftOut i = true →
      v.answer (.visibility i) ≠ .no → (s.after actions).values.assigned.user i = none :=
    fun i _ hout hne =>
      hleft i (Model.mem_uniqueDefined_of_visible hloaded (hv.backs _) hne).1 hout
  have hrepeats : s.model.Repeats (s.after actions).values.assigned reloaded.values.assigned := by
    rcases hkept with hanswers | hmodes
    · exact htold.repeats hreflects hv hloaded hsane (hv.condensable hloaded hoff' hleft' hrequired)
        (exists_outcome (S := s.on saved.workspace) hsound' hanswers)
    · refine htold.repeats_of_modes hreflects hv hloaded hoff' hleft' hrequired hsane ?_
      intro c hc hkind hmode hne
      obtain ⟨i, hi, hyes⟩ := hmodes c hc hkind hmode ⟨_, reads_of_outcome hsound (hv.backs _), hne⟩
      exact ⟨i, hi, (hread hyes).symm⟩
  refine ⟨fun q a ha => ?_, ?_⟩
  · exact reads_of_outcome (S := s.on saved.workspace) hsound'
      (hrepeats.outcome q a (hread ha ▸ hv.backs q))
  · obtain ⟨text', hgives', -⟩ :=
      (hlegible.composes hstandard hloaded hv hrepeats hfits).configText hloaded htop hheader
    have htext' : (runFrom (evaluating (configText "CONFIG_" header)) (s.after actions)).1 =
        .ok text' := runFrom_evaluating_of_gives hsound hgives' fun v hv => .inl hv
    rw [htext] at htext'
    cases htext'
    exact runFrom_evaluating_of_gives (S := s.on saved.workspace) hsound' hgives' fun v hv => .inr hv

/-- A text, and a choice between two symbols. -/
def mixedWorkspace : Workspace :=
  { files := { entries := [(["Kconfig"],
      .file ("config N\n\tstring \"n\"\nchoice\n\tprompt \"c\"\nconfig A\n\tbool \"a\"\n" ++
        "config B\n\tbool \"b\"\nendchoice\n").toUTF8)] } }

/-- The text is set to one with a quote, and the second symbol of the choice is selected. -/
def quoteAndSelect : List Action := [.setSymbol true 4 (.text "a\"b"), .setSymbol true 6 (.number 2)]

/-- The text with a quote and the selection are restored. -/
theorem saved_config_reloads_mixed :
    ∃ s r saved reloaded text, openSession mixedWorkspace {} = (.ok s, r) ∧
      runFrom (saveConfig (some ".config") generatedBy true) (s.after quoteAndSelect) =
        (.ok "Configuration saved to '.config'", saved) ∧
      (runFrom (evaluating (configText "CONFIG_" generatedBy)) (s.after quoteAndSelect)).1 =
        .ok text ∧
      runFrom (loadConfig (some ".config") true) (s.on saved.workspace) =
        (.ok ("Loaded configuration '" ++ ".config" ++ "'"), reloaded) ∧
      reloaded.Reads (.text 4) "a\"b" ∧ reloaded.Reads (.tristate 6) .yes ∧
      (runFrom (evaluating (configText "CONFIG_" generatedBy)) reloaded).1 = .ok text := by
  obtain ⟨s, r, hopen, hrun⟩ := exists_of_opensTo mixedWorkspace (fun s =>
      let t := s.after quoteAndSelect
      decide s.model.ChoicesSane && s.reading.symbolLead == "CONFIG_" &&
      s.model.uniqueChoices.all (fun c =>
        !(s.model.choice c).isOptional && (s.model.choice c).kind == .bool) &&
      s.model.uniqueDefined.all (fun i => decide (IsPlainName (s.model.symbol i).name) &&
        !s.model.isLeftOut i &&
        (runFrom (ask (.text i)).read t).1.toOption.all
          fun v => v.toList.all fun c => !Text.isBlank c) &&
      s.model.allEntries.all (fun k => decide (s.model.entry k).HasPlainTitle) &&
      s.model.queries.all (fun q => (runFrom (ask q).read t.cleared).1.isOk) &&
      (runFrom (ask (.tristate SymbolId.modules)).read t).1.toOption == some .no &&
      (runFrom (ask (.text 4)).read t).1.toOption == some "a\"b" &&
      (runFrom (ask (.tristate 6)).read t).1.toOption == some .yes &&
      (runFrom (saveConfig (some ".config") generatedBy true) t).1.toOption ==
        some "Configuration saved to '.config'")
    (by decide +kernel)
  simp only [Bool.and_eq_true, decide_eq_true_eq, all_eq_true, beq_iff_eq,
    Bool.not_eq_true', Option.all_eq_true] at hrun
  obtain ⟨⟨⟨⟨⟨⟨⟨⟨⟨hsane, hlead⟩, hchoices⟩, hsymbols⟩, htitles⟩, hqueries⟩, hoff⟩, hname⟩,
    hselected⟩, hsaved⟩ := hrun
  have hsound := sound_after hopen hsane quoteAndSelect
  have hevaluates : (s.after quoteAndSelect).Evaluates :=
    evaluates_of_queries hsound fun q hq => exists_eq_ok_of_isOk (hqueries q hq)
  have hblank : ∀ i ∈ s.model.uniqueDefined, ∀ v, (s.after quoteAndSelect).Reads (.text i) v →
      ∀ c ∈ v.toList, Text.isBlank c = false :=
    fun i hi v hv => (hsymbols i hi).2 v (by rw [hv]; rfl)
  have hfits : (s.after quoteAndSelect).FitsLines :=
    ⟨fun i hi _ v hv => breaks_of_not_blank (hblank i (hsound.model ▸ hi) v hv),
      fun i hi _ v hv => hblank i (hsound.model ▸ hi) v hv⟩
  have hlegible : s.IsLegible := ⟨hlead, fun i hi => (hsymbols i hi).1.1, htitles⟩
  have hstandard := hasStandardLead_of_openSession hopen hlead
  have hsave := runFrom_of_toOption hsaved
  obtain ⟨text, reloaded, htext, hload, hkept⟩ :=
    saved_config_reloads hopen hsane (fun c hc => (hchoices c hc).1) hlegible quoteAndSelect
      hevaluates (eq_ok_of_toOption hoff) hfits
      (fun i hi hout => by rw [(hsymbols i hi).1.2] at hout; cases hout)
      hstandard.tells_generatedBy hsave
  obtain ⟨hreads, hagain⟩ := hkept (.inr fun c hc hkind => by
    rw [(hchoices c hc).2] at hkind
    cases hkind)
  exact ⟨s, r, _, reloaded, text, hopen, hsave, htext, hload,
    hreads _ _ (eq_ok_of_toOption hname), hreads _ _ (eq_ok_of_toOption hselected), hagain⟩

/-! ## The verdict on a file -/

section Verdict

/-- The value that is taken from a text says the same as the text. -/
theorem Symbol.cases_of_accepts
    {x : Symbol} {t : String} {y : UserValue} (h : x.accepts t = some y) :
    x.kind.isLogical ∧ (∃ z : Tristate, y = .tristate z ∧ t = z.letter) ∨ y = .text t := by
  by_cases hl : x.kind.isLogical
  · rw [Symbol.accepts_of_logical hl] at h
    obtain ⟨z, hz, hy⟩ := Option.bind_eq_some_iff.1 h
    refine .inl ⟨hl, z, by grind, ?_⟩
    unfold Tristate.ofLetter? at hz
    grind [Tristate.letter]
  · rw [Symbol.accepts, if_neg hl] at h
    unfold Offer.accepted? at h
    cases hkind : x.kind <;> grind [Kind.isLogical]

theorem Symbol.eq_of_accepts {x : Symbol} {t t' : String} {y : UserValue}
    (h : x.accepts t = some y) (h' : x.accepts t' = some y) : t = t' := by
  have hcases := cases_of_accepts h
  have hcases' := cases_of_accepts h'
  grind

section

variable {m : Model} {u : Assigned} {i : SymbolId} {a lead : String}

theorem gives_symbolState_bind {α : Type} {f : SymbolState → EvalM α} {b : α}
    (hf : ∀ x, x.user = u.user i → EvalM.Gives m (Coherent m u) (f x) b) :
    EvalM.Gives m (Coherent m u) (symbolState i >>= f) b := by
  intro v hv
  have huser : (v.symbol i).user = u.user i := congrFun (congrArg Assigned.user hv.assigned) i
  obtain ⟨v', hrun, hv'⟩ := hf (v.symbol i) huser v hv
  refine ⟨v', ?_, hv'⟩
  exact hrun

theorem gives_differsFromUser_none (ha : m.outcome u (.text i) = .ok a) (hu : u.user i = none) :
    EvalM.Gives m (Coherent m u) (differsFromUser lead i)
      (!(if m.writes u i then m.lineFor lead i a else "").isEmpty) := by
  refine gives_symbolState_bind fun x hx => ?_
  rw [hx, hu]
  exact (gives_configLine ha lead).bind (.pure _)

theorem gives_differsFromUser_some {x : Tristate} {t : String} {y : UserValue}
    (ha : m.outcome u (.text i) = .ok a) (hx : m.outcome u (.tristate i) = .ok x)
    (hu : u.user i = some y) (hy : (m.symbol i).accepts t = some y) :
    EvalM.Gives m (Coherent m u) (differsFromUser lead i) (decide (a ≠ t)) := by
  refine gives_symbolState_bind fun s hs => ?_
  rw [hs, hu]
  rcases Symbol.cases_of_accepts hy with ⟨hl, z, rfl, rfl⟩ | rfl
  · have hsame : decide (a ≠ z.letter) = decide (x ≠ z) := by
      rw [Model.text_eq_letter hl ha hx]
      exact decide_eq_decide.2 (not_congr ⟨Tristate.letter_injective, congrArg _⟩)
    rw [hsame]
    exact EvalM.Gives.bind (fun v hv => hv.runOn_answerTo hx) (.pure _)
  · exact EvalM.Gives.bind (fun v hv => hv.runOn_answerTo ha) (.pure _)

theorem gives_anyDiffers {P : SymbolId → Prop} {is : List SymbolId}
    (h : ∀ i ∈ is, ∃ b, EvalM.Gives m (Coherent m u) (differsFromUser lead i) b ∧
      (b = false ↔ P i)) :
    ∃ b, EvalM.Gives m (Coherent m u) (anyDiffers lead is) b ∧ (b = false ↔ ∀ i ∈ is, P i) := by
  induction is with
  | nil => exact ⟨false, .pure _, by simp⟩
  | cons i is ih =>
    obtain ⟨⟨b, hb, hP⟩, hrest⟩ := forall_mem_cons.1 h
    obtain ⟨b', hb', hP'⟩ := ih hrest
    refine ⟨b || b', hb.bind ?_, by simp [hP, hP']⟩
    cases b with
    | false => exact hb'
    | true => exact .pure _

end

variable {S x : Session} {es : List (SymbolId × String)} {i : SymbolId}

/-- Whether a symbol is as statements tell: it has the value that they set, or is not written if they
set none. -/
structure Session.IsAsTold (S : Session) (es : List (SymbolId × String)) (i : SymbolId)
    (x : Session) : Prop where
  told : ∀ t, (i, t) ∈ es → ((S.model.symbol i).accepts t).isSome → x.Reads (.text i) t
  untold : (∀ t, (i, t) ∈ es → (S.model.symbol i).accepts t = none) →
    x.Finds (configLine S.reading.symbolLead i) ""

theorem Session.isAsTold_iff (hx : S.Over (Sound S.model) x) {a : String}
    (ha : S.model.outcome x.values.assigned (.text i) = .ok a) {y : Tristate}
    (hy : S.model.outcome x.values.assigned (.tristate i) = .ok y) {L : Ledger}
    (hL : L.Reflects S.model es) (huser : x.values.assigned.user i = L.user i) :
    ∃ b, EvalM.Gives S.model (Coherent S.model x.values.assigned)
      (differsFromUser S.reading.symbolLead i) b ∧ (b = false ↔ S.IsAsTold es i x) := by
  cases hrecord : L.user i with
  | some z =>
    have hstated : ∃ t, (i, t) ∈ es := by
      by_contra hnone
      cases hrecord.symm.trans (hL.untold i (not_exists.1 hnone)).1
    obtain ⟨t, ht⟩ := hstated
    have hz : (S.model.symbol i).accepts t = some z := (hL.told i t ht).1.symm.trans hrecord
    refine ⟨_, gives_differsFromUser_some ha hy (huser.trans hrecord) hz, ?_⟩
    rw [decide_eq_false_iff_not, not_not]
    refine ⟨?_, fun h => (h.told t ht (by simp [hz])).eq_of_outcome hx ha |>.symm⟩
    rintro rfl
    refine ⟨fun t' ht' _ => ?_, fun h => ?_⟩
    · have hz' : (S.model.symbol i).accepts t' = some z := (hL.told i t' ht').1.symm.trans hrecord
      exact Symbol.eq_of_accepts hz hz' ▸ reads_of_outcome hx ha
    · cases (h a ht).symm.trans hz
  | none =>
    have hrefused : ∀ t, (i, t) ∈ es → (S.model.symbol i).accepts t = none :=
      fun t ht => (hL.told i t ht).1.symm.trans hrecord
    have hline : x.Finds (configLine S.reading.symbolLead i) _ :=
      runFrom_evaluating_of_gives hx (gives_configLine ha _) fun v hv => hv
    refine ⟨_, gives_differsFromUser_none ha (huser.trans hrecord), ?_⟩
    rw [Bool.not_eq_false', String.isEmpty_iff]
    refine ⟨fun h => ⟨fun t ht hsome => ?_, fun _ => h ▸ hline⟩, fun h => ?_⟩
    · rw [hrefused t ht] at hsome
      cases hsome
    · exact Except.ok.inj (hline.symm.trans (h.untold hrefused))

/-- Right after a load that replaces what was assigned, a file that speaks of no symbol twice is up
to date exactly if it assigns to defined symbols only, each value that it sets is that of its symbol,
and no other symbol is written.  Then each line that would be written restates a line of the file.
But not each line of the file would be written: values that are refused, symbols that are not written
and other spellings go unnoticed. -/
theorem upToDate_iff {w : Workspace} {o : LoadOptions} {s : Session} {r : Reading}
    (hopen : openSession w o = (.ok s, r)) (hsane : s.model.ChoicesSane) (actions : List Action)
    {path : String} {founds : List ConfigLine} (hfounds : s.linesOf path = .ok founds)
    (hnodup : ((founds.filterMap s.statement?).map Prod.fst).Nodup)
    (hevaluates : (s.loadedAfter actions path).Evaluates) :
    ((runFrom isOutdated (s.loadedAfter actions path)).1 = .ok false ↔
      founds.flatMap s.missingIn = [] ∧ ∀ i ∈ s.model.uniqueDefined,
        s.IsAsTold (founds.filterMap s.statement?) i (s.loadedAfter actions path)) ∧
    ((runFrom isOutdated (s.loadedAfter actions path)).1 = .ok false →
      ∀ i ∈ s.model.uniqueDefined, ∃ line,
        (s.loadedAfter actions path).Finds (configLine s.reading.symbolLead i) line ∧
        (line ≠ "" → ∃ t, (i, t) ∈ founds.filterMap s.statement? ∧
          line = s.model.lineFor s.reading.symbolLead i t)) := by
  obtain ⟨hloaded, hvalues⟩ := loaded_of_openSession hopen
  have hsound : s.Over (Sound s.model) (s.loadedAfter actions path) :=
    sound_after hopen hsane (actions ++ [Action.load (some path) true])
  have hholds := holds_loadedAfter hopen actions hfounds
  have htrails := trails_loadedAfter hopen actions founds
  have hreflects := Ledger.reflects_replacedBy hvalues hloaded.finished.wellFormed.lt_size hnodup
  have hanswers := exists_outcome hsound hevaluates
  obtain ⟨b, hgives, hb⟩ := gives_anyDiffers fun i hi => by
    obtain ⟨a, ha⟩ := hanswers (.text i)
    obtain ⟨y, hy⟩ := hanswers (.tristate i)
    exact Session.isAsTold_iff hsound ha hy hreflects
      ((hholds.user_eq i).trans (htrails.user_unsetOthers hi))
  have hverdict : (runFrom isOutdated (s.loadedAfter actions path)).1 = .ok false ↔
      founds.flatMap s.missingIn = [] ∧ b = false := by
    have hrun := runFrom_evaluating_of_gives hsound hgives fun v hv => hv
    rw [← hsound.lead_eq, ← hsound.model] at hrun
    rw [isOutdated, runFrom_bind_ok runFrom_get, hholds.missing]
    cases founds.flatMap s.missingIn with
    | nil => exact ⟨fun h => ⟨rfl, Except.ok.inj (hrun.symm.trans h)⟩, fun h => h.2 ▸ hrun⟩
    | cons e M => exact ⟨nofun, nofun⟩
  refine ⟨hverdict.trans (and_congr_right fun _ => hb), fun hfalse i hi => ?_⟩
  obtain ⟨a, ha⟩ := hanswers (.text i)
  have hline := runFrom_evaluating_of_gives hsound (gives_configLine ha s.reading.symbolLead)
    fun v hv => hv
  refine ⟨_, hline, fun hne => ?_⟩
  have htold := hb.1 (hverdict.1 hfalse).2 i hi
  by_cases haccepted : ∃ t, (i, t) ∈ founds.filterMap s.statement? ∧
      ((s.model.symbol i).accepts t).isSome
  · obtain ⟨t, ht, hsome⟩ := haccepted
    obtain rfl : t = a := (htold.told t ht hsome).eq_of_outcome hsound ha
    exact ⟨t, ht, if_pos (by_contra fun hwrites => hne (if_neg hwrites))⟩
  · have hempty := htold.untold fun t ht => by simpa using fun h => haccepted ⟨t, ht, h⟩
    exact absurd (Except.ok.inj (hline.symm.trans hempty)) hne

end Verdict

/-- A symbol that is never visible, and a file that sets it to `n`. -/
def unwrittenWorkspace : Workspace :=
  { files := { entries := [(["Kconfig"], .file "config A\n\tbool \"a\" if n\n".toUTF8),
      (["f"], .file "# CONFIG_A is not set\n".toUTF8)] } }

/-- The file is up to date, although its line would not be written. -/
theorem upToDate_iff_unwritten :
    ∃ s r founds, openSession unwrittenWorkspace {} = (.ok s, r) ∧ s.linesOf "f" = .ok founds ∧
      founds.filterMap s.statement? = [(4, "n")] ∧
      (runFrom isOutdated (s.loadedAfter [] "f")).1 = .ok false ∧
      s.IsAsTold (founds.filterMap s.statement?) 4 (s.loadedAfter [] "f") ∧
      (s.loadedAfter [] "f").Finds (configLine s.reading.symbolLead 4) "" := by
  obtain ⟨s, r, hopen, hrun⟩ := exists_of_opensTo unwrittenWorkspace (fun s =>
      decide s.model.ChoicesSane && decide (4 ∈ s.model.uniqueDefined) &&
      decide ((s.linesOf "f").toOption.map (·.filterMap s.statement?) = some [(4, "n")]) &&
      s.model.queries.all (fun q =>
        (runFrom (ask q).read (s.loadedAfter [] "f").cleared).1.isOk) &&
      (runFrom isOutdated (s.loadedAfter [] "f")).1.toOption == some false &&
      (runFrom (evaluating (configLine s.reading.symbolLead 4)) (s.loadedAfter [] "f")).1.toOption ==
        some "")
    (by decide +kernel)
  simp only [Bool.and_eq_true, decide_eq_true_eq, all_eq_true, beq_iff_eq] at hrun
  obtain ⟨⟨⟨⟨⟨hsane, hdefined⟩, hlines⟩, hqueries⟩, hverdict⟩, hline⟩ := hrun
  obtain ⟨founds, hfounds, hes⟩ := Option.map_eq_some_iff.1 hlines
  have hlines := eq_ok_of_toOption hfounds
  have hevaluates : (s.loadedAfter [] "f").Evaluates :=
    evaluates_of_queries (sound_after hopen hsane [.load (some "f") true]) fun q hq =>
      exists_eq_ok_of_isOk (hqueries q hq)
  obtain ⟨hiff, -⟩ := upToDate_iff hopen hsane [] hlines (by rw [hes]; decide) hevaluates
  have hcurrent := eq_ok_of_toOption hverdict
  exact ⟨s, r, founds, hopen, hlines, hes, hcurrent, (hiff.1 hcurrent).2 4 hdefined,
    eq_ok_of_toOption hline⟩

end Buildsmith.Kconfig
