import Buildsmith.Proofs.Description.Propagation
import Buildsmith.Proofs.Session.Roundtrip

/-!
# Minimal configurations stand for full ones

A new session that loads the minimal configuration has the same values as one that loads the full
configuration (`minimal_config_reloads`).  This fails where a default is beyond the visibility of its
symbol, as only the full configuration assigns it, and where the mode of a choice is told by a symbol
that the minimal configuration leaves out.
-/

namespace Buildsmith.Kconfig

open List

/-- A state without values that only one of the full and the minimal configuration can carry. -/
structure Session.Condenses (s : Session) : Prop where
  /-- A default `y` of a symbol with visibility `m` comes of selects and implies, or is out of use. -/
  modest : ∀ i ∈ s.model.uniqueDefined, (s.model.symbol i).kind.isLogical = true →
    (s.model.symbol i).choice = none → s.Reads (.visibility i) .mod → s.Finds (defaultText i) "y" →
    s.Reads (.tristate i) .yes ∨ s.Finds (exprValue (s.model.symbol i).reverseDep) .mod →
      s.Finds (exprValue (s.model.symbol i).reverseDep) .yes ∨
      s.Finds (exprValue (s.model.symbol i).weakReverseDep) .yes
  /-- No text is assigned to a symbol that is selected. -/
  unselected : ∀ i ∈ s.model.uniqueDefined, (s.model.symbol i).kind.isLogical = false →
    (s.model.symbol i).choice = none → ∀ vis x, s.Reads (.visibility i) vis → vis ≠ .no →
    s.Finds (exprValue (s.model.symbol i).reverseDep) x → vis ≤ x →
      s.values.assigned.user i = none
  /-- Nothing is assigned to symbols that no file tells. -/
  leftOut : ∀ i ∈ s.model.uniqueDefined, s.model.isLeftOut i = true →
    s.values.assigned.user i = none
  /-- A choice that does not have the mode that it would have by itself has a symbol with that value,
  which is told. -/
  modes : ∀ c ∈ s.model.uniqueChoices, ∀ vis x, s.Reads (.choiceVisibility c) vis → vis ≠ .no →
    s.Reads (.mode c) x →
    (if (s.model.choice c).isOptional then x ≠ .no
      else (s.model.choice c).kind = .tristate ∧ ¬s.Reads (.tristate SymbolId.modules) .no ∧
        x = .yes) →
    ∃ i, (s.model.symbol i).choice = some c ∧ s.Reads (.tristate i) x ∧
      ((s.model.choice c).isOptional = true ∨ (s.model.symbol i).kind = .tristate ∨
        ¬s.Finds (withReaders (·.defaultSelection c)) (some i))

section States

variable {w : Workspace} {o : LoadOptions} {s : Session} {r : Reading}
  (hopen : openSession w o = (.ok s, r)) (hsane : s.model.ChoicesSane) (actions : List Action)
  {v : Valuation} (hv : s.model.Writable (s.after actions).values.assigned v)

include hopen hsane hv

omit hv in
theorem finds_after {α : Type} {x : EvalM α} {a : α}
    (hx : EvalM.Gives s.model (Coherent s.model (s.after actions).values.assigned) x a) :
    (s.after actions).Finds x a :=
  runFrom_evaluating_of_gives (sound_after hopen hsane actions) hx fun _ => id

theorem condensable_after (h : (s.after actions).Condenses) :
    s.model.Condensable (s.after actions).values.assigned v
      (v.Redundant s.model (s.after actions).values.assigned
        (s.model.outcome (s.after actions).values.assigned)) := by
  obtain ⟨⟨os, r₀, -, hcompletes⟩, -⟩ := completes_of_openSession hopen
  have hm := hcompletes.loaded
  have hsound := sound_after hopen hsane actions
  obtain ⟨hmodest, hunselected, hleftOut, hmodes⟩ := h
  simp only [hsound.model] at hmodest hunselected hleftOut hmodes
  have hreads : ∀ q, (s.after actions).Reads q (v.answer q) := fun q => reads_of_outcome hsound (hv.backs q)
  have hworth : ∀ e, (s.after actions).Finds (exprValue e) (v.value s.model e) := fun e =>
    finds_after hopen hsane actions (hv.backs.gives_value e)
  have hdefined : ∀ {i}, v.answer (.visibility i) ≠ .no → i ∈ s.model.uniqueDefined := fun hne =>
    (Model.mem_uniqueDefined_of_visible hm (hv.backs _) hne).1
  refine ⟨fun _ h => h, fun i hne _ => ?_, fun i hl hc hmod hyes hcases => ?_,
    fun i _ hl hc hne hle => ?_,
    fun i hl hout hne => ?_, fun c hl hne hcond => ?_⟩
  · obtain ⟨k, hk, p, hp, hholds⟩ := hv.backs.exists_prompt hne
    have hlt := hm.finished.has (x := .symbol i) (hdefined hne)
    exact hcompletes.directDep_ne_no v hlt hk hp hholds
  · have hstandard := finds_after hopen hsane actions (hv.backs.gives_defaultText hl hc)
    rw [hyes] at hstandard
    have hused : (s.after actions).Reads (.tristate i) .yes ∨
        (s.after actions).Finds (exprValue (s.model.symbol i).reverseDep) .mod := by
      rcases hcases with hx | hx
      · exact .inl (hx ▸ hreads (.tristate i))
      · exact .inr (hx ▸ hworth _)
    have hfound := hmodest i (hdefined (hmod ▸ nofun)) hl hc (hmod ▸ hreads (.visibility i))
      hstandard hused
    exact hfound.imp (fun hx => Except.ok.inj ((hworth _).symm.trans hx))
      fun hx => Except.ok.inj ((hworth _).symm.trans hx)
  · exact hunselected i (hdefined hne) hl hc _ _ (hreads (.visibility i)) hne (hworth _) hle
  · exact hleftOut i (hdefined hne) hout
  · have huse := Model.mem_uniqueChoices_of_visible hm (hv.backs (.choiceVisibility c)) hne
    have hon : v.answer (.mode c) ≠ .no := by
      split at hcond
      · exact hcond
      · exact hcond.2.2 ▸ nofun
    have hcond' : if (s.model.choice c).isOptional then v.answer (.mode c) ≠ .no
        else (s.model.choice c).kind = .tristate ∧
          ¬(s.after actions).Reads (.tristate SymbolId.modules) .no ∧
          v.answer (.mode c) = .yes := by
      by_cases hoptional : (s.model.choice c).isOptional
      · rwa [if_pos hoptional]
      · rw [if_neg hoptional] at hcond ⊢
        exact ⟨hcond.1, fun hno => hcond.2.1 (Except.ok.inj ((hreads _).symm.trans hno)), hcond.2.2⟩
    obtain ⟨i, hi, hvalue, htold⟩ :=
      hmodes c huse _ _ (hreads (.choiceVisibility c)) hne (hreads (.mode c)) hcond'
    have hx : v.answer (.tristate i) = v.answer (.mode c) :=
      Except.ok.inj ((hreads (.tristate i)).symm.trans hvalue)
    refine ⟨i, hi, hx, fun hredundant => ?_⟩
    cases hredundant with
    | selected hc => cases hi.symm.trans hc
    | standard hstandard =>
      have hl := hv.isLogical_of_member hm hi (hx ▸ hon)
      exact hon (hx.symm.trans (hv.eq_no_of_standard hl hi hstandard))
    | first d hd hrequired hfirst hkind =>
      cases hi.symm.trans hd
      rcases htold with hoptional | htristate | hother
      · cases hrequired.symm.trans hoptional
      · cases hkind.symm.trans htristate
      · exact hother
          (finds_after hopen hsane actions (Valuation.Backs.gives_defaultSelection hfirst))

end States

theorem tells_condensed {S : Session} {u : Assigned} {v : Valuation} {lead : String}
    {is : List SymbolId} {lines : List String}
    (hlines : List.Forall₂ (v.Condensed S.model u lead) is lines) (htells : ∀ i ∈ is, S.Tells
      (if S.model.writes u i then S.model.lineFor lead i (v.texts i) else "")
      (S.model.toldBy u v.texts i)) :
    ∃ es, S.Tells (String.join lines) es ∧ es.Sublist (is.flatMap (S.model.toldBy u v.texts)) ∧
      ∀ i ∈ is, S.model.writes u i →
        (i, v.texts i) ∈ es ∨ v.Redundant S.model u (S.model.outcome u) i := by
  induction hlines with
  | nil => exact ⟨[], .empty S, List.Sublist.refl [], nofun⟩
  | @cons i line is lines hline _ ih =>
    obtain ⟨es, hes, hsub, hrest⟩ := ih fun j hj => htells j (mem_cons_of_mem i hj)
    rw [String.join_cons]
    obtain rfl | ⟨rfl, hredundant⟩ := hline
    · refine ⟨_, (htells i mem_cons_self).append hes, List.Sublist.append_left hsub _, ?_⟩
      intro j hj hwrites
      rcases mem_cons.1 hj with rfl | hj
      · exact .inl (mem_append_left _ (Model.mem_toldBy.2 ⟨hwrites, rfl, rfl⟩))
      · exact (hrest j hj hwrites).imp_left (mem_append_right _)
    · refine ⟨es, (Session.Tells.empty S).append hes, hsub.trans (sublist_append_right _ _), ?_⟩
      intro j hj hwrites
      rcases mem_cons.1 hj with rfl | hj
      · exact .inr hredundant
      · exact hrest j hj hwrites

/-- A new session that loads the minimal configuration and one that loads the full configuration read
the same, namely what was read when both were saved: if evaluation answers all queries in them, and
nothing was assigned or is so by default that only one of the two configurations carries. -/
theorem minimal_config_reloads
    {w : Workspace} {o : LoadOptions} {s : Session} {r : Reading}
    (hopen : openSession w o = (.ok s, r)) (hsane : s.model.ChoicesSane) (hlegible : s.IsLegible)
    (actions : List Action) (hevaluates : (s.after actions).Evaluates)
    (hfits : (s.after actions).FitsLines) (hcondenses : (s.after actions).Condenses)
    {header path message : String} {keepsOld : Bool} {saved : Session} (hheader : s.Tells header [])
    (hsave : runFrom (saveConfig (some path) header keepsOld) (s.after actions) =
      (.ok message, saved))
    {header' path' message' : String} {saved' : Session} (hheader' : s.Tells header' [])
    (hsave' : runFrom (saveMinimal path' header') (s.after actions) = (.ok message', saved')) :
    ∃ full minimal,
      runFrom (loadConfig (some path) true) (s.on saved.workspace) =
        (.ok ("Loaded configuration '" ++ path ++ "'"), full) ∧
      runFrom (loadConfig (some path') true) (s.on saved'.workspace) =
        (.ok ("Loaded configuration '" ++ path' ++ "'"), minimal) ∧
      (full.Evaluates → minimal.Evaluates →
        ∀ q, ∃ a, (s.after actions).Reads q a ∧ full.Reads q a ∧ minimal.Reads q a) := by
  obtain ⟨hloaded, hvalues⟩ := loaded_of_openSession hopen
  obtain ⟨⟨os, r₀, -, hcompletes⟩, -⟩ := completes_of_openSession hopen
  have hstandard := hasStandardLead_of_openSession hopen hlegible.lead
  have hsound := sound_after hopen hsane actions
  obtain ⟨v, hv⟩ := exists_writable_after hopen hsane actions hevaluates
  have hcondensable := condensable_after hopen hsane actions hv hcondenses
  have hcomposes := hlegible.composes hstandard hloaded hv (.refl _ _)
    fun i hi => fits_after hopen hsane actions hfits hv hi
  have hlead : (s.after actions).reading.symbolLead = "CONFIG_" := hsound.lead_eq.trans hlegible.lead
  have hencodes : (s.after actions).Encodes s.reading.encoding := hsound.encoding_eq
  have hnodup := hloaded.nodup_toldBy (s.after actions).values.assigned v.texts
  have htold := s.model.retells_toldBy (s.after actions).values.assigned v
  -- a session that loads a file which leaves out only what is redundant
  have hagain : ∀ {R es} {w' : Workspace} {p : String} {t : Session},
      s.model.Condensable (s.after actions).values.assigned v R →
      s.model.Retells (s.after actions).values.assigned v R es →
      Ledger.Reflects s.model es t.values.ledger →
      runFrom (loadConfig (some p) true) (s.on w') = (.ok ("Loaded configuration '" ++ p ++ "'"), t) →
      t.Evaluates → ∀ q, t.Reads q (v.answer q) := by
    intro R es w' p t hcondensable hes hreflects hload hanswers q
    have hsound' := sound_of_load hloaded hsane hvalues hload
    have hrepeats := hes.repeats hreflects hv hloaded hsane hcondensable
      (exists_outcome (S := s.on w') hsound' hanswers)
    exact reads_of_outcome (S := s.on w') hsound' (hrepeats.outcome q _ (hv.backs q))
  -- the full configuration
  obtain ⟨text, hgives, htells⟩ := hcomposes.configText hloaded hcompletes.entry_top hheader
  have htext : (runFrom (evaluating (configText "CONFIG_" header)) (s.after actions)).1 =
      .ok text := runFrom_evaluating_of_gives hsound hgives fun v hv => .inl hv
  have hfile := saveConfig_hasText hencodes htells.not_mem_return (hlead ▸ htext) hsave
  obtain ⟨full, hload, hreflects⟩ := htells.exists_load hloaded hvalues hnodup hfile
  -- the minimal configuration
  obtain ⟨text', htext', hfile'⟩ := saveMinimal_hasText hencodes hsave'
  rw [hlead, runFrom_evaluating, hsound.model] at htext'
  have hdefaults : ∀ i c, (s.model.symbol i).choice = some c →
      ∀ d ∈ (s.model.choice c).defaults, ∃ j, d.1 = .symbol j := by
    intro i c hc d hd
    have huse := (hloaded.finished.wellFormed.members i c hc).1
    have hmember := hsane.defaults c (hloaded.finished.mem_uniqueChoices.2 huse) d hd
    unfold Model.isMember at hmember
    split at hmember
    · rename_i j hj
      exact ⟨j, hj⟩
    · cases hmember
  obtain ⟨-, lines, rfl, hlines⟩ := hv.backs.ensures_minimalText hdefaults "CONFIG_" header'
    (s.after actions).values text' _ hsound.values.coherent (Prod.ext htext' rfl)
  obtain ⟨es, htells', hsub, hrest⟩ := tells_condensed hlines hcomposes.tells
  have htells' := hheader'.append htells'
  rw [nil_append] at htells'
  obtain ⟨minimal, hload', hreflects'⟩ := htells'.exists_load hloaded hvalues
    (hnodup.sublist (hsub.map Prod.fst)) (hfile' htells'.not_mem_return)
  refine ⟨full, minimal, hload, hload', fun hanswers hanswers' q => ?_⟩
  refine ⟨v.answer q, reads_of_outcome hsound (hv.backs q),
    hagain hcondensable ⟨htold.only, fun i hi hwrites => ?_⟩ hreflects hload hanswers q,
    hagain hcondensable ⟨fun i t ht => htold.only i t (hsub.subset ht), hrest⟩ hreflects' hload'
      hanswers' q⟩
  exact .inl ((htold.rest i hi hwrites).resolve_right id)

/-- Modules are turned on, and a symbol can be made one. -/
def moduleWorkspace : Workspace :=
  { files := { entries := [(["Kconfig"],
      .file "config MODULES\n\tbool\n\tdefault y\nconfig A\n\ttristate \"a\"\n".toUTF8)] } }

/-- The symbol is made a module, which the minimal configuration tells without telling that there are
modules. -/
theorem minimal_config_reloads_module :
    ∃ s r saved saved' full minimal, openSession moduleWorkspace {} = (.ok s, r) ∧
      runFrom (saveConfig (some "full") generatedBy true) (s.after [.setSymbol true 4 (.number 1)]) =
        (.ok "Configuration saved to 'full'", saved) ∧
      runFrom (saveMinimal "minimal" generatedBy) (s.after [.setSymbol true 4 (.number 1)]) =
        (.ok "Minimal configuration saved to 'minimal'", saved') ∧
      runFrom (loadConfig (some "full") true) (s.on saved.workspace) =
        (.ok ("Loaded configuration '" ++ "full" ++ "'"), full) ∧
      runFrom (loadConfig (some "minimal") true) (s.on saved'.workspace) =
        (.ok ("Loaded configuration '" ++ "minimal" ++ "'"), minimal) ∧
      ∀ q, ∃ a, (s.after [.setSymbol true 4 (.number 1)]).Reads q a ∧ full.Reads q a ∧
        minimal.Reads q a := by
  obtain ⟨s, r, hopen, hrun⟩ := exists_of_opensTo moduleWorkspace (fun s =>
      let t := s.after [.setSymbol true 4 (.number 1)]
      decide s.model.ChoicesSane && s.reading.symbolLead == "CONFIG_" &&
      s.model.uniqueChoices == [] &&
      s.model.uniqueDefined.all (fun i => decide (IsPlainName (s.model.symbol i).name) &&
        !s.model.isLeftOut i && (s.model.symbol i).kind.isLogical &&
        (runFrom (Observation.ask (.visibility i)).read t).1.toOption != some .mod) &&
      s.model.allEntries.all (fun k => decide (s.model.entry k).HasPlainTitle) &&
      s.model.queries.all (fun q => (runFrom (Observation.ask q).read t.cleared).1.isOk) &&
      let saving := runFrom (saveConfig (some "full") generatedBy true) t
      let saving' := runFrom (saveMinimal "minimal" generatedBy) t
      saving.1.toOption == some "Configuration saved to 'full'" &&
      saving'.1.toOption == some "Minimal configuration saved to 'minimal'" &&
      s.model.queries.all fun q =>
        (runFrom (Observation.ask q).read
          (runFrom (loadConfig (some "full") true) (s.on saving.2.workspace)).2.cleared).1.isOk &&
        (runFrom (Observation.ask q).read
          (runFrom (loadConfig (some "minimal") true) (s.on saving'.2.workspace)).2.cleared).1.isOk)
    (by decide +kernel)
  rcases hsave : runFrom (saveConfig (some "full") generatedBy true)
    (s.after [.setSymbol true 4 (.number 1)]) with ⟨_, saved⟩
  rcases hsave' : runFrom (saveMinimal "minimal" generatedBy)
    (s.after [.setSymbol true 4 (.number 1)]) with ⟨_, saved'⟩
  simp only [hsave, hsave', Bool.and_eq_true, decide_eq_true_eq, all_eq_true, beq_iff_eq,
    bne_iff_ne, Bool.not_eq_true'] at hrun
  obtain ⟨⟨⟨⟨⟨⟨hsane, hlead⟩, hchoices⟩, hsymbols⟩, htitles⟩, hqueries⟩, ⟨hfull, hminimal⟩,
    hagain⟩ := hrun
  cases eq_ok_of_toOption hfull
  cases eq_ok_of_toOption hminimal
  have hsound := sound_after hopen hsane [.setSymbol true 4 (.number 1)]
  obtain ⟨hloaded, hvalues⟩ := loaded_of_openSession hopen
  have hevaluates : (s.after [.setSymbol true 4 (.number 1)]).Evaluates :=
    evaluates_of_queries hsound fun q hq => exists_eq_ok_of_isOk (hqueries q hq)
  have hlogical : ∀ i ∈ (s.after [.setSymbol true 4 (.number 1)]).model.uniqueDefined,
      ((s.after [.setSymbol true 4 (.number 1)]).model.symbol i).kind.isLogical = true := by
    rw [hsound.model]
    exact fun i hi => (hsymbols i hi).1.2
  have hfits : (s.after [.setSymbol true 4 (.number 1)]).FitsLines := by
    have hplain : ∀ k : Kind, k.isLogical = true → k ≠ .string ∧ k.isNumeric = false := by
      intro k
      cases k <;> decide
    refine ⟨fun i hi hkind => ?_, fun i hi hkind => ?_⟩
    · exact absurd hkind (hplain _ (hlogical i hi)).1
    · cases hkind.symm.trans (hplain _ (hlogical i hi)).2
  have hcondenses : (s.after [.setSymbol true 4 (.number 1)]).Condenses := by
    refine ⟨fun i hi _ _ hmod => ?_, fun i hi hl => ?_, fun i hi hout => ?_, fun c hc => ?_⟩
    · refine absurd ?_ (hsymbols i (hsound.model ▸ hi)).2
      rw [hmod]
      rfl
    · cases hl.symm.trans (hlogical i hi)
    · rw [hsound.model] at hi hout
      cases hout.symm.trans (hsymbols i hi).1.1.2
    · rw [hsound.model, hchoices] at hc
      cases hc
  have hstandard := hasStandardLead_of_openSession hopen hlead
  obtain ⟨full, minimal, hload, hload', hreads⟩ := minimal_config_reloads hopen hsane
    ⟨hlead, fun i hi => (hsymbols i hi).1.1.1, htitles⟩ _ hevaluates hfits hcondenses
    hstandard.tells_generatedBy hsave hstandard.tells_generatedBy hsave'
  rw [hload, hload'] at hagain
  refine ⟨s, r, _, _, full, minimal, hopen, hsave, hsave', hload, hload', ?_⟩
  refine hreads ?_ ?_
  · exact evaluates_of_queries (S := s.on saved.workspace)
      (sound_of_load hloaded hsane hvalues hload) fun q hq => exists_eq_ok_of_isOk (hagain q hq).1
  · exact evaluates_of_queries (S := s.on saved'.workspace)
      (sound_of_load hloaded hsane hvalues hload') fun q hq => exists_eq_ok_of_isOk (hagain q hq).2

end Buildsmith.Kconfig
