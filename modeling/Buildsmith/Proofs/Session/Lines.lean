import Buildsmith.Proofs.Evaluation.Giving
import Buildsmith.Proofs.Session.Entering

/-!
# Reading back what was written

A text of lines tells what is to be assigned: the statements that its lines are read as.  The line of
a symbol tells the value that was written, if the value fits on a line; headings tell nothing.
-/

namespace Buildsmith.Kconfig

open Text Text.Pattern String Quoted
open Session (start readLine statement?)

/-- A session in which names have the usual lead in configuration files. -/
structure Session.HasStandardLead (S : Session) : Prop where
  lead : S.reading.symbolLead = "CONFIG_"
  setPattern : S.setPattern = ⟨setNode "CONFIG_".toList, { ascii := true }, 2⟩
  unsetPattern : S.unsetPattern = ⟨unsetNode "CONFIG_".toList, { ascii := true }, 1⟩

/-- A session in which the lead of names is matched as it is written. -/
def Session.HasPlainLead (S : Session) : Prop :=
  S.setPattern = ⟨setNode S.reading.symbolLead.toList, { ascii := true }, 2⟩

theorem Session.HasStandardLead.plain {S : Session} (hS : S.HasStandardLead) : S.HasPlainLead := by
  rw [Session.HasPlainLead, hS.lead, hS.setPattern]

theorem compile_eq_ok {flags : Flags} {p : String} {node : Node} {n : Nat}
    (h : (compile flags p).toOption.map (fun c => (c.node, c.flags, c.groupCount)) =
      some (node, flags, n)) : compile flags p = .ok ⟨node, flags, n⟩ := by
  cases hc : compile flags p with
  | error e =>
    rw [hc] at h
    cases h
  | ok c =>
    rw [hc] at h
    cases h
    rfl

theorem hasStandardLead_of_openSession {w : Workspace} {o : LoadOptions} {s : Session} {r : Reading}
    (hopen : openSession w o = (.ok s, r)) (hlead : s.reading.symbolLead = "CONFIG_") :
    s.HasStandardLead := by
  obtain ⟨hstart, -⟩ := start_of_openSession hopen
  rw [(Session.start_eq_ok hstart).1] at hlead
  have hset : compile { ascii := true } (r.symbolLead ++ "([^=]+)=(.*)") =
      .ok ⟨setNode "CONFIG_".toList, { ascii := true }, 2⟩ := by
    rw [hlead]
    exact compile_eq_ok (by decide +kernel)
  have hunset : compile { ascii := true } ("# " ++ r.symbolLead ++ "([^ ]+) is not set") =
      .ok ⟨unsetNode "CONFIG_".toList, { ascii := true }, 1⟩ := by
    rw [hlead]
    exact compile_eq_ok (by decide +kernel)
  simp only [start, hset, hunset] at hstart
  have hs := Except.ok.inj hstart
  exact ⟨by rw [← hs, hlead], by rw [← hs], by rw [← hs]⟩

/-- A name that is not empty and contains no blank and no `=`, such as one of letters, digits and
underscores. -/
def IsPlainName (name : String) : Prop :=
  name ≠ "" ∧ ∀ c ∈ name.toList, c ≠ '=' ∧ isBlank c = false

instance (name : String) : Decidable (IsPlainName name) :=
  have := List.decidableBAll (fun c => c ≠ '=' ∧ isBlank c = false) name.toList
  inferInstanceAs (Decidable (_ ∧ _))

/-- A text of whole lines that tells what is to be assigned. -/
def Session.Tells (S : Session) (text : String) (es : List (SymbolId × String)) : Prop :=
  ∃ ls, text = linesText ls ∧ (∀ l ∈ ls, '\n' ∉ l.toList ∧ '\r' ∉ l.toList) ∧
    ∃ founds, ls.mapM (fun l => S.readLine (trimEnd l)) = .ok founds ∧
      founds.filterMap S.statement? = es

namespace Session.Tells

variable {S : Session} {text text' : String} {es es' : List (SymbolId × String)}

theorem empty (S : Session) : S.Tells "" [] :=
  ⟨[], rfl, by simp, [], rfl, rfl⟩

theorem append (h : S.Tells text es) (h' : S.Tells text' es') :
    S.Tells (text ++ text') (es ++ es') := by
  obtain ⟨ls, rfl, hbreaks, founds, hfounds, rfl⟩ := h
  obtain ⟨ls', rfl, hbreaks', founds', hfounds', rfl⟩ := h'
  refine ⟨ls ++ ls', (linesText_append ls ls').symm, ?_, founds ++ founds', ?_,
    List.filterMap_append⟩
  · intro l hl
    exact (List.mem_append.1 hl).elim (hbreaks l) (hbreaks' l)
  · rw [List.mapM_append, hfounds, hfounds']
    rfl

theorem line {l : String} (hfeed : '\n' ∉ l.toList) (hreturn : '\r' ∉ l.toList) {found : ConfigLine}
    (hfound : S.readLine (trimEnd l) = .ok found) :
    S.Tells (l ++ "\n") (S.statement? found).toList := by
  refine ⟨[l], ?_, by simp [hfeed, hreturn], [found], ?_, ?_⟩
  · simp [linesText]
  · rw [List.mapM_cons, hfound]
    rfl
  · cases hs : S.statement? found <;> simp [hs]

theorem not_mem_return (h : S.Tells text es) : '\r' ∉ text.toList := by
  obtain ⟨ls, rfl, hbreaks, -⟩ := h
  rw [toList_linesText]
  intro hmem
  obtain ⟨l, hl, hmem⟩ := List.mem_flatMap.1 hmem
  rcases List.mem_append.1 hmem with hmem | hmem
  · exact (hbreaks l hl).2 hmem
  · cases List.mem_singleton.1 hmem

theorem exists_linesIn (h : S.Tells text es) {bytes : ByteArray}
    (hfault : (decodeFile S.reading.encoding bytes).fault = none)
    (htext : (decodeFile S.reading.encoding bytes).unified = text) (path : String) :
    ∃ founds, S.linesIn path bytes = .ok founds ∧ founds.filterMap S.statement? = es := by
  obtain ⟨ls, rfl, hbreaks, founds, hfounds, hes⟩ := h
  have hlines : (decodeFile S.reading.encoding bytes).lines = ls.map (· ++ "\n") := by
    rw [DecodedFile.lines, hfault, htext]
    exact physicalLines_linesText fun l hl => (hbreaks l hl).1
  refine ⟨founds, Session.linesIn_eq_ok.2 ⟨?_, hfault⟩, hes⟩
  rw [hlines, List.mapM_map]
  simpa only [Function.comp_def, trimEnd_line] using hfounds

end Session.Tells

section Lines

variable {S : Session} {i : SymbolId}

/-! ## Lines without statements -/

theorem trimEnd_isPrefix (l : String) : (trimEnd l).toList <+: l.toList := by
  rw [trimEnd, toList_ofList]
  have hsuffix := List.reverse_prefix.2 (List.dropWhile_suffix isBlank (l := l.toList.reverse))
  rwa [List.reverse_reverse] at hsuffix

namespace Session.HasStandardLead

variable (hS : S.HasStandardLead)

include hS

variable {l : String}

theorem readLine_other (hset : ¬"CONFIG_".toList <+: l.toList)
    (hunset : ¬ '#' :: ' ' :: "CONFIG_".toList <+: l.toList) :
    S.readLine (trimEnd l) = .ok .other := by
  have hprefix := trimEnd_isPrefix l
  rw [← ofList_toList (s := trimEnd l)]
  unfold readLine Compiled.match?
  rw [hS.setPattern, hS.unsetPattern]
  rw [matchAt?_set_eq_none fun h => hset (h.trans hprefix),
    matchAt?_unset_eq_none fun h => hunset (h.trans hprefix)]

theorem tells_other (hfeed : '\n' ∉ l.toList) (hreturn : '\r' ∉ l.toList)
    (hset : ¬"CONFIG_".toList <+: l.toList)
    (hunset : ¬ '#' :: ' ' :: "CONFIG_".toList <+: l.toList) : S.Tells (l ++ "\n") [] :=
  .line hfeed hreturn (hS.readLine_other hset hunset)

theorem tells_generatedBy : S.Tells generatedBy [] :=
  hS.tells_other (l := "# Generated by Kconfiglib (https://github.com/ulfalizer/Kconfiglib)")
    (by decide) (by decide) (by decide) (by decide)

section

variable {title : String} (hfeed : '\n' ∉ title.toList) (hreturn : '\r' ∉ title.toList)
  (htitle : ¬"CONFIG_".toList <+: title.toList)

include hfeed hreturn htitle

theorem tells_remark : S.Tells ("# " ++ title ++ "\n") [] := by
  refine hS.tells_other ?_ ?_ ?_ ?_
  all_goals rw [toList_append]
  · simpa using hfeed
  · simpa using hreturn
  · intro h
    cases (List.cons_prefix_cons.1 h).1
  · intro h
    exact htitle ((List.prefix_append_right_inj ['#', ' ']).1 h)

theorem tells_heading : S.Tells ("\n#\n# " ++ title ++ "\n#\n") [] := by
  have hblank : S.Tells ("" ++ "\n") [] :=
    hS.tells_other (by decide) (by decide) (by decide) (by decide)
  have hmark : S.Tells ("#" ++ "\n") [] :=
    hS.tells_other (by decide) (by decide) (by decide) (by decide)
  have hall := ((hblank.append hmark).append (hS.tells_remark hfeed hreturn htitle)).append hmark
  have htext : "" ++ "\n" ++ ("#" ++ "\n") ++ ("# " ++ title ++ "\n") ++ ("#" ++ "\n") =
      "\n#\n# " ++ title ++ "\n#\n" := by
    apply toList_injective
    simp
  rwa [htext] at hall

omit htitle in
theorem tells_end : S.Tells ("# end of " ++ title ++ "\n") [] := by
  have hremark : S.Tells ("# " ++ ("end of " ++ title) ++ "\n") [] := by
    refine hS.tells_remark (by simpa using hfeed) (by simpa using hreturn) fun h => ?_
    rw [toList_append] at h
    cases (List.cons_prefix_cons.1 h).1
  rwa [← append_assoc] at hremark

end

end Session.HasStandardLead

/-! ## Lines of symbols -/

theorem Session.HasPlainLead.readLine_set (hS : S.HasPlainLead) {name value rest : String}
    (hname : name ≠ "") (heq : '=' ∉ name.toList) (hfeed : '\n' ∉ value.toList)
    (hrest : ∀ c ∈ rest.toList.head?, c = '\n') :
    S.readLine (S.reading.symbolLead ++ name ++ "=" ++ value ++ rest) =
      .ok (.set (some name) (some value)) := by
  have hne : name.toList ≠ [] := by simpa using hname
  obtain ⟨f, hf, hfirst, hsecond⟩ := matchAt?_set S.reading.symbolLead.toList name.toList
    value.toList rest.toList hne heq hfeed hrest
  have htext : ofList
      (S.reading.symbolLead.toList ++ (name.toList ++ '=' :: (value.toList ++ rest.toList))) =
      S.reading.symbolLead ++ name ++ "=" ++ value ++ rest := by
    apply toList_injective
    simp
  rw [htext] at hf hfirst hsecond
  unfold readLine Compiled.match?
  rw [show S.setPattern = _ from hS]
  simp only [hf, hfirst, hsecond, ofList_toList, if_true]

theorem namedSymbol?_name (hm : S.model.Loaded) (hi : i ∈ S.model.uniqueDefined) :
    S.namedSymbol? (some (S.model.symbol i).name) = some i := by
  have hwf := hm.wellFormed
  obtain ⟨hlt, hconstant, -⟩ := hwf.defined i (hm.finished.mem_uniqueDefined.1 hi)
  have hsymbol : ∀ j (hj : j < S.model.symbols.size), S.model.symbols[j] = S.model.symbol j := by
    intro j hj
    simp [Model.symbol, hj]
  have hfound : S.model.findSymbol? false (S.model.symbol i).name = some i := by
    rw [Model.findSymbol?, Array.findIdx?_eq_some_iff_findIdx_eq]
    refine ⟨hlt, (Array.findIdx_eq hlt).2 ⟨?_, fun j hj => ?_⟩⟩
    · simp [hsymbol i hlt, hconstant]
    · have hjlt : j < S.model.symbols.size := Nat.lt_trans hj hlt
      rw [hsymbol j hjlt]
      by_contra htrue
      simp only [Bool.not_eq_false, Bool.and_eq_true, beq_iff_eq] at htrue
      have hsame := hwf.names j i hjlt hlt htrue.1 hconstant htrue.2
      exact absurd hsame (Nat.ne_of_lt hj)
  rw [Session.namedSymbol?, Option.bind_some, hfound]

theorem definedSymbol?_name (hm : S.model.Loaded) (hi : i ∈ S.model.uniqueDefined) :
    S.definedSymbol? (some (S.model.symbol i).name) = some i := by
  obtain ⟨-, -, hentries, -⟩ :=
    hm.wellFormed.defined i (hm.finished.mem_uniqueDefined.1 hi)
  rw [Session.definedSymbol?, namedSymbol?_name hm hi]
  simp [hentries]

/-- Whether a text is one that a symbol has as its value and that fits on a line. -/
def Model.Fits (m : Model) (i : SymbolId) (val : String) : Prop :=
  ((m.symbol i).kind.isLogical = true →
    val = "n" ∨ val = "y" ∨ val = "m" ∧ (m.symbol i).kind = .tristate) ∧
  ((m.symbol i).kind = .string → '\n' ∉ val.toList ∧ '\r' ∉ val.toList) ∧
  ((m.symbol i).kind.isNumeric = true → ∀ c ∈ val.toList, isBlank c = false)

theorem breaks_of_not_blank
    {cs : List Char} (h : ∀ c ∈ cs, isBlank c = false) : '\n' ∉ cs ∧ '\r' ∉ cs :=
  ⟨fun hmem => absurd (h _ hmem) (by decide), fun hmem => absurd (h _ hmem) (by decide)⟩

namespace Session.HasStandardLead

variable (hS : S.HasStandardLead)

include hS

variable {name val : String}

theorem readLine_unset (hname : IsPlainName name) :
    S.readLine ("# CONFIG_" ++ name ++ " is not set") = .ok (.unset (some name)) := by
  have hne : name.toList ≠ [] := by simpa using hname.1
  have hspace : ' ' ∉ name.toList := fun h => absurd (hname.2 _ h).2 (by decide)
  obtain ⟨f, hf, hfirst⟩ := matchAt?_unset "CONFIG_".toList name.toList hne hspace
  have htext : ofList
      ('#' :: ' ' :: "CONFIG_".toList ++ (name.toList ++ " is not set".toList)) =
      "# CONFIG_" ++ name ++ " is not set" := by
    apply toList_injective
    simp
  have hnone : ¬"CONFIG_".toList <+: ("# CONFIG_" ++ name ++ " is not set").toList := by
    rw [toList_append, toList_append]
    intro h
    cases (List.cons_prefix_cons.1 h).1
  have hset := matchAt?_set_eq_none hnone
  rw [htext] at hf hfirst
  rw [ofList_toList] at hset
  unfold readLine Compiled.match?
  rw [hS.setPattern, hS.unsetPattern]
  simp only [hf, hfirst, hset, ofList_toList]

theorem tells_set (value : String) (hname : IsPlainName name) (hfeed : '\n' ∉ value.toList)
    (hreturn : '\r' ∉ value.toList) (hlast : ∀ c ∈ value.toList.getLast?, isBlank c = false) :
    S.Tells ("CONFIG_" ++ name ++ "=" ++ value ++ "\n")
      (S.statement? (.set (some name) (some value))).toList := by
  obtain ⟨hnameFeed, hnameReturn⟩ := breaks_of_not_blank fun c hc => (hname.2 c hc).2
  refine .line ?_ ?_ ?_
  · simp [hnameFeed, hfeed]
  · simp [hnameReturn, hreturn]
  · have hread := hS.plain.readLine_set hname.1 (fun h => (hname.2 _ h).1 rfl) hfeed
      (by simp : ∀ c ∈ "".toList.head?, c = '\n')
    rw [hS.lead, append_empty] at hread
    rw [trimEnd_eq_self, hread]
    cases hvalue : value.toList.getLast? with
    | some d => simpa [List.getLast?_cons, hvalue] using hlast d hvalue
    | none => simp [List.getLast?_cons, hvalue, isBlank]

theorem tells_unset (hname : IsPlainName name) :
    S.Tells ("# " ++ "CONFIG_" ++ name ++ " is not set\n")
      (S.statement? (.unset (some name))).toList := by
  obtain ⟨hfeed, hreturn⟩ := breaks_of_not_blank fun c hc => (hname.2 c hc).2
  have htells : S.Tells ("# CONFIG_" ++ name ++ " is not set" ++ "\n")
      (S.statement? (.unset (some name))).toList := by
    refine .line ?_ ?_ ?_
    · simp [hfeed]
    · simp [hreturn]
    · rw [trimEnd_eq_self, hS.readLine_unset hname]
      simp [List.getLast?_cons, isBlank]
  have htext : "# CONFIG_" ++ name ++ " is not set" ++ "\n" =
      "# " ++ "CONFIG_" ++ name ++ " is not set\n" := by
    apply toList_injective
    simp
  rwa [htext] at htells

theorem tells_quoted (hname : IsPlainName name) (hfeed : '\n' ∉ val.toList)
    (hreturn : '\r' ∉ val.toList) :
    S.Tells ("CONFIG_" ++ name ++ "=\"" ++ escape val ++ "\"\n")
      (S.statement? (.set (some name) (some ("\"" ++ escape val ++ "\"")))).toList := by
  have hescape : ∀ c, c ≠ '\\' → c ∉ val.toList → c ∉ (escape val).toList := by
    intro c hc hval hmem
    rw [escape, toList_ofList] at hmem
    exact (mem_escapeChars hmem).elim hc hval
  have hfeed' := hescape '\n' (by decide) hfeed
  have hreturn' := hescape '\r' (by decide) hreturn
  have htells := hS.tells_set ("\"" ++ escape val ++ "\"") hname
    (by simpa using hfeed') (by simpa using hreturn') (by simp [List.getLast?_cons, isBlank])
  have htext : "CONFIG_" ++ name ++ "=" ++ ("\"" ++ escape val ++ "\"") ++ "\n" =
      "CONFIG_" ++ name ++ "=\"" ++ escape val ++ "\"\n" := by
    apply toList_injective
    simp
  rwa [htext] at htells

theorem tells_lineFor (hm : S.model.Loaded) (hi : i ∈ S.model.uniqueDefined)
    (hname : IsPlainName (S.model.symbol i).name) (hkind : (S.model.symbol i).kind ≠ .unknown)
    (hval : S.model.Fits i val) : S.Tells (S.model.lineFor "CONFIG_" i val) [(i, val)] := by
  have hfound := definedSymbol?_name hm hi
  obtain ⟨hlogical, hstring, hnumeric⟩ := hval
  unfold Model.lineFor
  by_cases hl : (S.model.symbol i).kind.isLogical
  · rw [if_pos hl]
    by_cases hn : val = "n"
    · rw [hn]
      simpa [statement?, hfound, hl] using hS.tells_unset hname
    · rw [if_pos hn]
      have hletter := (hlogical hl).resolve_left hn
      have htake : takeFirst 1 val = val ∧ S.model.isLetter i val := by
        rcases hletter with rfl | ⟨rfl, hk⟩
        · exact ⟨by decide, by simp [Model.isLetter]⟩
        · exact ⟨by decide, by simp [Model.isLetter, hk]⟩
      have hblank : ∀ c ∈ val.toList, isBlank c = false := by
        rcases hletter with rfl | ⟨rfl, -⟩ <;> simp [isBlank]
      obtain ⟨hfeed, hreturn⟩ := breaks_of_not_blank hblank
      have htells := hS.tells_set _ hname hfeed hreturn fun c hc =>
        hblank c (List.mem_of_getLast? hc)
      simpa [statement?, hfound, hl, htake.1, htake.2] using htells
  · rw [if_neg hl]
    by_cases hnum : (S.model.symbol i).kind.isNumeric
    · rw [if_pos hnum]
      have hblank := hnumeric hnum
      obtain ⟨hfeed, hreturn⟩ := breaks_of_not_blank hblank
      have hnotString : (S.model.symbol i).kind ≠ .string := by
        intro hk
        rw [hk] at hnum
        cases hnum
      have htells := hS.tells_set _ hname hfeed hreturn fun c hc =>
        hblank c (List.mem_of_getLast? hc)
      simpa [statement?, hfound, hl, hnotString] using htells
    · rw [if_neg hnum]
      have hisString : (S.model.symbol i).kind = .string := by
        cases hk : (S.model.symbol i).kind <;> simp_all [Kind.isLogical, Kind.isNumeric]
      obtain ⟨hfeed, hreturn⟩ := hstring hisString
      simpa [statement?, hfound, hisString, Kind.isLogical, literalBody?_quoted,
        unescape_escape] using hS.tells_quoted hname hfeed hreturn

end Session.HasStandardLead

end Lines

end Buildsmith.Kconfig
