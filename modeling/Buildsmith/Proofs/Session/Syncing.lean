import Buildsmith.Proofs.Session.Marking

/-!
# Synchronising marks with values

Synchronising marks reads the list of values that the previous build saw, makes the marks of all
symbols that differ, and writes the list anew.  The list is read back as it was written, so that the
marks which are made are exactly those of the symbols of which a build sees something else than the
build before (`syncMarks_marksAnew`).  A name in the list that is gone altogether gets its mark as
well (`syncMarks_drops`).
-/

namespace Buildsmith.Kconfig

variable {S : Session} {P : Values → Prop} {files : FileTree} {u : Assigned}
  {old out : SymbolId → Option String} {dir path text : String}

/-! ## Writing the list -/

theorem gives_writeText_alters : Gives (S.Beside P files) (writeText path text) fun _ t => ∃ files',
      files.Alters (fun q => files.resolve S.workspace.cwd path = .ok q) files' ∧
        S.Beside P files' t := by
  refine gives_writeText_of fun s bytes w hs _ hwrite => ?_
  obtain ⟨files', hfiles, rfl⟩ := Workspace.write_eq_ok_iff.1 hwrite
  rw [hs.files, hs.cwd] at hfiles
  obtain ⟨place, hplace, halters, -⟩ := FileTree.Alters.write hfiles
  exact ⟨files', halters.mono fun q hq => hq ▸ hplace, hs.setting, hs.cwd, rfl, hs.values⟩

theorem preserves_hasContents {Q : Session → Prop} : Preserves Q (hasContents path text) := by
  refine .get_bind' fun s => ?_
  split
  · exact .throw fun _ h => h
  · exact .keep
  · dsimp only
    split
    · exact .ite (fun _ => .throw fun _ h => h) fun _ => .keep
    · exact .keep

theorem gives_writeIfChanged_alters :
    Gives (S.Beside P files) (writeIfChanged path text) fun _ t => ∃ files',
      files.Alters (fun q => files.resolve S.workspace.cwd path = .ok q) files' ∧
        S.Beside P files' t := by
  refine preserves_hasContents.gives.bind fun found => .ite (fun _ => gives_writeText_alters) fun _ => ?_
  exact .pure fun t ht => ⟨files, .refl _ _, ht⟩

theorem gives_writeIfChanged_hasText {e : Text.Encoding} (hreturn : '\r' ∉ text.toList) :
    Gives (Session.Encodes e) (writeIfChanged path text) fun _ t => t.workspace.HasText e path text := by
  refine gives_hasContents.bind fun found => .ite (fun _ => ?_) fun hfound => ?_
  · exact (gives_writeText hreturn).pre fun _ h => h.1
  · exact .pure fun t ht => ht.2 (by simpa using hfound)

/-! ## One synchronisation -/

/-- The files once the directory of the marks is there. -/
def WithDir (dir : String) (w : Workspace) (files : FileTree) : Prop :=
  w.pathExists dir = true ∧ files = w.files ∨ w.files.makeDir w.cwd dir = .ok files

theorem WithDir.alters {w : Workspace} (h : WithDir dir w files) :
    w.files.Alters (fun _ => False) files := by
  rcases h with ⟨-, rfl⟩ | h
  · exact .refl _ _
  · obtain ⟨_, -, -, -, halters⟩ := FileTree.Alters.makeDir h
    exact halters

theorem LacksList.read_withDir_ne
    {w : Workspace} (h : LacksList dir w.files w.cwd) (hdir : WithDir dir w files)
    (bytes : ByteArray) : files.read w.cwd (Path.join dir "auto.conf") ≠ .ok bytes := by
  rcases hdir with ⟨hexists, rfl⟩ | hmake
  · exact h.read_ne hexists bytes
  · exact h.read_makeDir_ne hmake bytes

def Model.listText (m : Model) (lead : String) (out : SymbolId → Option String) : String :=
  String.join (m.uniqueDefined.map fun i => m.effectLine lead i (out i))

theorem Session.Compares.not_mem_listText
    (h : S.Compares u old out) (hlists : S.model.Lists S.reading.symbolLead out) :
    '\r' ∉ (S.model.listText S.reading.symbolLead out).toList := by
  rw [Model.listText, join_effectLines h.out, Text.toList_linesText]
  intro hmem
  obtain ⟨l, hl, hmem⟩ := List.mem_flatMap.1 hmem
  obtain ⟨e, he, rfl⟩ := List.mem_map.1 hl
  obtain ⟨hi, hval⟩ := mem_listing he
  rcases List.mem_append.1 hmem with hmem | hmem
  · exact (hlists.line hi hval).2.2 hmem
  · cases List.mem_singleton.1 hmem

theorem gives_writeList {names : String → Prop} {Q : String → Prop}
    (hwarned : ∀ v ws, P v → P { v with warnings := ws })
    (hx : EvalM.Ensures S.model P (valuesText S.reading.symbolLead) Q) :
    Gives (S.Syncs P dir names) (writeList dir)
      fun _ t => MarksAnew dir names S.workspace t.workspace ∧ ∃ text, Q text ∧
        ('\r' ∉ text.toList →
          t.workspace.HasText S.reading.encoding (Path.join dir "auto.conf") text) := by
  refine .get_bind fun s hs => ?_
  obtain ⟨files, hmarked, hbeside⟩ := hs
  rw [hbeside.lead]
  refine ((Session.Beside.gives_evaluating hwarned hx).mono (fun _ heq => heq ▸ hbeside)
    fun _ _ ht => ht).bind fun text => .and_left fun htext => Gives.intro fun t a t' ht hrun => ?_
  obtain ⟨files', halters, ht'⟩ := gives_writeIfChanged_alters.apply ht hrun
  exact ⟨hmarked.marksAnew ht'.cwd (ht'.files ▸ halters), text, htext, fun hreturn =>
    (gives_writeIfChanged_hasText hreturn).apply ht.encoding hrun⟩

/-- What the parts of a synchronisation do, it does as a whole. -/
theorem gives_syncMarks_of {Q : Values → Prop} {N : String → Prop} {I : Session → Prop}
    {R : PUnit → Session → Prop} (hload : ∀ files, WithDir dir S.workspace files →
      Gives (S.Beside P files) (loadOldValues dir) fun _ => S.Syncs Q dir N)
    (hmarks : Gives (S.Syncs Q dir N) (touchChanged dir S.model.uniqueDefined) fun _ => I)
    (hlist : Gives I (writeList dir) R) :
    Gives (S.Beside P S.workspace.files) (syncMarks dir) R := by
  have hrest : ∀ files, WithDir dir S.workspace files →
      Gives (S.Beside P files) (renewMarks dir) R := by
    intro files hfiles
    refine (hload files hfiles).bind fun _ => .get_bind fun s hs => ?_
    rw [hs.model]
    exact .bind (hmarks.mono (fun _ heq => heq ▸ hs) fun _ _ ht => ht) fun _ => hlist
  refine .get_bind fun s hs => ?_
  have hexists : s.workspace.pathExists dir = S.workspace.pathExists dir := by
    rw [Workspace.pathExists, hs.files, hs.cwd]
    rfl
  rw [hexists]
  refine .mono (P := S.Beside P S.workspace.files) ?_ (fun _ heq => heq ▸ hs) fun _ _ ht => ht
  refine .ite (fun _ => ?_) fun hthere => ?_
  · exact Session.Beside.gives_changingFiles.bind fun _ => .of_exists fun files => .and_left fun hmake =>
      hrest files (.inr hmake)
  · exact hrest _ (.inl ⟨by simpa using hthere, rfl⟩)

theorem gives_syncMarks (h : S.Compares u old out) (hload : ∀ files, WithDir dir S.workspace files →
      Gives (S.Beside (Coherent S.model u) files) (loadOldValues dir) fun _ =>
        S.Beside (Recollects S.model u old) files) :
    Gives (S.Beside (Coherent S.model u) S.workspace.files) (syncMarks dir) fun _ t => MarksAnew dir
        (fun n => ∃ i ∈ S.model.uniqueDefined, out i ≠ old i ∧ (S.model.symbol i).name = n)
        S.workspace t.workspace ∧
      (S.model.Lists S.reading.symbolLead out → t.workspace.HasText S.reading.encoding
        (Path.join dir "auto.conf") (S.model.listText S.reading.symbolLead out)) := by
  refine gives_syncMarks_of (N := fun _ => False) (fun files hfiles => ?_) (gives_marks h) ?_
  · exact (hload files hfiles).post fun _ t ht => ⟨files, .start hfiles.alters, ht⟩
  · refine (gives_writeList (fun _ ws hv => hv.warned ws)
      (Recollects.ensures_valuesText h.has h.out _)).mono (fun t ht => ht) ?_
    rintro _ t ⟨hmarks, text, rfl, htext⟩
    simp only [false_or] at hmarks
    exact ⟨hmarks, fun hlists => htext (h.not_mem_listText hlists)⟩

/-! ## Names that are gone -/

/-- Whether lines of a list set a name that no symbol has. -/
def Session.Drops (S : Session) (lines : List String) (name : String) : Prop :=
  (∃ line ∈ lines, ∃ val, S.readLine line = .ok (.set (some name) val)) ∧
    ∀ i < S.model.symbols.size, (S.model.symbol i).isConstant = false → (S.model.symbol i).name ≠ name

theorem gives_loadOldLine_drops (done : List String) (line : String) :
    Gives (S.Syncs (fun _ => True) dir (S.Drops done)) (loadOldLine dir line) fun _ =>
      S.Syncs (fun _ => True) dir (S.Drops (done ++ [line])) := by
  have hdrops : ∀ n, S.Drops (done ++ [line]) n ↔ S.Drops done n ∨ S.Drops [line] n := fun n => by
    simp only [Session.Drops, List.mem_append, or_and_right, exists_or]
  refine .get_bind fun s hs => ?_
  have hline : s.readLine line = S.readLine line := by
    obtain ⟨files, -, ht⟩ := hs
    exact (Session.eq_of_setting (f := (·.readLine line)) ht.setting :)
  refine .bind (R := fun found t => s.readLine line = .ok found ∧ t = s) ?_ fun found =>
    .and_left fun hfound => ?_
  · cases s.readLine line with
    | error e => exact Gives.throw _
    | ok found => exact .pure fun t ht => ⟨rfl, ht⟩
  have hset : ∀ n, S.Drops [line] n ↔ (∃ val, found = .set (some n) val) ∧
      s.namedSymbol? (some n) = none := fun n => by
    simp [Session.Drops, ← hline, hfound, Session.namedSymbol?, hs.model, Model.findSymbol?_eq_none_iff]
  have hkeep : (∀ n, ¬S.Drops [line] n) → S.Syncs (fun _ => True) dir (S.Drops (done ++ [line])) s :=
    fun hnone => hs.congr fun n => by simp [hdrops, hnone n]
  split
  · rename_i name value
    split
    · rename_i i hnamed
      obtain ⟨files, hmarked, ht⟩ := hkeep fun n hn => by
        obtain ⟨⟨_, ⟨⟩⟩, hgone⟩ := (hset n).1 hn
        cases hnamed.symm.trans hgone
      dsimp only
      generalize (if (s.model.symbol i).kind = .string then _ else _ : Option String) = value?
      cases value? with
      | none => exact .pure fun _ heq => heq ▸ ⟨files, hmarked, ht⟩
      | some v =>
        refine .modify ?_
        rintro _ rfl
        exact ⟨files, hmarked, ht.setting, ht.cwd, ht.files, trivial⟩
    · rename_i n hnamed
      refine (Session.Syncs.gives_touchMark n).mono (fun _ heq => heq ▸ hs) fun _ t ht =>
        ht.congr fun n' => ?_
      rw [hdrops, hset]
      grind
    · exact Gives.throw _
  · rename_i hother
    refine .pure fun _ heq => heq ▸ hkeep fun n hn => ?_
    obtain ⟨⟨val, hval⟩, -⟩ := (hset n).1 hn
    exact hother _ _ hval

theorem gives_loadOldValues_drops {bytes : ByteArray}
    (hread : files.read S.workspace.cwd (Path.join dir "auto.conf") = .ok bytes)
    (halters : S.workspace.files.Alters (fun _ => False) files) :
    Gives (S.Beside (fun _ => True) files) (loadOldValues dir) fun _ => S.Syncs (fun _ => True) dir
      (S.Drops (Text.decodeFile S.reading.encoding bytes).lines) := by
  refine .bind (R := fun _ => S.Beside (fun _ => True) files) ?_ fun _ => .get_bind fun s hs => ?_
  · exact .modify fun s hs => ⟨hs.setting, hs.cwd, hs.files, trivial⟩
  have hread' : s.workspace.read (Path.join dir "auto.conf") = .ok bytes := by
    rw [Workspace.read, hs.files, hs.cwd, hread]
  rw [hread', hs.encoding]
  have hstart : S.Syncs (fun _ => True) dir (S.Drops []) s :=
    ⟨files, (Marked.start halters).congr fun n => by simp [Session.Drops], hs⟩
  refine .bind ((Leads.forIn (P := fun done => S.Syncs (fun _ => True) dir (S.Drops done))
    (fun done line _ => ?_) []).mono (fun _ heq => heq ▸ hstart) fun _ _ ht => ht) fun _ => ?_
  · exact (gives_loadOldLine_drops done line).bind fun _ => .pure fun t ht => ⟨rfl, ht⟩
  · split
    · exact Gives.throw _
    · exact .keep

/-- A session in which the marks of the names that lines drop have been made, and besides marks of
defined symbols only. -/
def Session.SyncsAmong (S : Session) (dir : String) (lines : List String) (t : Session) : Prop :=
  ∃ changed : String → Prop,
    (∀ n, changed n → ∃ i ∈ S.model.uniqueDefined, (S.model.symbol i).name = n) ∧
      S.Syncs (fun _ => True) dir (fun n => changed n ∨ S.Drops lines n) t

theorem gives_marks_among (lines : List String) :
    Gives (S.Syncs (fun _ => True) dir (S.Drops lines)) (touchChanged dir S.model.uniqueDefined)
      fun _ => S.SyncsAmong dir lines := by
  refine .bind ((Leads.forIn (P := fun _ => S.SyncsAmong dir lines) (fun _ i hi => ?_) []).mono ?_
    fun _ _ ht => ht) fun _ => .keep
  · refine .of_exists fun changed => .and_left fun hchanged => ?_
    refine (Session.Syncs.gives_evaluating (Q := fun _ => True) (fun _ _ _ => trivial)
      fun _ _ _ _ _ => ⟨trivial, trivial⟩).bind fun c => .and_left fun _ => ?_
    refine (gives_markIf i c).post fun _ t ht => ⟨ht.1, fun n => changed n ∨
      c ∧ (S.model.symbol i).name = n, ?_, ht.2.congr fun n => or_right_comm⟩
    rintro n (hn | ⟨-, hn⟩)
    · exact hchanged n hn
    · exact ⟨i, hi, hn⟩
  · exact fun t ht => ⟨fun _ => False, nofun, ht.congr fun n => by simp⟩

/-- Once marks have been synchronised, the marks that were made are those of all names in the list of
the previous build that no symbol has, and marks of defined symbols.  A name which is merely
mentioned in a condition is the name of a symbol too. -/
theorem syncMarks_drops {t : Session} {bytes : ByteArray}
    (hread : S.workspace.read (Path.join dir "auto.conf") = .ok bytes)
    (hsync : runFrom (syncMarks dir) S = (.ok (), t)) :
    ∃ changed : String → Prop,
      (∀ n, changed n → ∃ i ∈ S.model.uniqueDefined, (S.model.symbol i).name = n) ∧
      MarksAnew dir
        (fun n => changed n ∨ S.Drops (Text.decodeFile S.reading.encoding bytes).lines n)
        S.workspace t.workspace := by
  have hlist : Gives (S.SyncsAmong dir (Text.decodeFile S.reading.encoding bytes).lines) (writeList dir)
      fun _ t => ∃ changed : String → Prop,
        (∀ n, changed n → ∃ i ∈ S.model.uniqueDefined, (S.model.symbol i).name = n) ∧
        MarksAnew dir
          (fun n => changed n ∨ S.Drops (Text.decodeFile S.reading.encoding bytes).lines n)
          S.workspace t.workspace := by
    refine .of_exists fun changed => .and_left fun hchanged => ?_
    refine (gives_writeList (Q := fun _ => True) (fun _ _ _ => trivial)
      fun _ _ _ _ _ => ⟨trivial, trivial⟩).post fun _ t ht => ?_
    exact ⟨changed, hchanged, ht.1⟩
  have hload := fun files (hfiles : WithDir dir S.workspace files) =>
    gives_loadOldValues_drops (hfiles.alters.read (endsIn_auto dir) hread) hfiles.alters
  exact (gives_syncMarks_of hload (gives_marks_among _) hlist).apply (s := S)
    ⟨rfl, rfl, rfl, trivial⟩ hsync

/-- A symbol that depends on an undefined one, and a list with that one and one that is gone. -/
def mentionedWorkspace : Workspace :=
  { files := { entries := [(["Kconfig"], .file "config B\n\tbool \"b\"\n\tdepends on A\n".toUTF8),
      (["d"], .directory), (["d", "auto.conf"], .file "CONFIG_A=y\nCONFIG_OLD=y\n".toUTF8)] } }

/-- The mark of the symbol that is gone is made, the one of the undefined symbol is not. -/
theorem syncMarks_drops_mentioned : ∃ s r t, openSession mentionedWorkspace {} = (.ok s, r) ∧
    runFrom (syncMarks "d") s = (.ok (), t) ∧
    t.workspace.read (markPath "d" "OLD") = .ok ByteArray.empty ∧
    (t.workspace.read (markPath "d" "A")).toOption = none := by
  obtain ⟨s, r, hopen, hrun⟩ := exists_of_opensTo mentionedWorkspace (fun s =>
      let out := runFrom (syncMarks "d") s
      let bytes := "CONFIG_A=y\nCONFIG_OLD=y\n".toUTF8
      out.1.toOption == some () && (out.2.workspace.read (markPath "d" "A")).toOption.isNone &&
      decide ((s.workspace.read (Path.join "d" "auto.conf")).toOption = some bytes) &&
      decide ("CONFIG_OLD=y\n" ∈ (Text.decodeFile s.reading.encoding bytes).lines) &&
      s.model.findSymbol? false "OLD" == none && s.reading.symbolLead == "CONFIG_")
    (by decide +kernel)
  simp only [Bool.and_eq_true, beq_iff_eq, decide_eq_true_eq, Option.isNone_iff_eq_none] at hrun
  obtain ⟨⟨⟨⟨⟨hsync, hunmarked⟩, hread⟩, hline⟩, hgone⟩, hlead⟩ := hrun
  have hset : s.readLine (s.reading.symbolLead ++ "OLD" ++ "=" ++ "y" ++ "\n") =
      .ok (.set (some "OLD") (some "y")) :=
    (hasStandardLead_of_openSession hopen hlead).plain.readLine_set (by decide) (by decide)
      (by decide) (by simp)
  simp only [hlead, String.reduceAppend] at hset
  obtain ⟨changed, -, hmarks⟩ := syncMarks_drops (eq_ok_of_toOption hread) (runFrom_of_toOption hsync)
  exact ⟨s, r, _, hopen, runFrom_of_toOption hsync, hmarks.made "OLD" (.inr
    ⟨⟨_, hline, _, hset⟩, Model.findSymbol?_eq_none_iff.1 hgone⟩), hunmarked⟩

/-! ## Two synchronisations -/

/-- Whether all that is remembered of values is what the rules say. -/
def UpToDate (m : Model) (v : Values) : Prop := Coherent m v.assigned v

theorem hasEffect_of_finds
    {s t : Session} (hm : s.model.Loaded) (ht : s.Over (UpToDate s.model) t) {i : SymbolId}
    (hi : i ∈ s.model.uniqueDefined) {o : Option String} (hfinds : t.Finds (effectOf i) o) :
    s.model.HasEffect t.values.assigned i o := by
  have hhas := hm.finished.has (x := .symbol i) hi
  rw [Session.Finds, runFrom_evaluating, ht.model] at hfinds
  rcases hrun : (effectOf i).runOn s.model t.values with ⟨r, v⟩
  rw [hrun] at hfinds
  cases hfinds
  have hstart : Recollects s.model t.values.assigned (fun j => (t.values.symbol j).oldText)
      t.values := ⟨ht.values, fun _ _ => rfl⟩
  exact (Recollects.ensures_effectOf hi hhas t.values o v hstart hrun).2

/-- If marks are synchronised in one state and then in another one, the second synchronisation makes
exactly the marks of the symbols of which a build sees something else in the second state than in the
first; the first one makes the marks of all symbols of which something is seen. -/
theorem syncMarks_marksAnew {w₀ : Workspace} {o : LoadOptions} {s : Session} {r : Reading}
    (hopen : openSession w₀ o = (.ok s, r)) (hplain : s.HasPlainLead) {t₁ t₂ : Session}
    (ht₁ : s.Over (UpToDate s.model) t₁) (ht₂ : s.Over (UpToDate s.model) t₂)
    {out₁ out₂ : SymbolId → Option String}
    (hout₁ : ∀ i ∈ s.model.uniqueDefined, t₁.Finds (effectOf i) (out₁ i))
    (hout₂ : ∀ i ∈ s.model.uniqueDefined, t₂.Finds (effectOf i) (out₂ i))
    (hlists : s.model.Lists s.reading.symbolLead out₁) {dir : String} {w w' : Workspace}
    {u₁ u₂ : Session} (hnew : LacksList dir w.files w.cwd)
    (hsync₁ : runFrom (syncMarks dir) (t₁.on w) = (.ok (), u₁))
    (hkept : w'.read (Path.join dir "auto.conf") = u₁.workspace.read (Path.join dir "auto.conf"))
    (hsync₂ : runFrom (syncMarks dir) (t₂.on w') = (.ok (), u₂)) :
    MarksAnew dir
      (fun n => ∃ i ∈ s.model.uniqueDefined, out₁ i ≠ none ∧ (s.model.symbol i).name = n)
      w u₁.workspace ∧
    MarksAnew dir
      (fun n => ∃ i ∈ s.model.uniqueDefined, out₁ i ≠ out₂ i ∧ (s.model.symbol i).name = n)
      w' u₂.workspace := by
  obtain ⟨hm, -⟩ := loaded_of_openSession hopen
  have hmodel₁ : (t₁.on w).model = s.model := ht₁.model
  have hmodel₂ : (t₂.on w').model = s.model := ht₂.model
  have hhas : ∀ i ∈ s.model.uniqueDefined, s.model.Has (.symbol i) := fun i hi =>
    (hm.finished.wellFormed.defined i (hm.finished.mem_uniqueDefined.1 hi)).1
  have heffect₁ : ∀ i ∈ s.model.uniqueDefined,
      s.model.HasEffect t₁.values.assigned i (out₁ i) := fun i hi =>
    hasEffect_of_finds hm ht₁ hi (hout₁ i hi)
  have heffect₂ : ∀ i ∈ s.model.uniqueDefined,
      s.model.HasEffect t₂.values.assigned i (out₂ i) := fun i hi =>
    hasEffect_of_finds hm ht₂ hi (hout₂ i hi)
  have hlead₁ : (t₁.on w).reading.symbolLead = s.reading.symbolLead := by
    have hsame := congrArg (fun x : Session => x.reading.symbolLead) ht₁.setting
    exact hsame
  have hlead₂ : (t₂.on w').reading.symbolLead = s.reading.symbolLead := by
    have hsame := congrArg (fun x : Session => x.reading.symbolLead) ht₂.setting
    exact hsame
  have hplain₂ : (t₂.on w').HasPlainLead := by
    have hpattern := congrArg Session.setPattern ht₂.setting
    exact (Eq.trans hpattern hplain).trans (by rw [hlead₂])
  have hcompares₁ : (t₁.on w).Compares t₁.values.assigned (fun _ => none) out₁ :=
    ⟨hmodel₁ ▸ hhas, hmodel₁ ▸ heffect₁, nofun⟩
  have hfirst := (gives_syncMarks hcompares₁ fun files hfiles =>
    gives_loadOldValues_none (hmodel₁ ▸ hhas) (hnew.read_withDir_ne hfiles)).apply
      (s := t₁.on w) ⟨rfl, rfl, rfl, hmodel₁ ▸ ht₁.values⟩ hsync₁
  rw [hmodel₁] at hfirst
  obtain ⟨hmarks₁, htext⟩ := hfirst
  obtain ⟨bytes, hread, hfault, hunified⟩ := htext (hlead₁ ▸ hlists)
  have hencoding : (t₂.on w').reading.encoding = (t₁.on w).reading.encoding := by
    have hsame := congrArg (fun x : Session => x.reading.encoding)
      (ht₂.setting.trans ht₁.setting.symm)
    exact hsame
  have hload₂ : ∀ files, WithDir dir (t₂.on w').workspace files →
      Gives ((t₂.on w').Beside (Coherent (t₂.on w').model t₂.values.assigned) files)
        (loadOldValues dir) fun _ =>
          (t₂.on w').Beside (Recollects (t₂.on w').model t₂.values.assigned out₁) files := by
    intro files hfiles
    have hread' : files.read w'.cwd (Path.join dir "auto.conf") = .ok bytes :=
      hfiles.alters.read (endsIn_auto dir) (hkept.trans hread)
    refine gives_loadOldValues hplain₂ (hmodel₂ ▸ hm) (hlead₂ ▸ hmodel₂ ▸ hlists)
      (hmodel₂ ▸ heffect₁) hread' ?_ ?_
    · rw [hencoding, hfault]
    · rw [hencoding, hunified, hmodel₂, hlead₁, hlead₂]
      rfl
  have hcompares₂ : (t₂.on w').Compares t₂.values.assigned out₁ out₂ :=
    ⟨hmodel₂ ▸ hhas, hmodel₂ ▸ heffect₂, hmodel₂ ▸ fun i hi => (heffect₁ i hi).ne_no⟩
  have hsecond := (gives_syncMarks hcompares₂ hload₂).apply
    (s := t₂.on w') ⟨rfl, rfl, rfl, hmodel₂ ▸ ht₂.values⟩ hsync₂
  rw [hmodel₂] at hsecond
  have hnames : (fun n => ∃ i ∈ s.model.uniqueDefined, out₂ i ≠ out₁ i ∧
      (s.model.symbol i).name = n) = fun n => ∃ i ∈ s.model.uniqueDefined, out₁ i ≠ out₂ i ∧
      (s.model.symbol i).name = n := by
    funext n
    simp only [ne_comm]
  rw [hnames] at hsecond
  exact ⟨hmarks₁, hsecond.1⟩

/-- A description with two truth values, one of which is on by default. -/
def switchesWorkspace : Workspace :=
  { files := { entries := [(["Kconfig"],
      .file "config A\n\tbool \"a\"\n\tdefault y\nconfig B_C\n\tbool \"b\"\n".toUTF8)] } }

/-- Turns the first symbol off and the second one on. -/
def switchBoth : List Action :=
  [.setSymbol false 4 (.text "n"), .setSymbol false 5 (.text "y")]

theorem exists_runFrom_eq_ok {x : SessionM Unit} {s : Session} (h : (runFrom x s).1.isOk) :
    ∃ t, runFrom x s = (.ok (), t) := by
  obtain ⟨_, hok⟩ := exists_eq_ok_of_isOk h
  exact ⟨_, Prod.ext hok rfl⟩

/-- If one symbol is turned off and another one on, the second synchronisation makes both marks. -/
theorem syncMarks_marksAnew_switchBoth :
    ∃ s r u₁ u₂, openSession switchesWorkspace {} = (.ok s, r) ∧
      runFrom (syncMarks "d") (s.on switchesWorkspace) = (.ok (), u₁) ∧
      runFrom (syncMarks "d") ((s.after switchBoth).on u₁.workspace) = (.ok (), u₂) ∧
      MarksAnew "d" (· = "A") switchesWorkspace u₁.workspace ∧
      MarksAnew "d" (fun n => n = "A" ∨ n = "B_C") u₁.workspace u₂.workspace := by
  obtain ⟨s, r, hopen, hrun⟩ := exists_of_opensTo switchesWorkspace (fun s =>
      decide (s.reading.symbolLead = "CONFIG_") && decide s.model.ChoicesSane &&
      decide (s.model.uniqueDefined = [4, 5]) && decide ((s.model.symbol 4).name = "A") &&
      decide ((s.model.symbol 5).name = "B_C") &&
      decide ((runFrom (evaluating (effectOf 4)) s).1.toOption = some (some "y")) &&
      decide ((runFrom (evaluating (effectOf 5)) s).1.toOption = some none) &&
      decide ((runFrom (evaluating (effectOf 4)) (s.after switchBoth)).1.toOption = some none) &&
      decide ((runFrom (evaluating (effectOf 5)) (s.after switchBoth)).1.toOption =
        some (some "y")) &&
      let first := runFrom (syncMarks "d") (s.on switchesWorkspace)
      first.1.isOk && (runFrom (syncMarks "d") ((s.after switchBoth).on first.2.workspace)).1.isOk)
    (by decide +kernel)
  simp only [Bool.and_eq_true, decide_eq_true_eq] at hrun
  obtain ⟨⟨⟨⟨⟨⟨⟨⟨⟨hlead, hsane⟩, hdefined⟩, hA⟩, hB⟩, hA₁⟩, hB₁⟩, hA₂⟩, hB₂⟩, hsync⟩ := hrun
  obtain ⟨u₁, hfirst⟩ := exists_runFrom_eq_ok hsync.1
  rw [hfirst] at hsync
  obtain ⟨u₂, hsecond⟩ := exists_runFrom_eq_ok hsync.2
  have hstates : ∀ actions, s.Over (UpToDate s.model) (s.after actions) := by
    intro actions
    have hsound := sound_after hopen hsane actions
    exact ⟨hsound.setting, hsound.values.coherent⟩
  have heach : ∀ {p : SymbolId → Prop}, p 4 → p 5 → ∀ i ∈ s.model.uniqueDefined, p i := by
    intro p h₄ h₅ i hi
    rw [hdefined] at hi
    rcases List.mem_cons.1 hi with rfl | hi
    · exact h₄
    · exact List.mem_singleton.1 hi ▸ h₅
  let out₁ : SymbolId → Option String := fun i => if i = 4 then some "y" else none
  let out₂ : SymbolId → Option String := fun i => if i = 5 then some "y" else none
  have hlists : s.model.Lists s.reading.symbolLead out₁ := by
    refine ⟨by rw [hlead]; decide, heach ?_ ?_, heach ?_ ?_, heach (by decide) (by decide)⟩
    · rw [hA]
      decide
    · rw [hB]
      decide
    · simp [hA]
    · simp [hB]
  have hlacks : LacksList "d" switchesWorkspace.files switchesWorkspace.cwd := by
    rintro place ⟨⟩
    decide
  have hout₁ : ∀ i ∈ s.model.uniqueDefined, (s.after []).Finds (effectOf i) (out₁ i) :=
    heach (eq_ok_of_toOption hA₁) (eq_ok_of_toOption hB₁)
  have hout₂ : ∀ i ∈ s.model.uniqueDefined, (s.after switchBoth).Finds (effectOf i) (out₂ i) :=
    heach (eq_ok_of_toOption hA₂) (eq_ok_of_toOption hB₂)
  obtain ⟨hmarks₁, hmarks₂⟩ := syncMarks_marksAnew hopen
    (hasStandardLead_of_openSession hopen hlead).plain (hstates []) (hstates switchBoth)
    hout₁ hout₂ hlists hlacks hfirst rfl hsecond
  have hnames₁ : (fun n => ∃ i ∈ s.model.uniqueDefined, out₁ i ≠ none ∧
      (s.model.symbol i).name = n) = (· = "A") := by
    funext n
    simp [hdefined, out₁, hA, eq_comm]
  have hnames₂ : (fun n => ∃ i ∈ s.model.uniqueDefined, out₁ i ≠ out₂ i ∧
      (s.model.symbol i).name = n) = fun n => n = "A" ∨ n = "B_C" := by
    funext n
    simp [hdefined, out₁, out₂, hA, hB, eq_comm]
  rw [hnames₁] at hmarks₁
  rw [hnames₂] at hmarks₂
  exact ⟨s, r, u₁, u₂, hopen, hfirst, hsecond, hmarks₁, hmarks₂⟩

end Buildsmith.Kconfig
