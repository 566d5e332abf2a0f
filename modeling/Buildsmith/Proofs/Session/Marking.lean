import Buildsmith.Proofs.Evaluation.Effects
import Buildsmith.Proofs.Session.Saving

/-!
# Marks of symbols

Making a mark makes the directories above it and one empty file.  However many marks are made, each of
them can be found in the end, and no other file differs (`Marked`).  The list of values, which stands
beside the marks, is none of them.

While marks are synchronised with values, the marks are made of those symbols of which a build sees
something else than the build before (`gives_marks`).
-/

namespace Buildsmith.Kconfig

open FileTree Buildsmith.Path Model ByteArray

section Trees

variable {t t' t'' : FileTree} {cwd : List String} {dir name : String} {names : String → Prop}

theorem exists_endsIn_markPath (dir name : String) :
    ∃ x, Path.EndsIn (markPath dir name) (x ++ ".h") :=
  exists_endsIn_append (by decide) (c := 'h') rfl (by decide) _

theorem endsIn_auto (dir : String) : Path.EndsIn (join dir "auto.conf") "auto.conf" := by
  by_cases hdir : dir = ""
  · rw [hdir]
    exact ⟨by decide, by decide, by decide, by decide⟩
  · obtain ⟨d, hjoin, -⟩ := exists_join hdir (by rfl : isAbsolute "auto.conf" = false)
    rw [hjoin]
    exact .append_slash (by decide) (by decide) (by decide) (by decide) d

variable {place : List String}

theorem resolve_markPath_ne (hmark : t.resolve cwd (markPath dir name) = .ok place) :
    t.resolve cwd (join dir "auto.conf") ≠ .ok place := by
  intro hlist
  obtain ⟨x, hx⟩ := exists_endsIn_markPath dir name
  obtain ⟨p, rfl, -⟩ := exists_place_of_resolve hx hmark
  obtain ⟨q, hq, -⟩ := exists_place_of_resolve (endsIn_auto dir) hlist
  have hends := congrArg (fun l : List String => l.getLast?.map fun s => s.toList.getLast?) hq
  simp at hends

/-- Whether the marks of some names are empty files, and all else that differs is directories. -/
structure Marked (cwd : List String) (dir : String) (names : String → Prop) (t t' : FileTree) :
    Prop where
  made : ∀ n, names n → ∃ place, t'.resolve cwd (markPath dir n) = .ok place ∧
    t'.get? place = some (.file empty)
  alters : t.Alters (fun q => ∃ n, names n ∧ t'.resolve cwd (markPath dir n) = .ok q) t'

namespace Marked

theorem congr {names' : String → Prop} (h : Marked cwd dir names t t')
    (hnames : ∀ n, names n ↔ names' n) : Marked cwd dir names' t t' := by
  have hsame : names = names' := funext fun n => propext (hnames n)
  exact hsame ▸ h

theorem start (h : t.Alters (fun _ => False) t') : Marked cwd dir (fun _ => False) t t' :=
  ⟨nofun, h.mono nofun⟩

theorem touch
    (h : Marked cwd dir names t t') {made : FileTree} (hmade : t'.Alters (fun _ => False) made)
    (hwrite : made.write cwd (markPath dir name) empty = .ok t'') :
    Marked cwd dir (fun n => names n ∨ n = name) t t'' := by
  obtain ⟨place, hplace, halters, hfile⟩ := FileTree.Alters.write hwrite
  have hdirs : ∀ q, t'.isDirAt q → t''.isDirAt q :=
    fun q hq => halters.dirs q (hmade.dirs q hq)
  have hold : ∀ n q, t'.resolve cwd (markPath dir n) = .ok q →
      t''.resolve cwd (markPath dir n) = .ok q := by
    intro n q hq
    obtain ⟨x, hx⟩ := exists_endsIn_markPath dir n
    exact resolve_mono hdirs hx hq
  have hnew : t''.resolve cwd (markPath dir name) = .ok place := by
    obtain ⟨x, hx⟩ := exists_endsIn_markPath dir name
    exact resolve_mono halters.dirs hx hplace
  refine ⟨?_, ?_⟩
  · rintro n (hn | rfl)
    · obtain ⟨q, hq, hempty⟩ := h.made n hn
      refine ⟨q, hold n q hq, ?_⟩
      by_cases hqp : q = place
      · rw [hqp]
        exact hfile
      · exact (halters.files q hqp _).2 ((hmade.files q not_false _).2 hempty)
    · exact ⟨place, hnew, hfile⟩
  · refine (h.alters.mono ?_).trans ((hmade.mono nofun).trans (halters.mono ?_))
    · rintro q ⟨n, hn, hq⟩
      exact ⟨n, .inl hn, hold n q hq⟩
    · rintro q rfl
      exact ⟨name, .inr rfl, hnew⟩

end Marked

/-- Whether the marks of some names are made anew, and no other file but the list of values
differs. -/
structure MarksAnew (dir : String) (names : String → Prop) (w w' : Workspace) : Prop where
  made : ∀ n, names n → w'.read (markPath dir n) = .ok empty
  others : ∀ place, (∀ n, names n → w'.files.resolve w'.cwd (markPath dir n) ≠ .ok place) →
    w'.files.resolve w'.cwd (Path.join dir "auto.conf") ≠ .ok place →
    ∀ bytes, w'.files.get? place = some (.file bytes) ↔ w.files.get? place = some (.file bytes)

theorem Marked.marksAnew {w w' : Workspace} (h : Marked w.cwd dir names w.files t)
    (hcwd : w'.cwd = w.cwd)
    (hlist : t.Alters (fun q => t.resolve w.cwd (join dir "auto.conf") = .ok q) w'.files) :
    MarksAnew dir names w w' := by
  have hmark : ∀ n q, t.resolve w.cwd (markPath dir n) = .ok q →
      w'.files.resolve w.cwd (markPath dir n) = .ok q := by
    intro n q hq
    obtain ⟨x, hx⟩ := exists_endsIn_markPath dir n
    exact resolve_mono hlist.dirs hx hq
  refine ⟨fun n hn => ?_, fun q hq hq' bytes => ?_⟩
  · obtain ⟨q, hresolve, hempty⟩ := h.made n hn
    have hfile := (hlist.files q (resolve_markPath_ne hresolve) _).2 hempty
    rw [Workspace.read, hcwd]
    exact read_eq_ok_iff.2 ⟨q, hmark n q hresolve, hfile⟩
  · rw [hcwd] at hq hq'
    have hlist' := hlist.files q
      (fun hold => hq' (resolve_mono hlist.dirs (endsIn_auto dir) hold)) bytes
    refine hlist'.trans (h.alters.files q ?_ bytes)
    rintro ⟨n, hn, hold⟩
    exact hq n hn (hmark n q hold)

/-! ## Directories without a list of values -/

/-- Whether a directory, or the place where it is going to be, holds no list of values. -/
def LacksList (dir : String) (t : FileTree) (cwd : List String) : Prop :=
  ∀ place, t.resolve cwd dir = .ok place → t.get? (place ++ ["auto.conf"]) = none

theorem read_auto_ne (hdir : dir ≠ "")
    (hplace : t.follow (if isAbsolute dir then [] else cwd) (components dir) = .ok place)
    (hnone : t.get? (place ++ ["auto.conf"]) = none) (bytes : ByteArray) :
    t.read cwd (join dir "auto.conf") ≠ .ok bytes := by
  intro hread
  obtain ⟨q, hq, hfile⟩ := read_eq_ok_iff.1 hread
  obtain ⟨d, hjoin, hcomponents, habsolute⟩ := exists_join hdir (by rfl : isAbsolute "auto.conf" = false)
  have hfollow := follow_of_resolve hq
  have hlast : components "auto.conf" = ["auto.conf"] := by decide
  rw [habsolute, hjoin, components_append_slash, hcomponents, hlast] at hfollow
  obtain ⟨p, hp, -, -, rfl⟩ := (follow_append (by decide)).1 hfollow
  rw [Except.ok.inj (hp.symm.trans hplace), hnone] at hfile
  cases hfile

theorem ne_empty_of_resolve (h : t.resolve cwd dir = .ok place) : dir ≠ "" := by
  rintro rfl
  cases h

theorem LacksList.read_ne (h : LacksList dir t cwd) (hexists : t.pathExists cwd dir)
    (bytes : ByteArray) : t.read cwd (join dir "auto.conf") ≠ .ok bytes := by
  obtain ⟨place, hplace⟩ : ∃ place, t.resolve cwd dir = .ok place := by
    unfold pathExists find? at hexists
    cases hplace : t.resolve cwd dir with
    | ok place => exact ⟨place, rfl⟩
    | error f =>
      rw [hplace] at hexists
      cases hexists
  exact read_auto_ne (ne_empty_of_resolve hplace) (follow_of_resolve hplace)
    (h place hplace) bytes

theorem LacksList.read_makeDir_ne (h : LacksList dir t cwd) (hmake : t.makeDir cwd dir = .ok t')
    (bytes : ByteArray) : t'.read cwd (join dir "auto.conf") ≠ .ok bytes := by
  obtain ⟨place, hplace, hne, rfl, halters⟩ := FileTree.Alters.makeDir hmake
  have hfollow := follow_mono (fun q _ hq _ => halters.dirs q hq)
    (follow_of_resolve hplace)
  refine read_auto_ne (ne_empty_of_resolve hplace) hfollow ?_ bytes
  rw [get?_put hne, if_neg (by simp)]
  exact h place hplace

end Trees

/-! ## Sessions while marks are made -/

variable {S t : Session} {P : Values → Prop} {files : FileTree} {α : Type}

/-- A session on some files that differs from another one in these, in its values and in what was
reported only. -/
structure Session.Beside (S : Session) (P : Values → Prop) (files : FileTree) (t : Session) :
    Prop where
  setting : (t.on S.workspace).setting = S.setting
  cwd : t.workspace.cwd = S.workspace.cwd
  files : t.workspace.files = files
  values : P t.values

namespace Session.Beside

theorem model (h : S.Beside P files t) : t.model = S.model :=
  (eq_of_setting (f := Session.model) h.setting :)

theorem lead (h : S.Beside P files t) : t.reading.symbolLead = S.reading.symbolLead :=
  (eq_of_setting (f := (·.reading.symbolLead)) h.setting :)

theorem encoding (h : S.Beside P files t) : t.reading.encoding = S.reading.encoding :=
  (eq_of_setting (f := (·.reading.encoding)) h.setting :)

theorem hasPlainLead (h : S.Beside P files t) (hS : S.HasPlainLead) : t.HasPlainLead := by
  have hpattern := eq_of_setting (f := setPattern) h.setting
  exact (Eq.trans hpattern hS).trans (by rw [h.lead])

theorem mapFiles (h : S.Beside P files t) (files' : FileTree) :
    S.Beside P files' (t.mapWorkspace fun w => { w with files := files' }) :=
  ⟨h.setting, h.cwd, rfl, h.values⟩

theorem gives_evaluating (hwarned : ∀ v ws, P v → P { v with warnings := ws }) {x : EvalM α}
    {Q : α → Prop} (hx : EvalM.Ensures S.model P x Q) :
    Gives (S.Beside P files) (evaluating x) fun a t => Q a ∧ S.Beside P files t := by
  refine .get_bind fun s hs => ?_
  rcases hrun : ((x.run s.model).run).run s.values with ⟨r, v⟩
  have hrun' : x.runOn s.model s.values = (r, v) := hrun
  cases r with
  | error e => exact (Leads.set (R := fun _ _ => True) fun _ _ => trivial).bind fun _ => Gives.throw _
  | ok a =>
    rw [hs.model] at hrun'
    obtain ⟨hv, ha⟩ := hx s.values a v hs.values hrun'
    have hsetting := Kept.setting_foldl_log v.warnings s
    refine (Leads.set (R := fun _ t => Q a ∧ S.Beside P files t) fun _ _ => ⟨ha, ?_⟩).bind
      fun _ => Leads.pure fun _ h => h
    refine ⟨?_, ?_, ?_, hwarned v [] hv⟩
    · exact (congrArg (fun t : Session => (t.on S.workspace).setting) hsetting).trans hs.setting
    · exact (congrArg (fun t : Session => t.workspace.cwd) hsetting).trans hs.cwd
    · exact (congrArg (fun t : Session => t.workspace.files) hsetting).trans hs.files

theorem gives_changingFiles {f : FileTree → List String → Except FileFault FileTree} :
    Gives (S.Beside P files) (changingFiles f) fun _ t =>
      ∃ files', f files S.workspace.cwd = .ok files' ∧ S.Beside P files' t := by
  refine .get_bind fun s hs => ?_
  dsimp only
  rw [hs.files, hs.cwd]
  cases hf : f files S.workspace.cwd with
  | error fault => exact Gives.throw _
  | ok files' =>
    refine .modify ?_
    rintro _ rfl
    exact ⟨files', rfl, hs.mapFiles files'⟩

theorem gives_touchMark (dir name : String) :
    Gives (S.Beside P files) (touchMark dir name) fun _ t =>
      ∃ made files', files.Alters (fun _ => False) made ∧
        made.write S.workspace.cwd (markPath dir name) empty = .ok files' ∧
        S.Beside P files' t := by
  have hwrite : ∀ made, files.Alters (fun _ => False) made →
      Gives (S.Beside P made) (changingFiles (·.write · (markPath dir name) empty))
        fun _ t => ∃ made files', files.Alters (fun _ => False) made ∧
          made.write S.workspace.cwd (markPath dir name) empty = .ok files' ∧
          S.Beside P files' t := by
    intro made hmade
    refine gives_changingFiles.post fun _ t ht => ?_
    obtain ⟨files', hfiles', ht⟩ := ht
    exact ⟨made, files', hmade, hfiles', ht⟩
  refine .get_bind' fun s => .ite (fun _ => ?_) fun _ => hwrite files (.refl _ _)
  exact gives_changingFiles.bind fun _ => .of_exists fun made => .and_left fun hmade =>
    hwrite made (FileTree.Alters.makeDirs hmade)

end Session.Beside

/-- A session in the middle of synchronising: the marks of some names have been made. -/
def Session.Syncs
    (S : Session) (P : Values → Prop) (dir : String) (names : String → Prop) (t : Session) : Prop :=
  ∃ files, Marked S.workspace.cwd dir names S.workspace.files files ∧ S.Beside P files t

section Marks

variable {u : Assigned} {old out : SymbolId → Option String} {dir : String} {names : String → Prop}

namespace Session.Syncs

theorem congr {names' : String → Prop} (h : S.Syncs P dir names t) (hnames : ∀ n, names n ↔ names' n) :
    S.Syncs P dir names' t := by
  obtain ⟨files, hmarked, ht⟩ := h
  exact ⟨files, hmarked.congr hnames, ht⟩

theorem model (h : S.Syncs P dir names t) : t.model = S.model := by
  obtain ⟨files, -, ht⟩ := h
  exact ht.model

theorem gives_evaluating (hwarned : ∀ v ws, P v → P { v with warnings := ws }) {x : EvalM α}
    {Q : α → Prop} (hx : EvalM.Ensures S.model P x Q) :
    Gives (S.Syncs P dir names) (evaluating x) fun a t => Q a ∧ S.Syncs P dir names t := by
  refine .intro fun t a t' ⟨files, hmarked, ht⟩ hrun => ?_
  obtain ⟨ha, ht'⟩ := (Beside.gives_evaluating hwarned hx).apply ht hrun
  exact ⟨ha, files, hmarked, ht'⟩

theorem gives_touchMark (name : String) :
    Gives (S.Syncs P dir names) (touchMark dir name) fun _ =>
      S.Syncs P dir fun n => names n ∨ n = name := by
  refine .intro fun t a t' ⟨files, hmarked, ht⟩ hrun => ?_
  obtain ⟨made, files', hmade, hwrite, ht'⟩ := (Beside.gives_touchMark dir name).apply ht hrun
  exact ⟨files', hmarked.touch hmade hwrite, ht'⟩

end Session.Syncs

/-- What was seen and what is seen of the symbols of a session. -/
structure Session.Compares
    (S : Session) (u : Assigned) (old out : SymbolId → Option String) : Prop where
  has : ∀ i ∈ S.model.uniqueDefined, S.model.Has (.symbol i)
  out : ∀ i ∈ S.model.uniqueDefined, S.model.HasEffect u i (out i)
  old : ∀ i ∈ S.model.uniqueDefined, (S.model.symbol i).kind.isLogical = true → old i ≠ some "n"

variable {i : SymbolId}

theorem gives_markIf (i : SymbolId) (c : Bool) :
    Gives (S.Syncs P dir names)
      (do
        if c then touchMark dir ((← get).model.symbol i).name
        pure (ForInStep.yield PUnit.unit) : SessionM (ForInStep PUnit))
      fun r t => r = .yield PUnit.unit ∧
        S.Syncs P dir (fun n => names n ∨ c ∧ (S.model.symbol i).name = n) t := by
  refine .ite (fun hc => .get_bind fun t ht => ?_) fun hc => ?_
  · rw [ht.model]
    refine ((Session.Syncs.gives_touchMark _).pre fun _ heq => heq ▸ ht).bind
      fun _ => .pure fun s hs => ⟨rfl, hs.congr fun n => ?_⟩
    simp only [hc, true_and, eq_comm]
  · refine .pure fun s hs => ⟨rfl, hs.congr fun n => ?_⟩
    simp [hc]

/-- The marks of all symbols are made of which something else is seen than was seen. -/
theorem gives_marks (h : S.Compares u old out) :
    Gives (S.Syncs (Recollects S.model u old) dir names) (touchChanged dir S.model.uniqueDefined)
      fun _ => S.Syncs (Recollects S.model u old) dir fun n => names n ∨
        ∃ i ∈ S.model.uniqueDefined, out i ≠ old i ∧ (S.model.symbol i).name = n := by
  refine .bind ((Leads.forIn (P := fun done => S.Syncs (Recollects S.model u old) dir fun n =>
    names n ∨ ∃ i ∈ done, out i ≠ old i ∧ (S.model.symbol i).name = n) (fun done i hi => ?_)
    []).mono (fun t ht => ht.congr fun n => by simp) fun _ _ ht => ht) fun _ => .keep
  refine (Session.Syncs.gives_evaluating (fun _ ws hv => hv.warned ws) (Recollects.ensures_hasChanged
    hi (h.has i hi) (h.out i hi) (h.old i hi))).bind fun c => .and_left fun hc => ?_
  refine (gives_markIf i c).post fun _ t ht => ⟨ht.1, ht.2.congr fun n => ?_⟩
  simp only [hc, decide_eq_true_eq, List.mem_append, List.mem_singleton, or_and_right, exists_or,
    exists_eq_left, or_assoc]

end Marks

/-!
## The values of the previous build

The list of values has one line for each symbol of which a build sees something.  It is read back as
it was written: afterwards each symbol has the value that was seen, and no other symbol has one
(`gives_loadOldValues`).
-/

open Text

variable {m : Model} {u : Assigned} {old out : SymbolId → Option String} {i : SymbolId}
  {val dir lead : String}

/-! ## Lines of the list -/

/-- The value of a symbol as it stands in the list of values. -/
def Model.listed (m : Model) (i : SymbolId) (val : String) : String :=
  if (m.symbol i).kind = .string then "\"" ++ Quoted.escape val ++ "\"" else val

/-- The line of a symbol in the list of values, without its end. -/
def Model.listedLine (m : Model) (lead : String) (i : SymbolId) (val : String) : String :=
  lead ++ (m.symbol i).name ++ "=" ++ m.listed i val

def listing (out : SymbolId → Option String) (is : List SymbolId) : List (SymbolId × String) :=
  is.filterMap fun i => (out i).map fun val => (i, val)

/-- Names and values that fit on lines of the list of values. -/
structure Model.Lists (m : Model) (lead : String) (out : SymbolId → Option String) : Prop where
  lead : '\n' ∉ lead.toList ∧ '\r' ∉ lead.toList
  name_ne : ∀ i ∈ m.uniqueDefined, (m.symbol i).name ≠ ""
  names : ∀ i ∈ m.uniqueDefined, ∀ c ∈ (m.symbol i).name.toList, c ≠ '=' ∧ c ≠ '\n' ∧ c ≠ '\r'
  values : ∀ i ∈ m.uniqueDefined, ∀ val ∈ out i, '\n' ∉ val.toList ∧ '\r' ∉ val.toList

theorem Model.HasEffect.kind_ne_unknown (h : m.HasEffect u i (some val)) :
    (m.symbol i).kind ≠ .unknown := by
  intro hk
  obtain ⟨val', b, ⟨v, hv, -, rfl⟩, heffect⟩ := h
  have hunwritten := hv.unwritten i (by simp [asksNothing, hk])
  simp [effect, hunwritten] at heffect

theorem Model.lineFor_eq_listedLine (h : m.HasEffect u i (some val)) (lead : String) :
    m.lineFor lead i val = m.listedLine lead i val ++ "\n" := by
  have hunknown := h.kind_ne_unknown
  have hno : (m.symbol i).kind.isLogical → val ≠ "n" :=
    fun hl heq => h.ne_no hl (congrArg some heq)
  unfold lineFor listedLine listed
  by_cases hstring : (m.symbol i).kind = .string
  · simp only [hstring, Kind.isLogical, Kind.isNumeric]
    apply String.toList_injective
    simp
  · rw [if_neg hstring]
    cases hl : (m.symbol i).kind.isLogical with
    | true => simp [hl, hno hl]
    | false =>
      have hnumeric : (m.symbol i).kind.isNumeric := by
        cases hk : (m.symbol i).kind <;> simp_all [Kind.isLogical, Kind.isNumeric]
      simp [hl, hnumeric]

theorem Model.Lists.line
    (h : m.Lists lead out) (hi : i ∈ m.uniqueDefined) (hval : out i = some val) :
    '\n' ∉ (m.listed i val).toList ∧ '\n' ∉ (m.listedLine lead i val).toList ∧
      '\r' ∉ (m.listedLine lead i val).toList := by
  have hbreaks := h.values i hi val (by simp [hval])
  have hlisted : ∀ c, c ≠ '\\' → c ≠ '"' → c ∉ val.toList → c ∉ (m.listed i val).toList := by
    intro c hslash hquote hc
    unfold listed
    split
    · have hescape : c ∉ (Quoted.escape val).toList := by
        rw [Quoted.escape, String.toList_ofList]
        exact fun hmem => (Quoted.mem_escapeChars hmem).elim hslash hc
      simp [hquote, hescape]
    · exact hc
  have hfeed := hlisted '\n' (by decide) (by decide) hbreaks.1
  have hreturn := hlisted '\r' (by decide) (by decide) hbreaks.2
  have hname : '\n' ∉ (m.symbol i).name.toList ∧ '\r' ∉ (m.symbol i).name.toList :=
    ⟨fun hc => (h.names i hi _ hc).2.1 rfl, fun hc => (h.names i hi _ hc).2.2 rfl⟩
  refine ⟨hfeed, ?_, ?_⟩
  · simp [listedLine, h.lead.1, hname.1, hfeed]
  · simp [listedLine, h.lead.2, hname.2, hreturn]

variable {is : List SymbolId} {v : Values}

theorem mem_listing {e : SymbolId × String} (he : e ∈ listing out is) :
    e.1 ∈ is ∧ out e.1 = some e.2 := by
  obtain ⟨i, hi, hmap⟩ := List.mem_filterMap.1 he
  obtain ⟨val, hval, rfl⟩ := Option.map_eq_some_iff.1 hmap
  exact ⟨hi, hval⟩

theorem join_effectLines (hout : ∀ i ∈ is, m.HasEffect u i (out i)) :
    String.join (is.map fun i => m.effectLine lead i (out i)) =
      linesText ((listing out is).map fun e => m.listedLine lead e.1 e.2) := by
  induction is with
  | nil => rfl
  | cons i is ih =>
    have hrest := ih fun j hj => hout j (List.mem_cons_of_mem _ hj)
    have hi := hout i List.mem_cons_self
    rw [List.map_cons, String.join_cons, hrest]
    cases hval : out i with
    | none => simp [listing, hval, effectLine]
    | some val =>
      rw [hval] at hi
      simp [listing, hval, effectLine, lineFor_eq_listedLine hi lead, linesText]

/-! ## Values of the previous build -/

theorem Coherent.noteOld (h : Coherent m u v) (i : SymbolId) (o : Option String) :
    Coherent m u (v.modifySymbol i fun x => { x with oldText := o }) := by
  have hassigned : (v.modifySymbol i fun x => { x with oldText := o }).assigned = v.assigned := by
    simp [Values.assigned, Values.symbol_modifySymbol, apply_ite SymbolState.user]
  have hsame : SameMemory v (v.modifySymbol i fun x => { x with oldText := o }) :=
    sameMemory_modifySymbol v i fun _ => ⟨rfl, rfl, rfl, rfl, rfl⟩
  have hnoted := h.reassign hsame fun q t r _ _ hr => by rwa [hassigned, h.assigned]
  rwa [hassigned, h.assigned] at hnoted

theorem oldText_noteOld {j : SymbolId} (hj : j < v.symbols.size) (o : Option String) :
    ((v.modifySymbol i fun x => { x with oldText := o }).symbol j).oldText =
      if i = j then o else (v.symbol j).oldText := by
  rw [Values.symbol_modifySymbol]
  by_cases hij : i = j
  · rw [if_pos ⟨hij, hj⟩, if_pos hij]
  · rw [if_neg fun h => hij h.1, if_neg hij]

theorem Recollects.noteOld
    (h : Recollects m u old v) (hhas : ∀ i ∈ m.uniqueDefined, m.Has (.symbol i))
    (i : SymbolId) (o : Option String) : Recollects m u (Function.update old i o)
      (v.modifySymbol i fun x => { x with oldText := o }) := by
  refine ⟨h.coherent.noteOld i o, fun j hj => ?_⟩
  have hlt : j < v.symbols.size := h.coherent.symbols_size ▸ hhas j hj
  rw [oldText_noteOld hlt, Function.update_apply, h.old j hj]
  simp only [eq_comm]

theorem Coherent.forgetOld (h : Coherent m u v) (hhas : ∀ i ∈ is, m.Has (.symbol i)) :
    Coherent m u
        (is.foldl (fun v i => v.modifySymbol i fun x => { x with oldText := none }) v) ∧
      ∀ j, m.Has (.symbol j) → j ∈ is ∨ (v.symbol j).oldText = none →
        ((is.foldl (fun v i => v.modifySymbol i fun x => { x with oldText := none }) v).symbol
          j).oldText = none := by
  induction is generalizing v with
  | nil => exact ⟨h, fun j _ hj => hj.resolve_left (by simp)⟩
  | cons i is ih =>
    obtain ⟨hcoherent, hnone⟩ := ih (h.noteOld i none) fun j hj => hhas j (List.mem_cons_of_mem _ hj)
    refine ⟨hcoherent, fun j hj hor => hnone j hj ?_⟩
    have hlt : j < v.symbols.size := h.symbols_size ▸ hj
    rw [oldText_noteOld hlt]
    by_cases hij : i = j
    · exact .inr (if_pos hij)
    · rw [if_neg hij]
      exact hor.imp_left fun hmem => (List.mem_cons.1 hmem).resolve_left (Ne.symm hij)

/-! ## Reading the list -/

/-- What is noted while a listing is read. -/
def noteListing (es : List (SymbolId × String)) (old : SymbolId → Option String) :
    SymbolId → Option String :=
  es.foldl (fun old e => Function.update old e.1 (some e.2)) old

theorem noteListing_listing (is : List SymbolId) (j : SymbolId) :
    noteListing (listing out is) old j = if j ∈ is then (out j).or (old j) else old j := by
  induction is generalizing old with
  | nil => rfl
  | cons i is ih =>
    cases hval : out i with
    | none =>
      have hlisting : listing out (i :: is) = listing out is := by simp [listing, hval]
      rw [hlisting, ih]
      by_cases hij : j = i
      · subst hij
        simp [hval]
      · simp [hij]
    | some val =>
      have hlisting : listing out (i :: is) = (i, val) :: listing out is := by
        simp [listing, hval]
      rw [hlisting]
      change noteListing (listing out is) (Function.update old i (some val)) j = _
      rw [ih]
      by_cases hij : j = i
      · subst hij
        simp [hval]
      · simp [hij]

section

variable (hhas : ∀ i ∈ S.model.uniqueDefined, S.model.Has (.symbol i)) (hS : S.HasPlainLead)
  (hm : S.model.Loaded) (hlists : S.model.Lists S.reading.symbolLead out)

include hhas hS hm hlists

omit hhas in
theorem gives_loadOldLine
    (hi : i ∈ S.model.uniqueDefined) (hval : out i = some val) (dir : String) :
    Gives (S.Beside (Recollects S.model u old) files)
      (loadOldLine dir (S.model.listedLine S.reading.symbolLead i val ++ "\n")) fun _ =>
        S.Beside (Recollects S.model u (Function.update old i (some val))) files := by
  refine .get_bind fun s hs => ?_
  have hread : s.readLine (S.model.listedLine S.reading.symbolLead i val ++ "\n") =
      .ok (.set (some (S.model.symbol i).name) (some (S.model.listed i val))) := by
    rw [listedLine, ← hs.lead]
    refine (hs.hasPlainLead hS).readLine_set (hlists.name_ne i hi) ?_ ?_ (by simp)
    · exact fun hc => (hlists.names i hi _ hc).1 rfl
    · exact (hlists.line hi hval).1
  have hnamed : s.namedSymbol? (some (S.model.symbol i).name) = some i := by
    have hmodel := hs.model
    rw [← hmodel]
    exact namedSymbol?_name (hmodel ▸ hm) (hmodel ▸ hi)
  have hnoted : (if (S.model.symbol i).kind = .string then
      (Quoted.literalBody? (S.model.listed i val)).map Quoted.unescape
      else some (S.model.listed i val)) = some val := by
    unfold listed
    split
    · rw [Quoted.literalBody?_quoted, Option.map_some, Quoted.unescape_escape]
    · rfl
  rw [hread]
  refine .bind (P := (· = s))
    (R := fun a t => a = .set (some (S.model.symbol i).name) (some (S.model.listed i val)) ∧ t = s)
    ?_ fun found => .and_left fun hfound => ?_
  · exact .pure fun _ ht => ⟨rfl, ht⟩
  · subst hfound
    simp only [hnamed, Option.getD_some, hs.model, hnoted]
    refine .modify ?_
    rintro _ rfl
    exact ⟨hs.setting, hs.cwd, hs.files,
      hs.values.noteOld (fun _ hj => hm.finished.has hj) i (some val)⟩

omit hhas in
theorem gives_loadOldLines {es : List (SymbolId × String)}
    (hes : ∀ e ∈ es, e.1 ∈ S.model.uniqueDefined ∧ out e.1 = some e.2) (dir : String) :
    Gives (S.Beside (Recollects S.model u old) files)
      (forIn (es.map fun e => S.model.listedLine S.reading.symbolLead e.1 e.2 ++ "\n") PUnit.unit fun line _ => do
        loadOldLine dir line
        pure (ForInStep.yield PUnit.unit))
      fun _ => S.Beside (Recollects S.model u (noteListing es old)) files := by
  rw [List.forIn_map]
  refine Leads.forIn (P := fun done => S.Beside (Recollects S.model u (noteListing done old)) files)
    (fun done e he => ?_) []
  obtain ⟨hi, hval⟩ := hes e he
  refine (gives_loadOldLine hS hm hlists hi hval dir).bind fun _ => .pure fun t ht => ⟨rfl, ?_⟩
  rwa [noteListing, List.foldl_append]

omit hS hm hlists in
theorem gives_forgetOld :
    Gives (S.Beside (Coherent S.model u) files)
      (modify fun s =>
        { s with
          values := s.model.uniqueDefined.foldl
            (fun v i => v.modifySymbol i fun x => { x with oldText := none }) s.values } :
        SessionM Unit)
      fun _ => S.Beside (Recollects S.model u fun _ => none) files := by
  refine .modify fun s hs => ?_
  rw [hs.model]
  obtain ⟨hcoherent, hnone⟩ := hs.values.forgetOld hhas
  exact ⟨hs.setting, hs.cwd, hs.files, hcoherent, fun i hi => hnone i (hhas i hi) (.inl hi)⟩

omit hS hm hlists in
theorem gives_loadOldValues_none
    (hread : ∀ bytes, files.read S.workspace.cwd (join dir "auto.conf") ≠ .ok bytes) :
    Gives (S.Beside (Coherent S.model u) files) (loadOldValues dir) fun _ =>
      S.Beside (Recollects S.model u fun _ => none) files := by
  refine (gives_forgetOld hhas).bind fun _ => .get_bind fun s hs => ?_
  have hread' : s.workspace.read (join dir "auto.conf") =
      files.read S.workspace.cwd (join dir "auto.conf") := by
    rw [Workspace.read, hs.files, hs.cwd]
  rw [hread']
  split
  · refine .pure ?_
    rintro _ rfl
    exact hs
  · exact Gives.throw _
  · rename_i bytes hbytes
    exact absurd hbytes (hread bytes)

omit hhas in
/-- The list of values is read back as it was written. -/
theorem gives_loadOldValues
    {u' : Assigned} (hout : ∀ i ∈ S.model.uniqueDefined, S.model.HasEffect u' i (out i))
    {bytes : ByteArray} (hread : files.read S.workspace.cwd (join dir "auto.conf") = .ok bytes)
    (hfault : (decodeFile S.reading.encoding bytes).fault = none)
    (htext : (decodeFile S.reading.encoding bytes).unified =
      String.join (S.model.uniqueDefined.map fun i =>
        S.model.effectLine S.reading.symbolLead i (out i))) :
    Gives (S.Beside (Coherent S.model u) files) (loadOldValues dir) fun _ =>
      S.Beside (Recollects S.model u out) files := by
  let es := listing out S.model.uniqueDefined
  have hes : ∀ e ∈ es, e.1 ∈ S.model.uniqueDefined ∧ out e.1 = some e.2 := fun e he =>
    mem_listing he
  have hlines : (decodeFile S.reading.encoding bytes).lines =
      es.map fun e => S.model.listedLine S.reading.symbolLead e.1 e.2 ++ "\n" := by
    rw [DecodedFile.lines, hfault, htext, join_effectLines hout]
    refine (physicalLines_linesText fun l hl => ?_).trans (List.map_map ..)
    obtain ⟨e, he, rfl⟩ := List.mem_map.1 hl
    exact (hlists.line (hes e he).1 (hes e he).2).2.1
  refine (gives_forgetOld fun _ hj => hm.finished.has hj).bind fun _ => .get_bind fun s hs => ?_
  have hread' : s.workspace.read (join dir "auto.conf") = .ok bytes := by
    rw [Workspace.read, hs.files, hs.cwd, hread]
  rw [hread', hs.encoding]
  dsimp only
  rw [hlines, hfault]
  refine ((gives_loadOldLines hS hm hlists hes dir).mono (fun _ heq => heq ▸ hs)
    fun _ _ ht => ht).bind fun _ => .pure fun t ht => ?_
  refine ⟨ht.setting, ht.cwd, ht.files, ht.values.coherent, fun i hi => ?_⟩
  rw [ht.values.old i hi, noteListing_listing, if_pos hi, Option.or_none]

end

end Buildsmith.Kconfig
