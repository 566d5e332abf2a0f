import Buildsmith.Proofs.FileTree.Writing
import Buildsmith.Proofs.Session.Lines
import Buildsmith.Proofs.Session.Replacing

/-!
# Files that were saved

A text that is saved can be read again (`saveConfig_hasText`, `saveMinimal_hasText`).  A new session
of the same description that loads it enters what the text tells (`Session.Tells.exists_load`).
-/

namespace Buildsmith

open Text ByteArray

def Workspace.HasText (w : Workspace) (e : Text.Encoding) (path text : String) : Prop :=
  ∃ bytes, w.read path = .ok bytes ∧ (decodeFile e bytes).fault = none ∧
    (decodeFile e bytes).unified = text

namespace Kconfig

variable {e : Text.Encoding} {path text : String}

/-! ## Saving -/

def Session.Encodes (e : Text.Encoding) (s : Session) : Prop := s.reading.encoding = e

theorem gives_hasContents : Gives (Session.Encodes e) (hasContents path text) fun found s =>
      s.Encodes e ∧ (found → s.workspace.HasText e path text) := by
  refine .get_bind fun s hs => ?_
  cases hread : s.workspace.read path with
  | error f =>
    cases f with
    | nulInPath => exact Gives.throw _
    | failed _ _ =>
      refine .pure ?_
      rintro _ rfl
      exact ⟨hs, nofun⟩
  | ok bytes =>
    dsimp only
    cases hfault : (decodeFile s.reading.encoding bytes).fault with
    | some f =>
      refine Leads.ite (fun _ => Gives.throw _) fun _ => Leads.pure ?_
      rintro _ rfl
      exact ⟨hs, nofun⟩
    | none =>
      refine .pure ?_
      rintro _ rfl
      refine ⟨hs, fun htext => ⟨bytes, hread, ?_, ?_⟩⟩
      · exact hs ▸ hfault
      · exact hs ▸ of_decide_eq_true htext

theorem gives_writeText_of {P Q : Session → Prop}
    (h : ∀ s bytes w, P s → encode? s.reading.encoding text = some bytes →
      s.workspace.write path bytes = .ok w → Q (s.mapWorkspace fun _ => w)) :
    Gives P (writeText path text) fun _ => Q := by
  refine .get_bind fun s hs => ?_
  cases s.workspace.write path empty with
  | error f => exact Gives.throw _
  | ok emptied =>
    cases hbytes : encode? s.reading.encoding text with
    | none => exact (Leads.set (R := fun _ _ => True) fun _ _ => trivial).bind fun _ => Gives.throw _
    | some bytes =>
      dsimp only
      cases hwrite : s.workspace.write path bytes with
      | error f => exact Gives.throw _
      | ok w => exact .set fun _ _ => h s bytes w hs hbytes hwrite

theorem gives_writeText (hreturn : '\r' ∉ text.toList) :
    Gives (Session.Encodes e) (writeText path text) fun _ s => s.workspace.HasText e path text := by
  refine gives_writeText_of fun s bytes w hs hbytes hwrite =>
    ⟨bytes, Workspace.read_write hwrite, ?_, ?_⟩
  all_goals rw [← show s.reading.encoding = e from hs, decodeFile_encode? hbytes]
  rw [Text.DecodedFile.unified, unifyNewlines_eq_self hreturn, String.ofList_toList]

theorem gives_save {a : String} {save : SessionM String}
    (hsave : Gives (Session.Encodes e) save fun _ s => s.workspace.HasText e path text) :
    Gives (Session.Encodes e) (do if ← hasContents path text then return a else save)
      fun _ s => s.workspace.HasText e path text := by
  refine gives_hasContents.bind fun found => ?_
  refine .ite (fun hfound => .pure fun _ h => h.2 hfound) fun _ => ?_
  exact hsave.pre fun _ h => h.1

theorem preserves_keepOld : Preserves (Session.Encodes e) (keepOld path) := by
  refine .modify fun s hs => ?_
  split <;> exact hs

theorem preserves_evaluating {α : Type} (x : EvalM α) :
    Preserves (Session.Encodes e) (evaluating x) := by
  refine preserves_iff.2 fun s hs => ?_
  rw [runFrom_evaluating_eq]
  have hsetting := Kept.setting_foldl_log (x.runOn s.model s.values).2.warnings s
  exact (Session.eq_of_setting (f := (·.reading.encoding)) hsetting).trans hs

variable {s s' : Session} {header message : String} {keepsOld : Bool}

/-- What is saved as the full configuration can be read again. -/
theorem saveConfig_hasText {p : Option String} (hs : s.Encodes e) (hreturn : '\r' ∉ text.toList)
    (htext : (runFrom (evaluating (configText s.reading.symbolLead header)) s).1 = .ok text)
    (hsave : runFrom (saveConfig p header keepsOld) s = (.ok message, s')) :
    s'.workspace.HasText e (p.getD (standardConfigName s.workspace)) text := by
  rw [saveConfig, runFrom_bind_ok runFrom_get] at hsave
  obtain ⟨contents, s₁, hcontents, hrest⟩ := runFrom_bind_eq_ok.1 hsave
  rw [hcontents] at htext
  cases htext
  have hs₁ : s₁.Encodes e := (preserves_evaluating _).gives.apply hs hcontents
  have hwrite : ∀ path message, Gives (Session.Encodes e)
      (writeText path text >>= fun _ => pure message) fun (_ : String) s =>
        s.workspace.HasText e path text :=
    fun _ _ => (gives_writeText hreturn).bind fun _ => .pure fun _ h => h
  refine (gives_save (.ite (fun _ => ?_) fun _ => hwrite _ _)).apply hs₁ hrest
  exact preserves_keepOld.gives.bind fun _ => hwrite _ _

/-- What is saved as the minimal configuration can be read again. -/
theorem saveMinimal_hasText
    (hs : s.Encodes e) (hsave : runFrom (saveMinimal path header) s = (.ok message, s')) :
    ∃ text, (runFrom (evaluating (minimalText s.reading.symbolLead header)) s).1 = .ok text ∧
      ('\r' ∉ text.toList → s'.workspace.HasText e path text) := by
  rw [saveMinimal, runFrom_bind_ok runFrom_get] at hsave
  obtain ⟨text, s₁, htext, hrest⟩ := runFrom_bind_eq_ok.1 hsave
  refine ⟨text, congrArg Prod.fst htext, fun hreturn => ?_⟩
  have hs₁ : s₁.Encodes e := (preserves_evaluating _).gives.apply hs htext
  refine (gives_save ?_).apply hs₁ hrest
  exact (gives_writeText hreturn).bind fun _ => .pure fun _ h => h

/-! ## Loading in a new session -/

/-- A session on the files of a workspace. -/
def Session.on (s : Session) (w : Workspace) : Session := s.mapWorkspace fun _ => w

/-- A new session that loads a text enters what the text tells. -/
theorem Session.Tells.exists_load
    {es : List (SymbolId × String)} (h : s.Tells text es) (hm : s.model.Loaded)
    (hvalues : s.values = .initial s.model) (hnodup : (es.map Prod.fst).Nodup) {w : Workspace}
    (hfile : w.HasText s.reading.encoding path text) :
    ∃ t, runFrom (loadConfig (some path) true) (s.on w) =
        (.ok ("Loaded configuration '" ++ path ++ "'"), t) ∧
      Ledger.Reflects s.model es t.values.ledger := by
  obtain ⟨bytes, hread, hfault, htext⟩ := hfile
  have htells : (s.on w).Tells text es := h
  obtain ⟨founds, hfounds, rfl⟩ := htells.exists_linesIn hfault htext path
  have hread' : (s.on w).workspace.read path = .ok bytes := hread
  have hlines : (s.on w).linesOf path = .ok founds := by
    rw [Session.linesOf, Session.opened, hread']
    exact hfounds
  have hstart : (s.on w).Holds (s.on w).values.ledger (s.on w).missing (s.on w) :=
    ⟨⟨rfl, hvalues ▸ Valid.initial hm.wellFormed.lt_size⟩, rfl, rfl⟩
  obtain ⟨_, t, hrun, ht⟩ := (Session.Holds.loadFrom (S := s.on w) hm hlines).result hstart
  refine ⟨t, ?_, ?_⟩
  · rw [runFrom_loadConfig_some, runFrom_bind_ok hrun]
    rfl
  · rw [ht.ledger]
    exact Ledger.reflects_replacedBy (S := s.on w) hvalues hm.wellFormed.lt_size hnodup

theorem sound_of_load (hm : s.model.Loaded) (hsane : s.model.ChoicesSane)
    (hvalues : s.values = .initial s.model) {w : Workspace} {t : Session}
    {r : Except Fault String} (hload : runFrom (loadConfig (some path) true) (s.on w) = (r, t)) :
    (s.on w).Over (Sound s.model) t := by
  have hstart : (s.on w).Over (Sound s.model) (s.on w) :=
    ⟨rfl, hvalues ▸ sound_initial hm.wellFormed.lt_size⟩
  have hloaded := preserves_iff.1 ((Sound.kept (hm.wired hsane)).loadConfig (S := s.on w) (some path) true) _
    hstart
  rwa [hload] at hloaded

end Kconfig

/-! ## Writing over any file -/

namespace Workspace

/-- Whether a file can be written at a path, anew or over another one. -/
def Writable (w : Workspace) (path : String) : Prop := ∃ w', w.write path empty = .ok w'

/-- Whether comparing a file with a text comes to bytes that cannot be decoded. -/
def garbles (w : Workspace) (e : Text.Encoding) (path text : String) : Bool :=
  (w.read path).toOption.any fun bytes =>
    (decodeFile e bytes).fault.isSome && meetsFault e (text.length + 1) bytes

variable {w : Workspace} {path : String}

theorem writable_iff : w.Writable path ↔ ∃ place name, Path.EndsIn path name ∧
      w.files.resolve w.cwd path = .ok place ∧ w.files.isDirAt place = false := by
  simp only [Writable, write_eq_ok_iff, FileTree.write_eq_ok_iff]
  grind

theorem Writable.exists_write (h : w.Writable path) (bytes : ByteArray) :
    ∃ w', w.write path bytes = .ok w' := by
  obtain ⟨place, name, hname, hplace, hdir⟩ := writable_iff.1 h
  exact ⟨_, write_eq_ok_iff.2
    ⟨_, FileTree.write_eq_ok_iff.2 ⟨place, name, hname, hplace, hdir, rfl⟩, rfl⟩⟩

theorem Writable.read_cases (h : w.Writable path) :
    (∃ bytes, w.read path = .ok bytes) ∨ w.read path = .error (.failed .notFound path) := by
  obtain ⟨place, name, hname, hplace, hdir⟩ := writable_iff.1 h
  unfold FileTree.isDirAt at hdir
  simp only [Workspace.read, FileTree.read, hplace, bind, Except.bind]
  split <;> simp_all

end Workspace

namespace Kconfig

variable {path text : String} {s : Session}

/-- Comparing a file with a text fails at bytes that cannot be decoded, and else tells whether the
file has the text. -/
theorem hasContents_cases (hw : s.workspace.Writable path) (text : String) :
    (s.workspace.garbles s.reading.encoding path text ∧
      ∃ g, runFrom (hasContents path text) s = (.error (.undecodable g), s)) ∨
    (s.workspace.garbles s.reading.encoding path text = false ∧
      ∃ b, (b = true ↔ s.workspace.HasText s.reading.encoding path text) ∧
        runFrom (hasContents path text) s = (.ok b, s)) := by
  rw [hasContents, runFrom_bind_ok runFrom_get]
  rcases hw.read_cases with ⟨bytes, hread⟩ | hread
  · simp only [Workspace.garbles, Workspace.HasText, hread, Except.ok.injEq, exists_eq_left']
    cases hfault : (decodeFile s.reading.encoding bytes).fault with
    | none => exact .inr ⟨by simp [hfault, Except.toOption], _, by simp, rfl⟩
    | some g =>
      cases hmeets : meetsFault s.reading.encoding (text.length + 1) bytes with
      | true => exact .inl ⟨by simp [hfault, hmeets, Except.toOption], g, rfl⟩
      | false => exact .inr ⟨by simp [hmeets, Except.toOption], false, by simp, rfl⟩
  · refine .inr ⟨?_, false, ?_, ?_⟩
    · simp [Workspace.garbles, hread, Except.toOption]
    · simp [Workspace.HasText, hread]
    · simp only [hread, runFrom_pure]

/-- A text that can be encoded is written where a file can be. -/
theorem exists_writeText (hw : s.workspace.Writable path)
    (hencodes : (encode? s.reading.encoding text).isSome) (hreturn : '\r' ∉ text.toList) :
    ∃ t, runFrom (writeText path text) s = (.ok (), t) ∧
      t.workspace.HasText s.reading.encoding path text := by
  obtain ⟨bytes, hbytes⟩ := Option.isSome_iff_exists.1 hencodes
  obtain ⟨emptied, hemptied⟩ := hw
  obtain ⟨w, hwrite⟩ := Workspace.Writable.exists_write ⟨emptied, hemptied⟩ bytes
  have hrun : runFrom (writeText path text) s = (.ok (), s.mapWorkspace fun _ => w) := by
    rw [writeText, runFrom_bind_ok runFrom_get]
    simp only [hemptied, hbytes, hwrite, runFrom_set]
  exact ⟨_, hrun, (gives_writeText hreturn).apply rfl hrun⟩

/-- A file that is put aside leaves room for another one. -/
theorem exists_keepOld (hw : s.workspace.Writable path) :
    ∃ t, runFrom (keepOld path) s = (.ok (), t) ∧ t.workspace.Writable path ∧
      t.reading.encoding = s.reading.encoding := by
  refine ⟨_, runFrom_modify _, ?_⟩
  split
  · rename_i files hrename
    obtain ⟨_, hwrite⟩ := hw
    obtain ⟨_, hfiles, -⟩ := Workspace.write_eq_ok_iff.1 hwrite
    obtain ⟨t₂, ht₂⟩ := FileTree.exists_write_of_rename hfiles hrename empty
    exact ⟨⟨_, Workspace.write_eq_ok_iff.2 ⟨t₂, ht₂, rfl⟩⟩, rfl⟩
  · exact ⟨hw, rfl⟩

/-- What comes of writing a text in a session: at once, or as a configuration that has the text. -/
inductive Writes (path text : String) (s : Session) : Except Fault Unit × Session → Prop where
  | plain : Writes path text s (runFrom (writeIfChanged path text) s)
  | full {s₀ : Session} {p : Option String} (header : String) (keepsOld : Bool)
      (hpath : p.getD (standardConfigName s₀.workspace) = path)
      (htext : runFrom (evaluating (configText s₀.reading.symbolLead header)) s₀ = (.ok text, s)) :
      Writes path text s (runFrom (discard (saveConfig p header keepsOld)) s₀)
  | minimal {s₀ : Session} (header : String)
      (htext : runFrom (evaluating (minimalText s₀.reading.symbolLead header)) s₀ = (.ok text, s)) :
      Writes path text s (runFrom (discard (saveMinimal path header)) s₀)

/-- Whatever stood in a file, a text is written over it, and left alone if it is there already, unless
comparing the two comes to bytes that cannot be decoded: then writing fails and changes nothing. -/
theorem writing_over_any_file {out : Except Fault Unit × Session} (hout : Writes path text s out)
    (hw : s.workspace.Writable path)
    (hencodes : (encode? s.reading.encoding text).isSome = true) (hreturn : '\r' ∉ text.toList) :
    (s.workspace.garbles s.reading.encoding path text = false → out.1 = .ok () ∧
      out.2.workspace.HasText s.reading.encoding path text ∧
      (s.workspace.HasText s.reading.encoding path text → out.2 = s)) ∧
    (s.workspace.garbles s.reading.encoding path text = true →
      (∃ g, out.1 = .error (.undecodable g)) ∧ out.2 = s) := by
  -- each way compares first, and writes only what differs
  suffices h : ∃ f : Bool → SessionM Unit, out = runFrom (hasContents path text >>= f) s ∧
      runFrom (f true) s = (.ok (), s) ∧ ∃ t, runFrom (f false) s = (.ok (), t) ∧
        t.workspace.HasText s.reading.encoding path text by
    obtain ⟨f, rfl, hsame, t, hwritten, htext⟩ := h
    rcases hasContents_cases hw text with ⟨hgarbles, g, hrun⟩ | ⟨hplain, b, hb, hrun⟩
    · rw [runFrom_bind_error hrun]
      exact ⟨fun h => absurd (hgarbles.symm.trans h) Bool.noConfusion, fun _ => ⟨⟨g, rfl⟩, rfl⟩⟩
    · rw [runFrom_bind_ok hrun]
      refine ⟨fun _ => ?_, fun h => absurd (hplain.symm.trans h) Bool.noConfusion⟩
      cases b with
      | true =>
        rw [hsame]
        exact ⟨rfl, hb.1 rfl, fun _ => rfl⟩
      | false =>
        rw [hwritten]
        exact ⟨rfl, htext, fun h => absurd (hb.2 h) Bool.false_ne_true⟩
  obtain ⟨t, hwritten, htext⟩ := exists_writeText hw hencodes hreturn
  cases hout with
  | plain => exact ⟨fun b => if !b then writeText path text else pure (), rfl, rfl, t, hwritten, htext⟩
  | @full s₀ p header keepsOld hpath hcontents =>
    subst hpath
    rw [runFrom_discard, saveConfig, bind_assoc, runFrom_bind_ok runFrom_get, bind_assoc,
      runFrom_bind_ok hcontents, bind_assoc]
    refine ⟨_, rfl, rfl, ?_⟩
    cases keepsOld with
    | false =>
      refine ⟨t, ?_, htext⟩
      simp only [Bool.false_eq_true, if_false]
      rw [bind_assoc, runFrom_bind_ok hwritten]
      rfl
    | true =>
      obtain ⟨s₁, haside, hw₁, hencoding⟩ := exists_keepOld hw
      rw [← hencoding] at hencodes ⊢
      obtain ⟨t₁, hwritten₁, htext₁⟩ := exists_writeText hw₁ hencodes hreturn
      refine ⟨t₁, ?_, htext₁⟩
      simp only [Bool.false_eq_true, if_false, if_true]
      rw [bind_assoc, runFrom_bind_ok haside, bind_assoc, runFrom_bind_ok hwritten₁]
      rfl
  | @minimal s₀ header hcontents =>
    rw [runFrom_discard, saveMinimal, bind_assoc, runFrom_bind_ok runFrom_get, bind_assoc,
      runFrom_bind_ok hcontents, bind_assoc]
    refine ⟨_, rfl, rfl, t, ?_, htext⟩
    simp only [Bool.false_eq_true, if_false]
    rw [bind_assoc, runFrom_bind_ok hwritten]
    rfl

/-- A symbol, a configuration that is no text, and another one that is. -/
def garbledWorkspace : Workspace :=
  { files := { entries := [(["Kconfig"], .file "config A\n\tbool \"a\"\n".toUTF8),
      ([".config"], .file ⟨#[255]⟩), (["old"], .file "CONFIG_A=y\r\n".toUTF8)] } }

/-- The configuration that is a text is written over, the other one is not. -/
theorem writing_over_any_file_garbled : ∃ s r, openSession garbledWorkspace {} = (.ok s, r) ∧
    (∃ t, runFrom (discard (saveConfig (some "old") "" true)) s = (.ok (), t) ∧
      t.workspace.HasText .utf8 "old" "# CONFIG_A is not set\n") ∧
    ∃ g t, runFrom (discard (saveConfig none "" true)) s = (.error (.undecodable g), t) := by
  obtain ⟨s, r, hopen, hrun⟩ := exists_of_opensTo garbledWorkspace (fun s =>
      let text := "# CONFIG_A is not set\n"
      let out := runFrom (evaluating (configText s.reading.symbolLead "")) s
      let t := out.2
      out.1.toOption == some text && standardConfigName s.workspace == ".config" &&
      t.reading.encoding == .utf8 &&
      (t.workspace.write "old" empty).toOption.isSome &&
      (t.workspace.write ".config" empty).toOption.isSome &&
      !t.workspace.garbles .utf8 "old" text && t.workspace.garbles .utf8 ".config" text)
    (by decide +kernel)
  simp only [Bool.and_eq_true, beq_iff_eq, Bool.not_eq_true', Option.isSome_iff_exists] at hrun
  obtain ⟨⟨⟨⟨⟨⟨htext, hname⟩, hencoding⟩, ⟨w, hold⟩⟩, w', hconfig⟩, hplain⟩, hgarbled⟩ := hrun
  have hcontents := runFrom_of_toOption htext
  have hover := (writing_over_any_file (.full "" true (Option.getD_some ..) hcontents)
    ⟨w, eq_ok_of_toOption hold⟩ (by rw [hencoding]; decide +kernel) (by decide)).1
  have hleft := (writing_over_any_file (.full "" true (Option.getD_none.trans hname) hcontents)
    ⟨w', eq_ok_of_toOption hconfig⟩ (by rw [hencoding]; decide +kernel) (by decide)).2
  rw [hencoding] at hover hleft
  obtain ⟨hok, hnew, -⟩ := hover hplain
  obtain ⟨⟨g, hg⟩, -⟩ := hleft hgarbled
  exact ⟨s, r, hopen, ⟨_, Prod.ext hok rfl, hnew⟩, g, _, Prod.ext hg rfl⟩

end Kconfig

end Buildsmith
