import Buildsmith.Proofs.Session.Ledger

/-!
# Entering what a file says

The lines of a configuration file say what symbols are to be set to.  Loading a file enters these
statements into the record one after another, and then takes back what the file did not set.  So the
record after loading is a function of the lines and of the record before
(`Session.Holds.loadFrom`).
-/

namespace Buildsmith.Kconfig

open List Option
open Text (takeFirst trimEnd decodeFile)
open Ledger (user isSet followedBy enter)

/-- A session in the setting of another one, with the given record and the given assignments to
undefined symbols. -/
structure Session.Holds (S : Session) (L : Ledger) (M : List (Option String × Option String))
    (s : Session) : Prop extends Session.Over S (Valid S.model) s where
  ledger : s.values.ledger = L
  missing : s.missing = M

def Model.isLetter (m : Model) (i : SymbolId) (letter : String) : Bool :=
  letter = "y" || letter = "n" || ((m.symbol i).kind = .tristate && letter = "m")

/-- What a line of a file says of a defined symbol: the text that the symbol is to be set to. -/
def Session.statement? (S : Session) : ConfigLine → Option (SymbolId × String)
  | .set name value =>
    (S.definedSymbol? name).bind fun i =>
      let text := value.getD ""
      let kind := (S.model.symbol i).kind
      if kind.isLogical then
        let letter := takeFirst 1 text
        if S.model.isLetter i letter then some (i, letter) else none
      else if kind = .string then
        (Text.Quoted.literalBody? text).map fun body => (i, Text.Quoted.unescape body)
      else some (i, text)
  | .unset name =>
    (S.definedSymbol? name).bind fun i =>
      if (S.model.symbol i).kind.isLogical then some (i, "n") else none
  | .other => none

/-- Whether a line sets a truth value again whose old value cannot be told. -/
def Session.IsMute (S : Session) (L : Ledger) (found : ConfigLine) : Prop :=
  ∃ e ∈ S.statement? found, (S.model.symbol e.1).kind.isLogical = true ∧ L.Hollow e.1

/-- What a line of a file assigns to an undefined symbol. -/
def Session.missingIn (S : Session) : ConfigLine → List (Option String × Option String)
  | .set name value => if (S.definedSymbol? name).isNone then [(name, value)] else []
  | .unset name => if (S.definedSymbol? name).isNone then [(name, some "n")] else []
  | .other => []

namespace Session.Holds

variable {S s : Session} {L L' : Ledger} {M : List (Option String × Option String)}

theorem definedSymbol?_eq (h : S.Holds L M s) (name : Option String) :
    s.definedSymbol? name = S.definedSymbol? name :=
  eq_of_setting (f := (·.definedSymbol? name)) h.setting

theorem readLine_eq (h : S.Holds L M s) (line : String) : s.readLine line = S.readLine line :=
  eq_of_setting (f := (·.readLine line)) h.setting

theorem evaluating {α : Type} {x : EvalM α} (hx : EvalM.Keeps S.model (Valid S.model) x)
    (hrun : ∀ v, Valid S.model v → v.ledger = L →
      ∃ a v', x.runOn S.model v = (.ok a, v') ∧ v'.ledger = L') :
    Yields (S.Holds L M) (Kconfig.evaluating x) fun _ => S.Holds L' M := by
  refine ⟨fun s hs => ?_⟩
  obtain ⟨a, v', hv', hledger⟩ := hrun s.values hs.values hs.ledger
  have hover := preserves_iff.1 ((Valid.kept S.model).evaluating hx) s hs.toOver
  have hv' : x.runOn s.model s.values = (.ok a, v') := hs.model ▸ hv'
  rw [runFrom_evaluating_eq, hv'] at hover ⊢
  exact ⟨hover, hledger, hs.missing⟩

theorem sessionWarn (place : Option (String × Nat)) (text : String) :
    Yields (S.Holds L M) (sessionWarn place text) fun _ => S.Holds L M :=
  Leads.modify fun s hs =>
    ⟨⟨(Kept.setting_log s _).trans hs.setting, hs.values⟩, hs.ledger, hs.missing⟩

theorem noteMissing (place : String × Nat) (name value : Option String) :
    Yields (S.Holds L M) (noteMissing place name value)
      fun _ => S.Holds L (M ++ [(name, value)]) := by
  have hnote : Yields (S.Holds L M)
      (modify fun s => { s with missing := s.missing ++ [(name, value)] } : SessionM PUnit)
      fun _ => S.Holds L (M ++ [(name, value)]) :=
    Leads.modify fun s hs => ⟨⟨hs.setting, hs.values⟩, hs.ledger, by rw [hs.missing]⟩
  refine hnote.bind fun _ => .get_bind_of fun s _ => ?_
  exact .ite (fun _ => sessionWarn _ _) fun _ => .pure fun _ hs => hs

theorem user_eq (h : S.Holds L M s) (i : SymbolId) : (s.values.symbol i).user = L.user i :=
  congrFun (congrArg user h.ledger) i

theorem wasSet_eq (h : S.Holds L M s) (i : SymbolId) : (s.values.symbol i).wasSet = L.isSet i :=
  congrFun (congrArg isSet h.ledger) i

variable {i : SymbolId} {found : ConfigLine} {lines : List String}

theorem noteRepeated (place : String × Nat) (i : SymbolId) (value : String) :
    YieldsUnless ((S.model.symbol i).kind.isLogical ∧ L.user i = none) .unknownName
      (S.Holds L M) (noteRepeated place i value) fun _ => S.Holds L M := by
  refine .get_bind_of fun s hs => ?_
  have hwarn : ∀ (c : Prop) [Decidable c] text, Yields (S.Holds L M)
      (if c then Kconfig.sessionWarn (some place) text else pure ()) fun _ => S.Holds L M :=
    fun c _ text => .ite (fun _ => sessionWarn _ _) fun _ => .pure fun _ hs => hs
  simp only [hs.user_eq, hs.model]
  cases L.user i with
  | none =>
    by_cases hkind : (S.model.symbol i).kind.isLogical
    · simp only [hkind]
      exact .fails_bind (.throw fun _ _ => ⟨⟨trivial, trivial⟩, rfl⟩)
    · simp only [hkind]
      exact .of_yields (fun h => Bool.noConfusion h.1) (hwarn _ _)
  | some x =>
    refine .of_yields (fun h => some_ne_none x h.2) ?_
    cases x with
    | tristate t | text t => exact hwarn _ _

variable (hm : S.model.Loaded)

include hm

theorem setSymbol (hi : i ∈ S.model.uniqueDefined) (t : String) :
    Yields (S.Holds L M) (discard (Kconfig.evaluating (Kconfig.setSymbol false i (.text t))))
      fun _ => S.Holds (L.setSymbol S.model i t) M := by
  refine .discard (evaluating ((Valid.kept S.model).setSymbol false i _) fun v hv hL => ?_)
  rw [← hL]
  exact runOn_setSymbol hv (hm.finished.has (x := .symbol i) hi)
    (fun _ => hm.wellFormed.choice_lt) false t

theorem setChoice {c : ChoiceId} (hc : (S.model.symbol i).choice = some c) (t : String) :
    Yields (S.Holds L M) (discard (Kconfig.evaluating (Kconfig.setChoice c (.text t))))
      fun _ => S.Holds (L.setMode S.model c t) M := by
  refine .discard (evaluating ((Valid.kept S.model).setChoice c _) fun v hv hL => ?_)
  rw [← hL]
  exact runOn_setChoice hv (hm.wellFormed.choice_lt hc) t

theorem assignFromFile (place : String × Nat) (hi : i ∈ S.model.uniqueDefined) (t : String) :
    YieldsUnless ((S.model.symbol i).kind.isLogical ∧ L.Hollow i) .unknownName
      (S.Holds L M) (assignFromFile place i t) fun _ => S.Holds (L.setSymbol S.model i t) M := by
  refine .get_bind_of fun s hs => ?_
  rw [hs.wasSet_eq]
  refine .ite (fun hset => ?_) fun hset => .of_yields (fun h => hset h.2.1) (setSymbol hm hi t)
  exact ((noteRepeated place i t).congr (by simp [Ledger.Hollow, hset])).bind fun _ =>
    .and_left fun hold => .of_yields hold (setSymbol hm hi t)

theorem assignLogical (place : String × Nat) (hi : i ∈ S.model.uniqueDefined)
    (hkind : (S.model.symbol i).kind.isLogical) (value : String) :
    YieldsUnless (S.model.isLetter i (takeFirst 1 value) ∧ L.Hollow i) .unknownName
      (S.Holds L M) (assignLogical place i value) fun _ =>
        S.Holds (if S.model.isLetter i (takeFirst 1 value) then
          L.enter S.model (i, takeFirst 1 value) else L) M := by
  refine .get_bind_of fun s hs => ?_
  rw [hs.model]
  generalize takeFirst 1 value = letter
  refine .ite (fun hinvalid => ?_) fun hvalid => ?_
  · have hletter : ¬S.model.isLetter i letter := by
      simpa only [Model.isLetter, Bool.not_eq_true, Bool.not_eq_true'] using hinvalid
    simp only [hletter]
    exact .of_yields (fun h => Bool.false_ne_true h.1) (sessionWarn _ _)
  · have hletter : S.model.isLetter i letter := by
      simpa only [Model.isLetter, Bool.not_eq_true, Bool.not_eq_false'] using hvalid
    have hassign : ∀ L' : Ledger, (L'.Hollow i ↔ L.Hollow i) →
        YieldsUnless (True ∧ L.Hollow i) .unknownName (S.Holds L' M)
          (Kconfig.assignFromFile place i letter)
          fun _ => S.Holds (L'.setSymbol S.model i letter) M :=
      fun L' hL' => (assignFromFile hm place hi letter).congr (by simp [hkind, hL'])
    simp only [hletter]
    refine .ite (fun hne => ?_) fun hn => ?_
    · have hfollowed : followedBy S.model i letter = (S.model.symbol i).choice := by
        simp [followedBy, hkind, hne]
      simp only [enter, hfollowed]
      cases hc : (S.model.symbol i).choice with
      | none => exact hassign L Iff.rfl
      | some c =>
        have hset := Leads.bind_of_yields (setChoice (L := L) (M := M) hm hc letter)
          fun _ => hassign _ (Ledger.hollow_setMode c letter i)
        dsimp only
        cases (s.values.choice c).user with
        | none => exact hset
        | some mode =>
          exact .ite (fun _ => .bind_of_yields (sessionWarn _ _) fun _ => hset)
            fun _ => hset
    · have hfollowed : followedBy S.model i letter = none := by
        simp [followedBy, not_not.1 hn]
      simp only [enter, hfollowed]
      exact hassign L Iff.rfl

omit hm in
theorem enter_eq_setSymbol {t : String} (ht : (S.model.symbol i).kind.isLogical → t = "n") :
    L.enter S.model (i, t) = L.setSymbol S.model i t := by
  have hfollowed : followedBy S.model i t = none := by
    by_cases hkind : (S.model.symbol i).kind.isLogical
    · simp [followedBy, ht hkind]
    · simp [followedBy, hkind]
  rw [enter, hfollowed]
  rfl

theorem mem_uniqueDefined {name : Option String}
    (h : S.definedSymbol? name = some i) : i ∈ S.model.uniqueDefined := by
  obtain ⟨-, hentries⟩ := filter_eq_some_iff.1 h
  rw [hm.finished.mem_uniqueDefined]
  exact hm.wellFormed.symbolEntries i (by simpa using hentries)

theorem statement?_mem {e : SymbolId × String}
    (h : S.statement? found = some e) : e.1 ∈ S.model.uniqueDefined := by
  cases found with
  | set name value =>
    obtain ⟨i, hname, hi⟩ := bind_eq_some_iff.1 h
    have he : e.1 = i := by
      dsimp only at hi
      split at hi
      · split at hi <;> grind
      · split at hi <;> grind [map_eq_some_iff]
    exact he ▸ mem_uniqueDefined hm hname
  | unset name =>
    obtain ⟨i, hname, hi⟩ := bind_eq_some_iff.1 h
    have he : e.1 = i := by
      split at hi <;> grind
    exact he ▸ mem_uniqueDefined hm hname
  | other => cases h

theorem not_isMute_clear (found : ConfigLine) : ¬S.IsMute (L.clear S.model) found := by
  rintro ⟨e, he, -, hhollow⟩
  exact Ledger.not_hollow_clear L (statement?_mem hm he) hhollow

theorem not_exists_isMute_clear (founds : List ConfigLine) :
    ¬∃ found ∈ founds, S.IsMute (L.clear S.model) found :=
  fun ⟨found, _, hmute⟩ => not_isMute_clear hm found hmute

theorem loadLine (place : String × Nat) {line : String} (hfound : S.readLine line = .ok found) :
    YieldsUnless (S.IsMute L found) .unknownName (S.Holds L M) (loadLine place line) fun _ =>
      S.Holds ((S.statement? found).elim L (L.enter S.model)) (M ++ S.missingIn found) := by
  refine .get_bind_of fun s hs => ?_
  rw [hs.readLine_eq, hfound, hs.model]
  refine .bind_of_yields (Q := fun a t => a = found ∧ S.Holds L M t)
    (.pure fun _ ht => ⟨rfl, ht⟩) fun a => ?_
  refine .and_left fun ha => ?_
  subst ha
  unfold IsMute
  cases a with
  | set name value =>
    simp only [hs.definedSymbol?_eq, statement?, missingIn]
    cases hname : S.definedSymbol? name with
    | none => exact .of_yields (by simp) (noteMissing place name value)
    | some i =>
      have hi := mem_uniqueDefined hm hname
      simp only [bind_some, isNone_some, Bool.false_eq_true, if_false, append_nil]
      by_cases hlogical : (S.model.symbol i).kind.isLogical
      · simp only [hlogical, if_true]
        have hassign := assignLogical (L := L) (M := M) hm place hi hlogical (value.getD "")
        split
        · rename_i hletter
          rw [if_pos hletter] at hassign
          exact hassign.congr (by simp [hletter, hlogical])
        · rename_i hletter
          rw [if_neg hletter] at hassign
          exact hassign.congr (by simp [hletter])
      · have hassign : ∀ t, Yields (S.Holds L M) (Kconfig.assignFromFile place i t)
            fun _ => S.Holds (L.enter S.model (i, t)) M := by
          intro t
          rw [enter_eq_setSymbol fun h => absurd h hlogical]
          exact (assignFromFile hm place hi t).yields fun h => hlogical h.1
        simp only [if_neg hlogical]
        refine .ite (fun hstring => ?_) fun hother => ?_
        · simp only [if_pos hstring]
          cases Text.Quoted.literalBody? (value.getD "") with
          | none => exact .of_yields (by simp) (sessionWarn _ _)
          | some body => exact .of_yields (by simp [hlogical]) (hassign _)
        · simp only [if_neg hother]
          exact .of_yields (by simp [hlogical]) (hassign _)
  | unset name =>
    simp only [hs.definedSymbol?_eq, statement?, missingIn]
    cases hname : S.definedSymbol? name with
    | none => exact .of_yields (by simp) (noteMissing place name _)
    | some i =>
      have hassign := assignFromFile (L := L) (M := M) hm place (mem_uniqueDefined hm hname) "n"
      simp only [bind_some, isNone_some, Bool.false_eq_true, if_false, append_nil]
      refine .ite (fun hlogical => ?_) fun hother => ?_
      · simp only [if_pos hlogical, elim_some, enter_eq_setSymbol fun _ => rfl]
        exact hassign.congr (by simp)
      · simp only [if_neg hother]
        exact .of_yields (by simp) (.pure fun _ hs => hs)
  | other =>
    simp only [statement?, missingIn, append_nil]
    refine .of_yields (by simp) ?_
    exact .ite (fun _ => sessionWarn _ _) fun _ => .pure fun _ hs => hs

omit hm in
theorem isMute_next (h : ¬S.IsMute L found) (later : ConfigLine) :
    S.IsMute ((S.statement? found).elim L (L.enter S.model)) later ↔ S.IsMute L later := by
  refine exists_congr fun e => and_congr_right fun _ => and_congr_right fun hkind => ?_
  cases hstatement : S.statement? found with
  | none => rfl
  | some e' =>
    by_cases hsame : e.1 = e'.1
    · have hfull : ¬L.Hollow e.1 :=
        fun hhollow => h ⟨e', hstatement, hsame ▸ hkind, hsame ▸ hhollow⟩
      exact iff_of_false (fun hnext => hfull (Ledger.hollow_of_enter hnext)) hfull
    · exact Ledger.hollow_enter_of_ne hsame

theorem loadLines (path : String) {founds : List ConfigLine}
    (hfounds : lines.mapM (fun l => S.readLine (trimEnd l)) = .ok founds) (n : Nat) :
    YieldsUnless (∃ found ∈ founds, S.IsMute L found) .unknownName
      (S.Holds L M) (loadLines path n lines) fun _ =>
        S.Holds ((founds.filterMap S.statement?).foldl (enter S.model) L)
          (M ++ founds.flatMap S.missingIn) := by
  induction lines generalizing founds L M n with
  | nil =>
    cases hfounds
    exact .of_yields (by simp) (.pure fun _ hs => by simpa using hs)
  | cons l lines ih =>
    rw [mapM_cons] at hfounds
    cases hfound : S.readLine (trimEnd l) with
    | error f =>
      rw [hfound] at hfounds
      cases hfounds
    | ok found =>
      cases hrest : lines.mapM (fun l => S.readLine (trimEnd l)) with
      | error f =>
        rw [hfound, hrest] at hfounds
        cases hfounds
      | ok rest =>
        rw [hfound, hrest] at hfounds
        cases hfounds
        have hline := loadLine (L := L) (M := M) hm (path, n) hfound
        refine .bind (hline.imp (fun _ _ => And.imp_left ?_) fun _ _ => id) fun _ =>
          .and_left fun hmute => ?_
        · exact fun hmute => ⟨found, mem_cons_self, hmute⟩
        have hnext := ih (L := (S.statement? found).elim L (L.enter S.model))
          (M := M ++ S.missingIn found) hrest (n + 1)
        have hstatements : (filterMap S.statement? (found :: rest)).foldl
            (enter S.model) L = (rest.filterMap S.statement?).foldl
              (enter S.model) ((S.statement? found).elim L (L.enter S.model)) := by
          cases hstatement : S.statement? found with
          | none => rw [filterMap_cons_none hstatement, elim_none]
          | some e => rw [filterMap_cons_some hstatement, foldl_cons, elim_some]
        rw [hstatements, flatMap_cons, ← append_assoc]
        exact hnext.congr (by simp [isMute_next hmute, hmute])

theorem loadLines_error (path : String) {f : Fault}
    (hlines : lines.mapM (fun l => S.readLine (trimEnd l)) = .error f)
    (hL : ∀ found, ¬S.IsMute L found) (n : Nat) :
    Leads (fun e _ => e = f) (S.Holds L M) (Kconfig.loadLines path n lines) fun _ _ => False := by
  induction lines generalizing L M n with
  | nil => cases hlines
  | cons l lines ih =>
    rw [mapM_cons] at hlines
    cases hfound : S.readLine (trimEnd l) with
    | error f' =>
      rw [hfound] at hlines
      cases hlines
      refine .fails_bind (.get_bind_of fun s hs => ?_)
      rw [hs.readLine_eq, hfound]
      exact ⟨fun _ _ => rfl⟩
    | ok found =>
      have hrest : lines.mapM (fun l => S.readLine (trimEnd l)) = .error f := by
        cases hrest : lines.mapM (fun l => S.readLine (trimEnd l)) with
        | error f' =>
          rw [hfound, hrest] at hlines
          exact hlines
        | ok rest =>
          rw [hfound, hrest] at hlines
          cases hlines
      refine .bind_of_yields ((loadLine hm (path, n) hfound).yields (hL found)) fun _ => ?_
      exact ih hrest (fun later => mt (isMute_next (hL found) later).1 (hL later)) (n + 1)

end Session.Holds

/-! ## Whole files -/

def Session.opened (s : Session) (path : String) : Except Fault (String × ByteArray) :=
  let second := Path.join s.reading.srctree path
  match s.workspace.read path with
  | .ok bytes => .ok (path, bytes)
  | .error .nulInPath => .error (.file .nulInPath)
  | .error (.failed _ _) =>
    match s.workspace.read second with
    | .ok bytes => .ok (second, bytes)
    | .error .nulInPath => .error (.file .nulInPath)
    | .error (.failed cause failedPath) =>
      .error (.cannotOpenConfig path cause failedPath s.reading.srctree)

/-- What the lines of a file say; a file that cannot be decoded is at fault in the end. -/
def Session.linesIn (s : Session) (path : String) (bytes : ByteArray) :
    Except Fault (List ConfigLine) := do
  let decoded := decodeFile s.reading.encoding bytes
  let founds ← decoded.lines.mapM fun l => s.readLine (trimEnd l)
  match decoded.fault with
  | some f => throw (.malformedText f (.file path))
  | none => return founds

def Session.linesOf (s : Session) (path : String) : Except Fault (List ConfigLine) := do
  s.linesIn path (← s.opened path).2

variable {bytes : ByteArray} {path : String} {s : Session}

theorem Session.linesIn_eq_ok {founds : List ConfigLine} : s.linesIn path bytes = .ok founds ↔
      (decodeFile s.reading.encoding bytes).lines.mapM
          (fun l => s.readLine (trimEnd l)) = .ok founds ∧
        (decodeFile s.reading.encoding bytes).fault = none := by
  unfold linesIn
  dsimp only
  generalize mapM (fun l => s.readLine (trimEnd l)) _ = lines
  generalize (decodeFile s.reading.encoding bytes).fault = fault
  cases lines <;> cases fault <;> simp [bind, Except.bind, pure, Except.pure]

theorem Session.linesIn_eq_error {f : Fault} : s.linesIn path bytes = .error f ↔
      (decodeFile s.reading.encoding bytes).lines.mapM
          (fun l => s.readLine (trimEnd l)) = .error f ∨
        ∃ founds, (decodeFile s.reading.encoding bytes).lines.mapM
            (fun l => s.readLine (trimEnd l)) = .ok founds ∧
          ∃ g, (decodeFile s.reading.encoding bytes).fault = some g ∧
            f = .malformedText g (.file path) := by
  unfold linesIn
  dsimp only
  generalize mapM (fun l => s.readLine (trimEnd l)) _ = lines
  generalize (decodeFile s.reading.encoding bytes).fault = fault
  cases lines <;> cases fault <;>
    simp [bind, Except.bind, pure, Except.pure, throw, throwThe, MonadExceptOf.throw, eq_comm]

theorem runFrom_openConfig (s : Session) (path : String) :
    runFrom (openConfig path) s = (s.opened path, s) := by
  rw [Session.opened, openConfig, runFrom_bind_ok runFrom_get]
  dsimp only
  generalize s.workspace.read path = first
  generalize s.workspace.read (Path.join s.reading.srctree path) = second
  rcases first with ⟨⟨⟩ | _⟩ | _ <;> rcases second with ⟨⟨⟩ | _⟩ | _ <;> rfl

def Ledger.replacedBy (S : Session) (founds : List ConfigLine) (L : Ledger) : Ledger :=
  ((founds.filterMap S.statement?).foldl (enter S.model) (L.clear S.model)).unsetOthers
    S.model

namespace Session.Holds

variable {S s : Session} {L : Ledger} {M : List (Option String × Option String)} {path : String}

theorem opened_eq (h : S.Holds L M s) (path : String) : s.opened path = S.opened path :=
  eq_of_setting (f := (·.opened path)) h.setting

theorem openConfig {file : String × ByteArray} (h : S.opened path = .ok file) :
    Yields (S.Holds L M) (openConfig path) fun opened t => opened = file ∧ S.Holds L M t := by
  refine ⟨fun t ht => ?_⟩
  rw [runFrom_openConfig, ht.opened_eq, h]
  exact ⟨rfl, ht⟩

theorem clear :
    Yields (S.Holds L M)
      (modify fun s => { s with missing := [], values := s.values.clearWasSet s.model } :
        SessionM PUnit)
      fun _ => S.Holds (L.clear S.model) [] := by
  refine .modify fun s hs => ⟨⟨hs.setting, ?_⟩, ?_, rfl⟩
  · exact hs.model ▸ (Valid.kept s.model).clearWasSet (hs.model ▸ hs.values)
  · rw [ledger_clearWasSet, hs.ledger, hs.model]

theorem unsetOthers : Yields (S.Holds L M) (Kconfig.evaluating Kconfig.unsetOthers)
      fun _ => S.Holds (L.unsetOthers S.model) M :=
  evaluating (Valid.kept S.model).unsetOthers fun v _ hL => by
    obtain ⟨v', hrun, hledger⟩ := runOn_unsetOthers S.model v
    exact ⟨(), v', hrun, hL ▸ hledger⟩

/-- Loading a file that replaces what was assigned enters what its lines say. -/
theorem loadFrom (hm : S.model.Loaded) {founds : List ConfigLine}
    (hfounds : S.linesOf path = .ok founds) : Yields (S.Holds L M) (loadFrom path true)
      fun _ => S.Holds (L.replacedBy S founds) (founds.flatMap S.missingIn) := by
  obtain ⟨file, hopened, hlinesIn⟩ := bind_eq_ok.1 hfounds
  obtain ⟨hlines, hfault⟩ := linesIn_eq_ok.1 hlinesIn
  refine (openConfig hopened).bind fun opened => .and_left fun hfile => ?_
  subst hfile
  refine clear.bind fun _ => .get_bind_of fun t ht => ?_
  rw [ht.encoding_eq]
  refine ((loadLines hm path hlines 1).yields (not_exists_isMute_clear hm _)).bind fun _ => ?_
  simp only [hfault]
  exact unsetOthers

theorem loadFrom_error (hm : S.model.Loaded) {f : Fault} (hfault : S.linesOf path = .error f) :
    Leads (fun e _ => e = f) (S.Holds L M) (Kconfig.loadFrom path true) fun _ _ => False := by
  cases hopened : S.opened path with
  | error f' =>
    rw [linesOf, hopened] at hfault
    cases hfault
    refine .fails_bind ⟨fun t ht => ?_⟩
    rw [runFrom_openConfig, ht.opened_eq, hopened]
  | ok file =>
    have hlinesIn : S.linesIn path file.2 = .error f := by
      rw [linesOf, hopened] at hfault
      exact hfault
    refine .bind_of_yields (openConfig hopened) fun opened => .and_left fun hfile => ?_
    subst hfile
    refine .bind_of_yields clear fun _ => .get_bind_of fun t ht => ?_
    rw [ht.encoding_eq]
    obtain hlines | ⟨founds, hlines, g, hg, rfl⟩ := linesIn_eq_error.1 hlinesIn
    · exact (loadLines_error hm path hlines (not_isMute_clear hm) 1).fails_bind
    · refine .bind_of_yields ((loadLines hm path hlines 1).yields (not_exists_isMute_clear hm _)) ?_
      simp only [hg]
      exact fun _ => .throw fun _ _ => rfl

end Session.Holds

/-!
## What statements leave on record

Loading a file in a new session enters its statements into an empty record.  If the file speaks of
no symbol twice, each symbol then has the value that it was told, a choice has the mode of one of its
symbols that was told more than `n`, and its selection is a symbol that was told `y`.
-/

namespace Ledger

variable {m : Model} {L : Ledger} {es : List (SymbolId × String)} {i j : SymbolId} {c : ChoiceId}
  {t : String}

/-! ## One statement -/

/-- Whether each choice counts as set exactly if it has a mode or a selection. -/
def ChoicesBacked (L : Ledger) : Prop :=
  ∀ c, L.choiceSet c = ((L.mode c).isSome || (L.selection c).isSome)

theorem choicesBacked_enter (h : L.ChoicesBacked) (i : SymbolId) (t : String) :
    (L.enter m (i, t)).ChoicesBacked := by
  intro c
  have hbacked := h c
  rw [enter_eq]
  grind

/-! ## All statements -/

/-- What is on record once statements have been entered into an empty record, no two of them about
one symbol. -/
structure Reflects (m : Model) (es : List (SymbolId × String)) (L : Ledger) : Prop where
  told : ∀ i t, (i, t) ∈ es →
    L.user i = (m.symbol i).accepts t ∧ L.isSet i = ((m.symbol i).accepts t).isSome
  untold : ∀ i, (∀ t, (i, t) ∉ es) → L.user i = none ∧ L.isSet i = false
  mode_of : ∀ c x, L.mode c = some x →
    ∃ i t, (i, t) ∈ es ∧ followedBy m i t = some c ∧ (m.choice c).accepts t = some x
  mode_some : ∀ i t c x, (i, t) ∈ es → followedBy m i t = some c →
    (m.choice c).accepts t = some x → (L.mode c).isSome
  selection_of : ∀ c i, L.selection c = some i →
    ∃ t, (i, t) ∈ es ∧ (m.symbol i).choice = some c ∧
      (m.symbol i).accepts t = some (.tristate .yes)
  selection_some : ∀ i t c, (i, t) ∈ es → (m.symbol i).choice = some c →
    (m.symbol i).accepts t = some (.tristate .yes) → (L.selection c).isSome
  backed : L.ChoicesBacked

namespace Reflects

theorem nil (huser : ∀ i, L.user i = none ∧ L.isSet i = false)
    (hchoice : ∀ c, L.mode c = none ∧ L.selection c = none ∧ L.choiceSet c = false) :
    Reflects m [] L where
  told _ _ h := nomatch h
  untold i _ := huser i
  mode_of c x h := by
    rw [(hchoice c).1] at h
    cases h
  mode_some _ _ _ _ h := nomatch h
  selection_of c i h := by
    rw [(hchoice c).2.1] at h
    cases h
  selection_some _ _ _ h := nomatch h
  backed c := by
    rw [(hchoice c).1, (hchoice c).2.1, (hchoice c).2.2]
    rfl

theorem mode_of_not_logical (h : Reflects m es L) (hl : ¬(m.choice c).kind.isLogical) :
    L.mode c = none := by
  cases hmode : L.mode c with
  | none => rfl
  | some x =>
    obtain ⟨i, t, -, -, haccepts⟩ := h.mode_of c x hmode
    simp [Choice.accepts, hl] at haccepts

theorem enter (h : Reflects m es L) (hi : ∀ t, (i, t) ∉ es) (t : String) :
    Reflects m (es ++ [(i, t)]) (L.enter m (i, t)) where
  told j t' hj := by
    rw [enter_eq]
    rcases mem_append.1 hj with hj | hj
    · have hne : j ≠ i := fun hji => hi t' (hji ▸ hj)
      simpa [hne] using h.told j t' hj
    · cases mem_singleton.1 hj
      simp [h.untold i hi]
  untold j hj := by
    have hne : j ≠ i := by
      rintro rfl
      exact hj t (by simp)
    rw [enter_eq]
    simpa [hne] using h.untold j fun t' ht' => hj t' (mem_append_left _ ht')
  mode_of c x hx := by
    rw [enter_eq] at hx
    dsimp only at hx
    have hbefore : L.mode c = some x → ∃ j t', (j, t') ∈ es ++ [(i, t)] ∧
        followedBy m j t' = some c ∧ (m.choice c).accepts t' = some x := by
      intro hx
      obtain ⟨j, t', hj, hrest⟩ := h.mode_of c x hx
      exact ⟨j, t', mem_append_left _ hj, hrest⟩
    by_cases hfollowed : followedBy m i t = some c
    · rw [if_pos hfollowed] at hx
      cases haccepts : (m.choice c).accepts t with
      | none =>
        rw [haccepts] at hx
        exact hbefore hx
      | some y =>
        rw [haccepts] at hx
        exact ⟨i, t, by simp, hfollowed, haccepts.trans hx⟩
    · rw [if_neg hfollowed] at hx
      exact hbefore hx
  mode_some j t' c x hj hfollowed haccepts := by
    rw [enter_eq]
    dsimp only
    rcases mem_append.1 hj with hj | hj
    · have hsome := h.mode_some j t' c x hj hfollowed haccepts
      split
      · cases (m.choice c).accepts t <;> simp [hsome]
      · exact hsome
    · cases mem_singleton.1 hj
      rw [if_pos hfollowed, haccepts]
      rfl
  selection_of c j hj := by
    rw [enter_eq] at hj
    dsimp only at hj
    split at hj
    · rename_i hnew
      cases hj
      exact ⟨t, by simp, hnew⟩
    · obtain ⟨t', ht', hrest⟩ := h.selection_of c j hj
      exact ⟨t', mem_append_left _ ht', hrest⟩
  selection_some j t' c hj hc hyes := by
    rw [enter_eq]
    dsimp only
    rcases mem_append.1 hj with hj | hj
    · split
      · rfl
      · exact h.selection_some j t' c hj hc hyes
    · cases mem_singleton.1 hj
      rw [if_pos ⟨hc, hyes⟩]
      rfl
  backed := choicesBacked_enter h.backed _ _

theorem foldl_enter (h : Reflects m es L) {es' : List (SymbolId × String)}
    (hes : ((es ++ es').map Prod.fst).Nodup) :
    Reflects m (es ++ es') (es'.foldl (Ledger.enter m) L) := by
  induction es' generalizing es L with
  | nil => simpa using h
  | cons e es' ih =>
    have hsplit : es ++ e :: es' = (es ++ [e]) ++ es' := by simp
    rw [hsplit] at hes ⊢
    refine ih (h.enter (i := e.1) (t := e.2) fun t ht => ?_) hes
    rw [map_append, map_append] at hes
    have hnew := (nodup_append.1 (nodup_append.1 hes).1).2.2
    exact hnew e.1 (mem_map.2 ⟨_, ht, rfl⟩) e.1 (by simp) rfl

theorem unsetOthers_eq (h : Reflects m es L) : L.unsetOthers m = L := by
  have huser : ∀ i, L.isSet i = false → L.user i = none := by
    intro i hset
    by_cases hi : ∃ t, (i, t) ∈ es
    · obtain ⟨t, ht⟩ := hi
      obtain ⟨huser, hsome⟩ := h.told i t ht
      rw [hsome] at hset
      rw [huser]
      simpa using hset
    · exact (h.untold i fun t ht => hi ⟨t, ht⟩).1
  have hchoice : ∀ c, L.choiceSet c = false → L.mode c = none ∧ L.selection c = none := by
    intro c hset
    rw [h.backed c] at hset
    simpa using hset
  ext1
  · exact funext fun i => ite_eq_right_iff.2 fun hset => (huser i hset.2).symm
  · rfl
  · exact funext fun c => ite_eq_right_iff.2 fun hset => (hchoice c hset.2).1.symm
  · exact funext fun c => ite_eq_right_iff.2 fun hset => (hchoice c hset.2).2.symm
  · rfl

end Reflects

theorem reflects_replacedBy {S : Session} (hvalues : S.values = .initial S.model)
    (hsize : SymbolId.yes < S.model.symbols.size) {founds : List ConfigLine}
    (hnodup : ((founds.filterMap S.statement?).map Prod.fst).Nodup) :
    Reflects S.model (founds.filterMap S.statement?) (S.values.ledger.replacedBy S founds) := by
  have hstart : Reflects S.model [] (S.values.ledger.clear S.model) := by
    refine .nil (fun i => ?_) fun c => ?_
    · simp [hvalues, Ledger.clear, Values.ledger, Values.symbol_initial hsize]
    · simp [hvalues, Ledger.clear, Values.ledger, Values.choice_initial]
  have hentered : Reflects S.model ([] ++ founds.filterMap S.statement?) _ :=
    hstart.foldl_enter (by simpa using hnodup)
  rw [replacedBy, hentered.unsetOthers_eq]
  exact hentered

end Ledger

end Buildsmith.Kconfig
