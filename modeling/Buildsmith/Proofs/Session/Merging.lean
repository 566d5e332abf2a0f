import Buildsmith.Proofs.Session.Replacing

/-!
# Merging files

A file that is merged adds to what was assigned before.  A symbol that it sets again is reported with
its old value, which is there unless the symbol is hollow: it counts as set but has no value.

Symbols get hollow only if their values are taken back or nothing is offered to them
(`exists_empties_of_hollow`).  Merging a file fails just if the file sets a truth value to a symbol
that is hollow (`merge_after`).
-/

namespace Buildsmith.Kconfig

open Values Session Text

/-- Whether an action takes back the value of a symbol or offers it nothing. -/
def Action.Empties (i : SymbolId) : Action → Prop
  | setSymbol _ j o => j = i ∧ o = .nothing
  | unsetSymbol _ j => j = i
  | unsetAll => True
  | _ => False

namespace Values

variable {m : Model} {v v' : Values} {i j : SymbolId}

def Hollow (v : Values) (i : SymbolId) : Prop := v.ledger.Hollow i

theorem hollow_congr (h : SameLedger v v') : v'.Hollow i ↔ v.Hollow i := by
  unfold Hollow
  rw [h.ledger]

theorem hollow_modifyChoice (c : ChoiceId) (f : ChoiceState → ChoiceState) :
    (v.modifyChoice c f).Hollow i ↔ v.Hollow i := Iff.rfl

theorem hollow_of_modifySymbol {f : SymbolState → SymbolState}
    (hf : j = i → (f (v.symbol i)).user = none → (f (v.symbol i)).wasSet → v.Hollow i)
    (h : (v.modifySymbol j f).Hollow i) : v.Hollow i := by
  obtain ⟨hset, huser⟩ := h
  simp only [ledger, symbol_modifySymbol] at hset huser
  split at hset
  · rename_i hj
    rw [if_pos hj] at huser
    obtain ⟨rfl, -⟩ := hj
    exact hf rfl huser hset
  · rename_i hj
    rw [if_neg hj] at huser
    exact ⟨hset, huser⟩

end Values

section Steps

variable {m : Model} {v : Values} {i : SymbolId}

theorem hollow_of_setSymbol {warns : Bool} {j : SymbolId} {o : Offer} (ho : ¬(j = i ∧ o = .nothing))
    (h : ((setSymbol warns j o).runOn m v).2.Hollow i) : v.Hollow i := by
  obtain ⟨b, v', hrun, o', ho', hcases⟩ := setSymbol_cases (m := m) warns j o v
  rw [hrun] at h
  obtain ⟨hsame, -, rfl⟩ | ⟨-, hsame⟩ | ⟨x, -, hsame⟩ := hcases
  · refine hollow_of_modifySymbol (fun hj huser _ => absurd ⟨hj, ?_⟩ ho) h
    -- only nothing is the same as no value
    subst hj
    have huser' : (v.symbol j).user = none := huser
    rw [huser'] at hsame
    cases o with
    | nothing => rfl
    | number n =>
      have hnumber : o' = .number n := ho'.trans (ite_self _)
      rw [hnumber] at hsame
      cases hsame
    | text t =>
      rw [ho'] at hsame
      unfold Offer.ranked at hsame
      grind [Offer.isSame]
  · exact (hollow_congr hsame).1 h
  · have hput := (hollow_congr hsame).1 h
    have hsymbol : (v.modifySymbol j fun y => { y with user := some x, wasSet := true }).Hollow i := by
      unfold put at hput
      split at hput
      · exact hput
      · exact hput
    refine hollow_of_modifySymbol (fun _ huser _ => ?_) hsymbol
    cases huser

theorem hollow_setChoice (c : ChoiceId) (o : Offer) :
    ((setChoice c o).runOn m v).2.Hollow i ↔ v.Hollow i := by
  obtain ⟨b, v', hrun, a, -, hcases⟩ := setChoice_cases (m := m) c o v
  rw [hrun]
  obtain ⟨-, rfl⟩ | ⟨-, hsame⟩ | ⟨t, -, hsame⟩ := hcases
  · exact hollow_modifyChoice c _
  · exact hollow_congr hsame
  · exact (hollow_congr hsame).trans (hollow_modifyChoice c _)

theorem hollow_unsetChoice (c : ChoiceId) :
    ((unsetChoice c).runOn m v).2.Hollow i ↔ v.Hollow i := by
  obtain ⟨v', hrun, hsame⟩ := unsetChoice_cases (m := m) c v
  rw [hrun]
  exact (hollow_congr hsame).trans (hollow_modifyChoice c _)

theorem hollow_of_unsetSymbol {warns : Bool} {j : SymbolId} (hj : j ≠ i)
    (h : ((unsetSymbol warns j).runOn m v).2.Hollow i) : v.Hollow i := by
  obtain ⟨v', hrun, hsame⟩ := unsetSymbol_cases (m := m) warns j v
  rw [hrun] at h
  exact hollow_of_modifySymbol (fun hji => absurd hji hj) ((hollow_congr hsame).1 h)

theorem SameLedger.remember (v : Values) (w : Option Bool) (q : Query) (a : q.Answer) :
    SameLedger v (v.remember w q a) := by
  cases q with
  | mode c => exact refl v
  | choiceVisibility c | selection c | choiceAssignable c =>
    exact modifyChoice v c fun _ => ⟨rfl, rfl, rfl⟩
  | _ i => exact modifySymbol v i fun _ => ⟨rfl, rfl⟩

theorem notHollow_keptByLoading (hi : i ∈ m.uniqueDefined) :
    KeptByLoading m fun v => ¬v.Hollow i where
  warned v ws h := h
  answerTo q v h := by
    rw [runOn_answerTo]
    refine Kept.answerWithin (P := fun v => ¬v.Hollow i) (fun _ _ h => h)
      (fun v w q a h => ?_) _ q v h
    exact mt (hollow_congr (SameLedger.remember v w q a)).1 h
  setSymbol j t v h := by
    have htext : ¬(j = i ∧ Offer.text t = .nothing) := by simp
    exact fun h' => h (hollow_of_setSymbol htext h')
  setChoice c t v h := mt (hollow_setChoice c (.text t)).1 h
  clearWasSet v _ := by
    unfold Values.Hollow
    rw [ledger_clearWasSet]
    exact Ledger.not_hollow_clear _ hi
  unsetOthers v h := by
    obtain ⟨v', hrun, hledger⟩ := runOn_unsetOthers m v
    unfold Values.Hollow
    rw [hrun, hledger]
    rintro ⟨hset, huser⟩
    refine h ⟨hset, ?_⟩
    have hset' : v.ledger.isSet i := hset
    simpa [Ledger.unsetOthers, hset'] using huser

end Steps

/-! ## Histories -/

variable {S : Session} {i : SymbolId}

theorem notHollow_run (hi : i ∈ S.model.uniqueDefined) {a : Action} (ha : ¬a.Empties i) :
    Preserves (Session.Over S fun v => ¬v.Hollow i) a.run := by
  have hkept := notHollow_keptByLoading hi
  cases a <;> rw [Action.run]
  case setSymbol warns j o =>
    exact (hkept.evaluating fun _ h h' => h (hollow_of_setSymbol ha h')).discard
  case unsetSymbol warns j =>
    exact hkept.evaluating fun _ h h' => h (hollow_of_unsetSymbol ha h')
  case setChoice c o => exact (hkept.evaluating fun _ => mt (hollow_setChoice c o).1).discard
  case unsetChoice c => exact hkept.evaluating fun _ => mt (hollow_unsetChoice c).1
  case unsetAll => exact absurd trivial ha
  case load path replaces => exact (hkept.loadConfig path replaces).discard
  case read x => exact (hkept.read x).discard

section Sessions

variable {w : Workspace} {o : LoadOptions} {s : Session} {r : Reading}

/-- A symbol that is hollow has been so since an action that emptied it. -/
theorem exists_empties_of_hollow
    (hopen : openSession w o = (.ok s, r)) (hi : i ∈ s.model.uniqueDefined) (actions : List Action)
    (h : (s.after actions).values.Hollow i) :
    ∃ before a later, actions = before ++ a :: later ∧ a.Empties i ∧
      ¬(s.after before).values.Hollow i ∧
      ∀ later', later' <+: later → (s.after (before ++ a :: later')).values.Hollow i := by
  induction actions using List.reverseRecOn with
  | nil =>
    obtain ⟨hloaded, hvalues⟩ := loaded_of_openSession hopen
    obtain ⟨hset, -⟩ := h
    have hstart : s.after [] = s := rfl
    rw [hstart, hvalues] at hset
    simp [ledger, symbol_initial hloaded.wellFormed.lt_size] at hset
  | append_singleton actions a ih =>
    by_cases hbefore : (s.after actions).values.Hollow i
    · obtain ⟨before, a', later, rfl, ha', hfirst, hsince⟩ := ih hbefore
      refine ⟨before, a', later ++ [a], by simp, ha', hfirst, fun later' hlater' => ?_⟩
      obtain rfl | hearlier := List.prefix_concat_iff.1 hlater'
      · simpa using h
      · exact hsince later' hearlier
    · refine ⟨actions, a, [], rfl, ?_, hbefore, fun later' hlater' => ?_⟩
      · by_contra ha
        have hover : s.Over (fun v => ¬v.Hollow i) (s.after actions) :=
          ⟨(valid_after hopen actions).setting, hbefore⟩
        have hnext := (preserves_iff.1 (notHollow_run hi ha) _ hover).values
        rw [← after_append] at hnext
        exact hnext h
      · rw [List.prefix_nil.1 hlater']
        exact h

/-! ## Merging -/

/-- Whether a line of a file sets a symbol. -/
def Session.SetsIn (s : Session) (bytes : ByteArray) (i : SymbolId) : Prop :=
  ∃ l ∈ (decodeFile s.reading.encoding bytes).lines, ∃ found t,
    s.readLine (trimEnd l) = .ok found ∧ s.statement? found = some (i, t)

theorem Session.exists_readLine (hlead : s.setPattern.groupCount = 2) (line : String) :
    ∃ found, s.readLine line = .ok found := by
  unfold readLine
  simp only [hlead]
  split
  · exact ⟨_, rfl⟩
  · split
    · exact ⟨_, rfl⟩
    · exact ⟨_, rfl⟩

theorem Session.exists_mapM_readLine
    (hread : ∀ line, ∃ found, s.readLine line = .ok found) (lines : List String) :
    ∃ founds, lines.mapM (fun l => s.readLine (trimEnd l)) = .ok founds ∧
      ∀ found, found ∈ founds ↔ ∃ l ∈ lines, s.readLine (trimEnd l) = .ok found := by
  choose found hfound using hread
  refine ⟨lines.map fun l => found (trimEnd l), mapM_eq_ok.2 ?_, fun c => ?_⟩
  · simp [hfound]
  · simp [hfound]

theorem Session.Holds.mergeFrom
    (hm : S.model.Loaded) {L : Ledger} {M : List (Option String × Option String)} {path : String}
    {founds : List ConfigLine} (hfounds : S.linesOf path = .ok founds) :
    YieldsUnless (∃ found ∈ founds, S.IsMute L found) .unknownName (S.Holds L M)
      (Kconfig.loadFrom path false) fun _ =>
        S.Holds ((founds.filterMap S.statement?).foldl (Ledger.enter S.model) L)
          (M ++ founds.flatMap S.missingIn) := by
  obtain ⟨file, hopened, hlinesIn⟩ := bind_eq_ok.1 hfounds
  obtain ⟨hlines, hfault⟩ := linesIn_eq_ok.1 hlinesIn
  refine .bind_of_yields (openConfig hopened) fun opened => .and_left fun hfile => ?_
  subst hfile
  refine .get_bind_of fun t ht => ?_
  rw [ht.encoding_eq]
  refine .bind (loadLines hm path hlines 1) fun _ => ?_
  simp only [hfault]
  exact .pure fun _ hs => hs

/-- Merging a file that can be opened and decoded fails just if the file sets a truth value to a
symbol that counts as set but has no value.  Such a symbol has been so since an action that took its
value back or offered it nothing. -/
theorem merge_after (hopen : openSession w o = (.ok s, r)) (hlead : s.setPattern.groupCount = 2)
    (actions : List Action) {path : String} {file : String × ByteArray}
    (hfile : s.opened path = .ok file)
    (hdecodes : (decodeFile s.reading.encoding file.2).fault = none) :
    (∀ i ∈ s.model.uniqueDefined, (s.after actions).values.Hollow i →
      ∃ before a later, actions = before ++ a :: later ∧ a.Empties i ∧
        ¬(s.after before).values.Hollow i ∧
        ∀ later', later' <+: later → (s.after (before ++ a :: later')).values.Hollow i) ∧
    ((∀ i, s.SetsIn file.2 i → (s.model.symbol i).kind.isLogical = true →
        ¬(s.after actions).values.Hollow i) →
      (runFrom (loadConfig (some path) false) (s.after actions)).1 =
        .ok ("Merged configuration '" ++ path ++ "'")) ∧
    ((∃ i, s.SetsIn file.2 i ∧ (s.model.symbol i).kind.isLogical = true ∧
        (s.after actions).values.Hollow i) →
      (runFrom (loadConfig (some path) false) (s.after actions)).1 = .error .unknownName) := by
  obtain ⟨hloaded, -⟩ := loaded_of_openSession hopen
  obtain ⟨founds, hfounds, hmem⟩ := exists_mapM_readLine (exists_readLine hlead)
    (decodeFile s.reading.encoding file.2).lines
  have hlines : s.linesOf path = .ok founds := by
    rw [linesOf, hfile]
    exact linesIn_eq_ok.2 ⟨hfounds, hdecodes⟩
  have hmute : (∃ found ∈ founds, s.IsMute (s.after actions).values.ledger found) ↔
      ∃ i, s.SetsIn file.2 i ∧ (s.model.symbol i).kind.isLogical = true ∧
        (s.after actions).values.Hollow i := by
    constructor
    · rintro ⟨found, hfound, ⟨i, t⟩, hstatement, hkind, hhollow⟩
      obtain ⟨l, hl, hread⟩ := (hmem found).1 hfound
      exact ⟨i, ⟨l, hl, found, t, hread, hstatement⟩, hkind, hhollow⟩
    · rintro ⟨i, ⟨l, hl, found, t, hread, hstatement⟩, hkind, hhollow⟩
      exact ⟨found, (hmem found).2 ⟨l, hl, hread⟩, (i, t), hstatement, hkind, hhollow⟩
  have hs : s.Holds _ _ (s.after actions) := ⟨valid_after hopen actions, rfl, rfl⟩
  have hmerge := Session.Holds.mergeFrom (L := (s.after actions).values.ledger)
    (M := (s.after actions).missing) hloaded hlines
  refine ⟨fun i hi => exists_empties_of_hollow hopen hi actions, fun hfull => ?_, fun hhollow => ?_⟩
  · have hnone : ¬∃ found ∈ founds, s.IsMute (s.after actions).values.ledger found := by
      rw [hmute]
      rintro ⟨i, hset, hkind, hhollow⟩
      exact hfull i hset hkind hhollow
    obtain ⟨_, s', hrun, -⟩ := (hmerge.yields hnone).result hs
    rw [runFrom_loadConfig_some, runFrom_bind_ok hrun]
    rfl
  · rw [runFrom_loadConfig_some]
    exact (hmerge.fails (hmute.2 hhollow)).fails_bind.eq_error hs

end Sessions

/-- A symbol that is `n` or `y`, and a file that sets it. -/
def mergingWorkspace : Workspace :=
  { files := { entries := [(["Kconfig"], .file "config A\n\tbool \"a\"\n".toUTF8),
      (["f"], .file "CONFIG_A=y\n".toUTF8)] } }

/-- The symbol gets a value, which is taken back. -/
def setAndUnset : List Action := [.setSymbol true 4 (.number 2), .unsetSymbol true 4]

/-- After the symbol is set the file can be merged, but not once its value is taken back. -/
theorem merge_after_unset :
    ∃ s r, openSession mergingWorkspace {} = (.ok s, r) ∧
      (runFrom (loadConfig (some "f") false) (s.after [.setSymbol true 4 (.number 2)])).1 =
        .ok "Merged configuration 'f'" ∧
      (runFrom (loadConfig (some "f") false) (s.after setAndUnset)).1 = .error .unknownName := by
  obtain ⟨s, r, hopen, hrun⟩ := exists_of_opensTo mergingWorkspace (fun s =>
      (s.opened "f").toOption.any fun file =>
        decide (s.setPattern.groupCount = 2) &&
        (decodeFile s.reading.encoding file.2).fault.isNone &&
        ((decodeFile s.reading.encoding file.2).lines.any fun l =>
          (s.readLine (trimEnd l)).toOption.any (s.statement? · == some (4, "y"))) &&
        (s.model.symbol 4).kind.isLogical &&
        ((s.after setAndUnset).values.symbol 4).wasSet &&
        ((s.after setAndUnset).values.symbol 4).user.isNone)
    (by decide +kernel)
  obtain ⟨file, hfile, hrun⟩ := (Option.any_eq_true _ _).1 hrun
  have hfile := eq_ok_of_toOption hfile
  simp only [Bool.and_eq_true, decide_eq_true_eq, Option.isNone_iff_eq_none] at hrun
  obtain ⟨⟨⟨⟨⟨hlead, hdecodes⟩, hset⟩, hkind⟩, hwasSet⟩, huser⟩ := hrun
  have hsets : s.SetsIn file.2 4 := by
    obtain ⟨l, hl, hline⟩ := List.any_eq_true.1 hset
    obtain ⟨found, hread, hfound⟩ := (Option.any_eq_true _ _).1 hline
    exact ⟨l, hl, found, "y", eq_ok_of_toOption hread, beq_iff_eq.1 hfound⟩
  obtain ⟨honly, hfull, -⟩ := merge_after hopen hlead [.setSymbol true 4 (.number 2)] hfile
    hdecodes
  obtain ⟨-, -, hhollow⟩ := merge_after hopen hlead setAndUnset hfile hdecodes
  refine ⟨s, r, hopen, hfull fun i hi _ hempty => ?_, hhollow ⟨4, hsets, hkind, hwasSet, huser⟩⟩
  obtain ⟨l, hl, found, t, hread, hstatement⟩ := hi
  have hdefined := Session.Holds.statement?_mem (loaded_of_openSession hopen).1 hstatement
  obtain ⟨before, a, later, hactions, ha, -⟩ := honly i hdefined hempty
  have hmem : a ∈ [Action.setSymbol true 4 (.number 2)] := by
    rw [hactions]
    simp
  rw [List.mem_singleton.1 hmem] at ha
  exact Offer.noConfusion ha.2

/-!
## Files with the same lines

Statements that speak of different symbols can be entered into a record in any order, if those about
the symbols of one choice agree on its mode and at most one of them is `y` (`Unambiguous.enter_comm`).  So
two files with the same lines leave the same record, whether they replace what was assigned or are
merged into it (`reordered_load`).
-/

namespace Ledger

variable {m : Model} {L : Ledger} {es es' : List (SymbolId × String)}

/-- Statements about different symbols; those about symbols of one choice agree on its mode, and at
most one of them is `y`. -/
structure Unambiguous (m : Model) (es : List (SymbolId × String)) : Prop where
  nodup : (es.map Prod.fst).Nodup
  modes : ∀ c, ∀ e ∈ es, ∀ e' ∈ es, followedBy m e.1 e.2 = some c → followedBy m e'.1 e'.2 = some c →
    e.2 = e'.2
  selections : ∀ c, ∀ e ∈ es, ∀ e' ∈ es, followedBy m e.1 e.2 = some c →
    followedBy m e'.1 e'.2 = some c → e.2 = "y" → e'.2 = "y" → e.1 = e'.1

/-- Two such statements can be entered in either order. -/
theorem Unambiguous.enter_comm (h : Unambiguous m es) {e e' : SymbolId × String} (he : e ∈ es)
    (he' : e' ∈ es) (L : Ledger) : (L.enter m e).enter m e' = (L.enter m e').enter m e := by
  obtain ⟨i, t⟩ := e
  obtain ⟨j, t'⟩ := e'
  by_cases hij : i = j
  · have hsame := List.inj_on_of_nodup_map h.nodup he he' hij
    cases hsame
    rfl
  have hfollows : ∀ (k : SymbolId) (t : String) (c : ChoiceId), (m.symbol k).choice = some c →
      (m.symbol k).accepts t = some (.tristate .yes) → t = "y" ∧ followedBy m k t = some c := by
    intro k t c hc hyes
    obtain ⟨hlogical, rfl⟩ := Symbol.eq_yes_of_accepts hyes
    exact ⟨rfl, by simp [followedBy, hlogical, hc]⟩
  have hmodes : ∀ c, followedBy m i t = some c → followedBy m j t' = some c → t = t' :=
    fun c => h.modes c _ he _ he'
  have hselections : ∀ c, followedBy m i t = some c → followedBy m j t' = some c → t = "y" →
      t' = "y" → False := fun c hi hj hy hy' => hij (h.selections c _ he _ he' hi hj hy hy')
  simp only [enter_eq]
  ext k <;> grind

theorem Unambiguous.foldl_enter (h : Unambiguous m es) (hperm : es.Perm es') (L : Ledger) :
    es.foldl (enter m) L = es'.foldl (enter m) L :=
  hperm.foldl_eq' (fun _ he _ he' L => h.enter_comm he he' L) L

/-- The record after a file has replaced what was assigned, or has been merged into it. -/
def loadedFrom (S : Session) (replaces : Bool) (founds : List ConfigLine) (L : Ledger) : Ledger :=
  if replaces then L.replacedBy S founds
  else (founds.filterMap S.statement?).foldl (enter S.model) L

theorem loadedFrom_perm {S : Session} {founds founds' : List ConfigLine}
    (h : Unambiguous S.model (founds.filterMap S.statement?)) (hperm : founds.Perm founds')
    (replaces : Bool) (L : Ledger) :
    L.loadedFrom S replaces founds = L.loadedFrom S replaces founds' := by
  have hstatements := hperm.filterMap S.statement?
  cases replaces with
  | true => exact congrArg (unsetOthers S.model) (h.foldl_enter hstatements _)
  | false => exact h.foldl_enter hstatements L

end Ledger

theorem mapM_perm {α β : Type} {f : α → Except Fault β} {xs xs' : List α} {ys ys' : List β}
    (hperm : xs.Perm xs') (h : xs.mapM f = .ok ys) (h' : xs'.mapM f = .ok ys') : ys.Perm ys' := by
  have hinj : Function.Injective (Except.ok : β → Except Fault β) := fun _ _ => Except.ok.inj
  rw [← List.map_perm_map_iff hinj, ← mapM_eq_ok.1 h, ← mapM_eq_ok.1 h']
  exact hperm.map f

section Sessions

variable {w : Workspace} {o : LoadOptions} {s t t' : Session} {r : Reading}
  (hopen : openSession w o = (.ok s, r)) (actions : List Action)

include hopen

theorem ledger_of_load {replaces : Bool} {path message : String} {founds : List ConfigLine}
    (hfounds : s.linesOf path = .ok founds)
    (hrun : runFrom (loadConfig (some path) replaces) (s.after actions) = (.ok message, t)) :
    t = s.after (actions ++ [.load (some path) replaces]) ∧
      t.values.ledger = (s.after actions).values.ledger.loadedFrom s replaces founds := by
  obtain ⟨hloaded, -⟩ := loaded_of_openSession hopen
  have hafter : t = s.after (actions ++ [.load (some path) replaces]) := by
    rw [after_append, Action.run, runFrom_discard_snd, hrun]
  refine ⟨hafter, ?_⟩
  cases replaces with
  | true =>
    rw [hafter]
    exact (holds_loadedAfter hopen actions hfounds).ledger
  | false =>
    have hs : s.Holds _ _ (s.after actions) := ⟨valid_after hopen actions, rfl, rfl⟩
    have hmerge := Session.Holds.mergeFrom (L := (s.after actions).values.ledger)
      (M := (s.after actions).missing) hloaded hfounds
    rw [runFrom_loadConfig_some, runFrom_bind_eq_ok] at hrun
    obtain ⟨_, t₀, hrun, hdone⟩ := hrun
    cases hdone
    exact (Leads.apply hmerge hs hrun).2.ledger

omit hopen in
theorem Session.Reads.means {S : Session} (h : S.Over (Sound S.model) t) {q : Query} {a : q.Answer}
    (ha : t.Reads q a) : ∃ K u, S.model.Means t.values.assigned K q a u := by
  obtain ⟨x, v, hrun, -, hfound⟩ := answers_answerWithin S.model.readDepth q t.values h.values.coherent
  rw [Session.Reads, Observation.read, runFrom_evaluating, h.model, runOn_answerTo, hrun] at ha
  obtain ⟨u, hu⟩ := (hfound a ha).means
  exact ⟨_, u, hu⟩

/-- Two files with the same lines, loaded in the same state, leave the same values, modes and
selections of users, whether they replace what was assigned or are merged into it.  With sane choices
everything has the same value after both. -/
theorem reordered_load {replaces : Bool} {path path' message message' : String}
    {file file' : String × ByteArray} {founds founds' : List ConfigLine}
    (hfile : s.opened path = .ok file) (hfile' : s.opened path' = .ok file')
    (hlines : s.linesOf path = .ok founds) (hlines' : s.linesOf path' = .ok founds')
    (hperm : (decodeFile s.reading.encoding file.2).lines.Perm
      (decodeFile s.reading.encoding file'.2).lines)
    (hclear : Ledger.Unambiguous s.model (founds.filterMap s.statement?))
    (hrun : runFrom (loadConfig (some path) replaces) (s.after actions) = (.ok message, t))
    (hrun' : runFrom (loadConfig (some path') replaces) (s.after actions) = (.ok message', t')) :
    t.values.assigned = t'.values.assigned ∧
      (s.model.ChoicesSane → ∀ (q : Query) (a : q.Answer),
        (t.cleared.Reads q a → t.Reads q a ∧ t'.Reads q a) ∧
        (t.Reads q a → ∀ b, t'.Reads q b → a = b)) := by
  have hfounds : founds.Perm founds' := by
    obtain ⟨_, hopened, hin⟩ := bind_eq_ok.1 hlines
    obtain ⟨_, hopened', hin'⟩ := bind_eq_ok.1 hlines'
    cases hfile.symm.trans hopened
    cases hfile'.symm.trans hopened'
    exact mapM_perm hperm (linesIn_eq_ok.1 hin).1 (linesIn_eq_ok.1 hin').1
  obtain ⟨hafter, hledger⟩ := ledger_of_load hopen actions hlines hrun
  obtain ⟨hafter', hledger'⟩ := ledger_of_load hopen actions hlines' hrun'
  have hassigned : t.values.assigned = t'.values.assigned := by
    refine assigned_eq_of_ledger ?_
    rw [hledger, hledger', Ledger.loadedFrom_perm hclear hfounds]
  refine ⟨hassigned, fun hsane q a => ?_⟩
  have hsound : s.Over (Sound s.model) t := hafter ▸ sound_after hopen hsane _
  have hsound' : s.Over (Sound s.model) t' := hafter' ▸ sound_after hopen hsane _
  constructor
  · intro hread
    have houtcome := (reads_cleared_iff hsound).1 hread
    exact ⟨reads_of_outcome hsound houtcome, reads_of_outcome hsound' (hassigned ▸ houtcome)⟩
  · intro ha b hb
    obtain ⟨_, _, hmeans⟩ := ha.means hsound
    obtain ⟨_, _, hmeans'⟩ := hb.means hsound'
    rw [← hassigned] at hmeans'
    exact (hmeans.unique hmeans').1

end Sessions

/-- A choice between two symbols, and two files with the same lines. -/
def swappedWorkspace : Workspace :=
  { files := { entries := [(["Kconfig"], .file ("choice\n\tprompt \"c\"\nconfig A\n\tbool \"a\"\n" ++
      "config B\n\tbool \"b\"\nendchoice\n").toUTF8),
      (["f"], .file "CONFIG_B=y\n# CONFIG_A is not set\n".toUTF8),
      (["g"], .file "# CONFIG_A is not set\nCONFIG_B=y\n".toUTF8)] } }

/-- Both files select the second symbol. -/
theorem reordered_load_swapped :
    ∃ s r t t', openSession swappedWorkspace {} = (.ok s, r) ∧
      (runFrom (loadConfig (some "f") true) s).2 = t ∧
      (runFrom (loadConfig (some "g") true) s).2 = t' ∧
      t.values.assigned.selection 0 = some 5 ∧ t'.values.assigned.selection 0 = some 5 := by
  obtain ⟨s, r, hopen, hrun⟩ := exists_of_opensTo swappedWorkspace (fun s =>
      decide ((s.opened "f").toOption.map (fun p => (decodeFile s.reading.encoding p.2).lines) =
        some ["CONFIG_B=y\n", "# CONFIG_A is not set\n"]) &&
      decide ((s.opened "g").toOption.map (fun p => (decodeFile s.reading.encoding p.2).lines) =
        some ["# CONFIG_A is not set\n", "CONFIG_B=y\n"]) &&
      decide ((s.linesOf "f").toOption.map (·.filterMap s.statement?) = some [(5, "y"), (4, "n")]) &&
      (s.linesOf "g").isOk &&
      (runFrom (loadConfig (some "f") true) s).1.isOk &&
      (runFrom (loadConfig (some "g") true) s).1.isOk &&
      decide ((runFrom (loadConfig (some "f") true) s).2.values.assigned.selection 0 = some 5))
    (by decide +kernel)
  simp only [Bool.and_eq_true, decide_eq_true_eq, Option.map_eq_some_iff] at hrun
  obtain ⟨⟨⟨⟨⟨⟨⟨file, hfile, hlines⟩, file', hfile', hlines'⟩, founds, hfounds, hes⟩, hok'⟩, hload⟩,
    hload'⟩, hselected⟩ := hrun
  obtain ⟨founds', hfounds'⟩ := exists_eq_ok_of_isOk hok'
  obtain ⟨_, hload⟩ := exists_eq_ok_of_isOk hload
  obtain ⟨_, hload'⟩ := exists_eq_ok_of_isOk hload'
  have hclear : Ledger.Unambiguous s.model (founds.filterMap s.statement?) := by
    rw [hes]
    constructor
    · decide
    · simp [Ledger.followedBy]
    · simp [Ledger.followedBy]
  have hperm : (decodeFile s.reading.encoding file.2).lines.Perm
      (decodeFile s.reading.encoding file'.2).lines := by
    rw [hlines, hlines']
    decide
  have hsame := (reordered_load hopen [] (eq_ok_of_toOption hfile) (eq_ok_of_toOption hfile')
    (eq_ok_of_toOption hfounds) hfounds' hperm hclear (Prod.ext hload rfl) (Prod.ext hload' rfl)).1
  exact ⟨s, r, _, _, hopen, rfl, rfl, hselected, hsame ▸ hselected⟩

end Buildsmith.Kconfig
