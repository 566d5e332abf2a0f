import Buildsmith.Kconfig.Session
import Buildsmith.Proofs.Description.Lexing

/-!
# Reading statements

Reading statements keeps the model well formed.  The outline that is read mentions the entries that
were made, each once and in the order of their definition (`gives_readRoot`).
-/

namespace Buildsmith.Kconfig

open Outline Model List

variable {α : Type} {n : Nat} {ss : List Subject}

/-! ## Lines -/

namespace Quiet

@[grind ←]
theorem parsed (p : Except Problem α) : Quiet (parsed p) := by
  cases p with
  | ok a => exact pure a
  | error e => exact fail e

theorem readPhysical : Quiet readPhysical := by
  refine get_bind fun r => ?_
  split
  · exact set_bind rfl (pure _)
  · split
    · rfl
    · rfl

theorem joinLines (fuel : Nat) (line : String) : Quiet (joinLines fuel line) := by
  induction fuel generalizing line with
  | zero => exact pure _
  | succ fuel ih =>
    refine ite (readPhysical.bind fun more => ?_) (pure _)
    exact bind (modify fun _ => rfl) fun _ => ih _

theorem firstHelpLine (fuel : Nat) : Quiet (firstHelpLine fuel) := by
  induction fuel with
  | zero => exact pure _
  | succ fuel ih =>
    refine readPhysical.bind fun line => bind (modify fun _ => rfl) fun _ => ?_
    cases line with
    | none => exact pure _
    | some l => exact ite ih (pure _)

theorem moreHelpLines (indent fuel : Nat) (acc : List String) :
    Quiet (moreHelpLines indent fuel acc) := by
  induction fuel generalizing acc with
  | zero => exact pure _
  | succ fuel ih =>
    refine readPhysical.bind fun line => ?_
    cases line with
    | none => exact pure _
    | some l => exact ite (ih _) (ite (pure _) (ih _))

@[grind ←]
theorem getEntry (i : EntryId) : Quiet (getEntry i) := get.bind fun _ => pure _

theorem entryItem (i : EntryId) : Quiet (entryItem i) := by
  refine (getEntry i).bind fun e => ?_
  split
  · exact pure _
  · exact throw _

@[grind ←]
theorem warnOfItem (i : EntryId) (text : String) : Quiet (warnOfItem i text) :=
  (entryItem i).bind fun _ => get.bind fun _ => warn _

theorem subjectName (s : Subject) : Quiet (subjectName s) := by
  refine get.bind fun r => ?_
  cases s with
  | symbol i | choice c => exact pure _
  | menu | comment => exact throw _

theorem lineBound : Quiet lineBound := get.bind fun _ => pure _

theorem sourcedFiles (keyword : Keyword) (ts : List Token) : Quiet (sourcedFiles keyword ts) := by
  refine (parsed _).bind fun written => get.bind fun r => ?_
  exact ite ((throw _).bind fun _ => pure _) (pure _)

theorem enterFile (path : String) : Quiet (enterFile path) := by
  refine get_bind fun r => set_bind rfl ?_
  refine ite ((throw _).bind fun _ => ?_) ?_
  all_goals
    split
    · exact throw _
    · exact throw _
    · exact modify fun _ => rfl

end Quiet

theorem gives_tokenizeJoined (line : String) : Gives (Reading.At n ss) (tokenizeJoined line)
      fun ts => Reading.At (max n (tokensBound ts)) ss := by
  refine .get_bind' fun r => ?_
  exact (Quiet.joinLines _ _).at.bind fun joined => gives_tokenize joined

theorem gives_nextLine : Gives (Reading.At n ss) nextLine
      fun ts => Reading.At (max n (tokensBound (ts.getD []))) ss := by
  refine .get_bind fun r hr => ?_
  cases hpending : r.pending with
  | some ts =>
    refine .bind (R := fun _ => Reading.At (max n (tokensBound ts)) ss) ?_
      fun _ => .pure fun _ h => h
    refine .set fun _ _ => ?_
    exact ⟨hr.wellFormed, hr.isParsing, nofun, Nat.max_le.2 ⟨hr.symbols, hr.pending ts hpending⟩,
      hr.entries, hr.ungathered⟩
  | none =>
    refine .mono (P := Reading.At n ss) ?_ (fun s hs => hs ▸ hr) fun _ _ h => h
    refine Quiet.readPhysical.at.bind fun line => ?_
    cases line with
    | none => exact .pure fun r hr => hr.mono (by simp [tokensBound])
    | some l =>
      have hline : Quiet (modify fun r => { r with line := r.line + 1 }) := Quiet.modify fun _ => rfl
      refine hline.at.bind fun _ => (gives_tokenizeJoined l).bind fun ts => ?_
      exact .pure fun _ h => h

theorem gives_pushBack (ts : List Token) :
    Gives (Reading.At (max n (tokensBound ts)) ss) (pushBack ts) fun _ => Reading.At n ss := by
  refine .modify fun r hr => { hr.mono (Nat.le_max_left _ _) with pending := ?_ }
  rintro _ ⟨⟩
  exact Nat.le_trans (Nat.le_max_right _ _) hr.symbols

theorem gives_keepLine (line : Option String) :
    Gives (Reading.At n ss) (keepLine line) fun _ => Reading.At n ss := by
  cases line with
  | none => exact .pure fun _ h => h
  | some l => exact (gives_tokenizeJoined l).bind gives_pushBack

/-! ## Properties -/

variable {r : Reading} {x : ReadM (List Outline)} {children : List Outline} {f : Entry → Entry}

theorem subjects_modifyEntry {m : Model} (i : EntryId) (hf : ∀ e, (f e).subject = e.subject) :
    (m.modifyEntry i f).entries.toList.map Entry.subject = m.entries.toList.map Entry.subject := by
  refine ext_getElem? fun l => ?_
  simp only [Model.modifyEntry, getElem?_map, Array.getElem?_toList, Array.getElem?_modify]
  split
  · cases m.entries[l]? <;> simp [hf]
  · rfl

theorem gives_modifyEntry (i : EntryId) (hf : ∀ e, (f e).subject = e.subject) :
    Gives (Reading.At n ss) (modifyEntry i f) fun _ => Reading.At n ss :=
  Leads.modify fun _ hr =>
    ⟨hr.wellFormed.modifyEntry i hf, hr.isParsing, hr.pending, hr.symbols,
      (subjects_modifyEntry i hf).trans hr.entries, hr.ungathered⟩

theorem Reading.At.modifySymbol (h : r.At n ss) (i : SymbolId) {f : Symbol → Symbol}
    (hname : ∀ x, (f x).name = x.name ∧ (f x).isConstant = x.isConstant ∧ (f x).entries = x.entries)
    (hchoice : ∀ x, (f x).choice = x.choice) (hproperties : ∀ x, (f x).properties = x.properties)
    (hkind : (f (r.model.symbol i)).kind = (r.model.symbol i).kind ∨ i ∈ r.model.defined) :
    Reading.At n ss { r with model := r.model.modifySymbol i f } where
  wellFormed := h.wellFormed.modifySymbol i hname
    (hkind.imp_left fun hkind => ⟨hkind, congrArg (·.2.2.2.2.1) (hproperties _)⟩)
    (.inl (hchoice _))
  isParsing := h.isParsing
  pending ts hts := by simpa [Model.modifySymbol] using h.pending ts hts
  symbols := by simpa [Model.modifySymbol] using h.symbols
  entries := h.entries
  ungathered := h.ungathered.modifySymbol i hproperties

theorem Reading.At.modifyChoice (h : r.At n ss) (c : ChoiceId) {f : Choice → Choice}
    (hf : ∀ x, (f x).entries = x.entries ∧ (f x).symbols = x.symbols) :
    Reading.At n ss { r with model := r.model.modifyChoice c f } where
  wellFormed := h.wellFormed.modifyChoice c (fun x => (hf x).1)
    (fun i hi => by rwa [(hf _).2]) fun i hi => .inl (by rwa [(hf _).2] at hi)
  isParsing := h.isParsing
  pending := h.pending
  symbols := h.symbols
  entries := h.entries
  ungathered := h.ungathered

theorem gives_entryItem (i : EntryId) : Gives (Reading.At n ss) (entryItem i)
      fun item r => r.At n ss ∧ (r.model.entry i).subject.item? = some item := by
  refine .get_bind fun r hr => ?_
  cases hitem : (r.model.entry i).subject.item? with
  | none => exact Gives.throw _
  | some item =>
    refine .pure fun s hs => ?_
    subst hs
    exact ⟨hr, hitem⟩

theorem gives_setKind (i : EntryId) (kind : Kind) :
    Gives (Reading.At n ss) (setKind i kind) fun _ => Reading.At n ss := by
  refine (gives_entryItem i).bind fun item => .get_bind' fun r => ?_
  have hset : Gives (fun r : Reading => r.At n ss ∧ (r.model.entry i).subject.item? = some item)
      (modify fun r => { r with model := r.model.withKind kind item } : ReadM PUnit)
      fun _ => Reading.At n ss := by
    refine .modify fun r hr => ?_
    cases item with
    | symbol s =>
      have hsubject : (r.model.entry i).subject = .symbol s := by
        have hitem := hr.2
        cases hs : (r.model.entry i).subject <;> rw [hs] at hitem <;> cases hitem
        rfl
      exact hr.1.modifySymbol s (fun _ => ⟨rfl, rfl, rfl⟩) (fun _ => rfl) (fun _ => rfl)
        (.inr (hr.1.wellFormed.symbolSubjects i s hsubject))
    | choice c => exact hr.1.modifyChoice c fun _ => ⟨rfl, rfl⟩
  refine .ite (fun _ => .bind ?_ fun _ => hset) fun _ => hset
  refine (Quiet.warnOfItem _ _).frame fun r r' hcore hr => ⟨hr.1.of_core hcore, ?_⟩
  have hmodel : r'.model = r.model := congrArg Prod.fst hcore
  rw [hmodel]
  exact hr.2

/-- Whether a computation keeps a state of reading in order, without making entries. -/
def Orderly (x : ReadM α) : Prop :=
  ∀ n ss, Gives (Reading.At n ss) x fun _ => Reading.At n ss

namespace Orderly

variable {β : Type}

@[grind ←]
theorem pure (a : α) : Orderly (Pure.pure a) := fun _ _ => Leads.pure fun _ h => h

theorem throw (e : Fault) : Orderly (throw e : ReadM α) := fun _ _ => Gives.throw e

@[grind ←]
theorem fail (p : Problem) : Orderly (fail p : ReadM α) := fun _ _ => gives_fail p

variable {x : ReadM α}

@[grind ←]
theorem bind {f : α → ReadM β} (hx : Orderly x) (hf : ∀ a, Orderly (f a)) : Orderly (x >>= f) :=
  fun n ss => (hx n ss).bind fun a => hf a n ss

theorem ite {c : Prop} [Decidable c] {y : ReadM α} (hx : Orderly x) (hy : Orderly y) :
    Orderly (if c then x else y) :=
  fun n ss => .ite (fun _ => hx n ss) fun _ => hy n ss

@[grind ←]
theorem get : Orderly get := fun _ _ => Quiet.get.at

@[grind ←]
theorem modifyEntry (i : EntryId) {f : Entry → Entry} (hf : ∀ e, (f e).subject = e.subject) :
    Orderly (modifyEntry i f) := fun _ _ => gives_modifyEntry i hf

theorem modifySymbol (i : SymbolId) {f : Symbol → Symbol}
    (hf : ∀ x, (f x).name = x.name ∧ (f x).isConstant = x.isConstant ∧
      (f x).entries = x.entries ∧ (f x).choice = x.choice ∧ (f x).kind = x.kind ∧
      (f x).properties = x.properties) :
    Orderly (modify fun r => { r with model := r.model.modifySymbol i f }) :=
  fun _ _ => .modify fun _ hr => hr.modifySymbol i
    (fun x => ⟨(hf x).1, (hf x).2.1, (hf x).2.2.1⟩) (fun x => (hf x).2.2.2.1)
    (fun x => (hf x).2.2.2.2.2) (.inl (hf _).2.2.2.2.1)

theorem modify {g : Reading → Reading} (hg : ∀ r, (g r).core = r.core) :
    Orderly (modify g : ReadM PUnit) := fun _ _ => (Quiet.modify hg).at

end Orderly

@[grind ←]
theorem Quiet.orderly {x : ReadM α} (hx : Quiet x) : Orderly x := fun _ _ => hx.at

namespace Orderly

variable (i : EntryId) (ts : List Token)

theorem setKind (kind : Kind) : Orderly (setKind i kind) :=
  fun _ _ => gives_setKind i kind

theorem keepLine (line : Option String) : Orderly (keepLine line) :=
  fun _ _ => gives_keepLine line

theorem lookup (c : Bool) (name : String) : Orderly (lookup c name) :=
  fun _ _ => (leads_lookup c name).gives.post fun _ _ h => h.mono (Nat.le_max_left _ _)

theorem readPrompt : Orderly (readPrompt i ts) := by
  unfold Kconfig.readPrompt
  grind

theorem readHelp : Orderly (readHelp i) := by
  refine (Quiet.entryItem i).discard.orderly.bind fun _ => ?_
  refine (Quiet.getEntry i).orderly.bind fun e => ?_
  extract_lets rest
  have hrest : ∀ u, Orderly (rest u) := by
    intro u
    refine get.bind fun r => (Quiet.firstHelpLine _).orderly.bind fun first => ite ?_ ?_
    · refine (Quiet.warnOfItem _ _).orderly.bind fun _ => ?_
      exact bind (modifyEntry i fun _ => rfl) fun _ => keepLine _
    · refine (Quiet.moreHelpLines _ _ _).orderly.bind fun p => ?_
      refine bind (modify fun _ => rfl) fun _ => ?_
      exact bind (modifyEntry i fun _ => rfl) fun _ => keepLine _
  exact ite ((Quiet.warnOfItem _ _).orderly.bind hrest) (hrest ())

theorem readTarget : Orderly (readTarget ts) := by
  unfold Kconfig.readTarget
  grind

theorem readDefault : Orderly (readDefault i ts) := by
  unfold Kconfig.readDefault
  grind

theorem readEnvOption : Orderly (readEnvOption i ts) := by
  refine (Quiet.parsed _).orderly.bind fun envVar => (Quiet.getEntry i).orderly.bind fun e => ?_
  split
  · refine bind (modifySymbol _ fun _ => ⟨rfl, rfl, rfl, rfl, rfl, rfl⟩) fun _ => ?_
    refine get.bind fun r => get.bind fun r' => ?_
    extract_lets rest
    have hrest : ∀ u, Orderly (rest u) :=
      fun _ => ite (Quiet.warnHere _).orderly (pure _)
    split
    · refine (lookup _ _).bind fun c => ?_
      exact bind (modifyEntry i fun _ => rfl) hrest
    · exact (Quiet.warnHere _).orderly.bind hrest
  · exact throw _

theorem readOption : Orderly (readOption i ts) := by
  refine (Quiet.getEntry i).orderly.bind fun e => ?_
  dsimp only
  split
  · split
    · exact readEnvOption i _
    · exact fail _
  · refine get.bind fun r => ?_
    split
    · exact fun n ss => .modify fun r hr =>
        ⟨{ hr.wellFormed with }, hr.isParsing, hr.pending, hr.symbols, hr.entries, hr.ungathered⟩
    · refine (Quiet.subjectName _).orderly.bind fun _ => ?_
      exact (Quiet.subjectName _).orderly.bind fun _ => (Quiet.warnHere _).orderly
  · exact ite (Quiet.warnHere _).orderly (pure _)
  · split
    · exact modifySymbol _ fun _ => ⟨rfl, rfl, rfl, rfl, rfl, rfl⟩
    · exact fail _
  · exact fail _

theorem readProperty (keyword : Keyword) (ts : List Token) :
    Orderly (readProperty i keyword ts) := by
  refine (Quiet.getEntry i).orderly.bind fun e => ?_
  extract_lets subject ofSymbol read selected implied
  have hselected : ∀ u, Orderly (selected u) := fun _ =>
    (readTarget ts).bind fun _ => bind (modifyEntry i fun _ => rfl) fun _ => pure _
  have himplied : ∀ u, Orderly (implied u) := fun _ =>
    (readTarget ts).bind fun _ => bind (modifyEntry i fun _ => rfl) fun _ => pure _
  split
  · refine (setKind i _).bind fun _ => ?_
    exact ite (pure _) ((readPrompt i ts).bind fun _ => pure _)
  split
  · exact (setKind i _).bind fun _ => (readDefault i ts).bind fun _ => pure _
  split
  · split
    · refine (Quiet.parsed _).orderly.bind fun cond => ?_
      exact bind (modifyEntry i fun _ => rfl) fun _ => pure _
    · exact fail _
  · exact (readHelp i).bind fun _ => pure _
  · exact ite (hselected ()) ((fail _).bind hselected)
  · exact (readDefault i ts).bind fun _ => pure _
  · exact (readPrompt i ts).bind fun _ => pure _
  · refine (Quiet.parsed _).orderly.bind fun low => (Quiet.parsed _).orderly.bind fun high => ?_
    refine (Quiet.parsed _).orderly.bind fun cond => ?_
    exact bind (modifyEntry i fun _ => rfl) fun _ => pure _
  · exact ite (himplied ()) ((fail _).bind himplied)
  · split
    · extract_lets visible
      have hvisible : ∀ u, Orderly (visible u) := fun _ =>
        (Quiet.parsed _).orderly.bind fun _ => bind (modifyEntry i fun _ => rfl) fun _ => pure _
      exact ite (hvisible ()) ((throw _).bind hvisible)
    · exact fail _
  · exact (readOption i ts).bind fun _ => pure _
  · clear_value subject
    cases subject with
    | choice c =>
      refine bind (fun n ss => ?_) fun _ => pure _
      exact .modify fun r hr => hr.modifyChoice _ fun _ => ⟨rfl, rfl⟩
    | _ => exact fail _
  · exact pure _

theorem readProperties (fuel : Nat) : Orderly (readProperties i fuel) := by
  induction fuel with
  | zero => exact pure _
  | succ fuel ih =>
    intro n ss
    refine gives_nextLine.bind fun line => ?_
    have hmore : ∀ n', n ≤ n' →
        Gives (Reading.At n' ss) (Kconfig.readProperties i fuel) fun _ => Reading.At n ss :=
      fun n' hn => (ih n' ss).post fun _ _ h => h.mono hn
    split
    · exact .pure fun _ h => h.mono (Nat.le_max_left _ _)
    · exact hmore _ (Nat.le_max_left _ _)
    · refine (readProperty i _ _ _ _).bind fun done => ?_
      exact .ite (fun _ => hmore _ (Nat.le_max_left _ _)) fun _ => gives_pushBack _
    · exact gives_pushBack _

end Orderly

/-! ## Entries -/

mutual

/-- The entries that an outline mentions, from top to bottom. -/
def Outline.ids : Outline → List EntryId
  | .entry i children => i :: idsAll children
  | .block _ children => idsAll children

def Outline.idsAll : List Outline → List EntryId
  | [] => []
  | o :: os => o.ids ++ idsAll os

end

mutual

/-- Whether what an outline mentions is among some subjects, and symbols have nothing below them. -/
def Outline.Fits (ss : List Subject) : Outline → Prop
  | .entry i children =>
    (∃ x, ss[i]? = some x ∧ ((∃ s, x = .symbol s) → children = [])) ∧ Outline.FitsAll ss children
  | .block _ children => Outline.FitsAll ss children

def Outline.FitsAll (ss : List Subject) : List Outline → Prop
  | [] => True
  | o :: os => o.Fits ss ∧ Outline.FitsAll ss os

end

mutual

theorem Outline.Fits.append {ss : List Subject} (ts : List Subject) :
    ∀ {o : Outline}, o.Fits ss → o.Fits (ss ++ ts)
  | .entry _ _, ⟨⟨x, hx, hleaf⟩, hchildren⟩ =>
    ⟨⟨x, List.getElem?_append_left (List.getElem?_eq_some_iff.1 hx).1 ▸ hx, hleaf⟩,
      Outline.FitsAll.append ts hchildren⟩
  | .block _ children, ho => by
    have hchildren : Outline.FitsAll ss children := ho
    exact hchildren.append ts

theorem Outline.FitsAll.append {ss : List Subject} (ts : List Subject) :
    ∀ {os : List Outline}, Outline.FitsAll ss os → Outline.FitsAll (ss ++ ts) os
  | [], _ => trivial
  | _ :: _, ⟨ho, hos⟩ => ⟨ho.append ts, Outline.FitsAll.append ts hos⟩

end

theorem idsAll_append (os os' : List Outline) :
    idsAll (os ++ os') = idsAll os ++ idsAll os' := by
  induction os with
  | nil => rfl
  | cons o os ih => simp [idsAll, ih]

theorem fitsAll_append {os os' : List Outline} (hos : Outline.FitsAll ss os)
    (hos' : Outline.FitsAll ss os') : Outline.FitsAll ss (os ++ os') := by
  induction os with
  | nil => exact hos'
  | cons o os ih => exact ⟨hos.1, ih hos.2⟩

/-- A state of reading in which the entries behind those for `ss` are the ones that an outline
mentions. -/
def Reading.Outlined (n : Nat) (ss : List Subject) (os : List Outline) (r : Reading) : Prop :=
  ∃ ts, r.At n (ss ++ ts) ∧ idsAll os = List.range' ss.length ts.length ∧
    Outline.FitsAll (ss ++ ts) os

theorem Reading.At.entries_size (h : r.At n ss) : r.model.entries.size = ss.length := by
  rw [← h.entries, length_map, Array.length_toList]

theorem gives_newEntry {subject : Subject} (hsubject : subject.item? = none) (isMenuconfig : Bool)
    (prompt : Option (String × Expr)) :
    Gives (Reading.At n ss) (newEntry subject isMenuconfig prompt)
      fun i r => i = ss.length ∧ r.At n (ss ++ [subject]) := by
  refine .get_bind fun r hr => ?_
  refine .bind (R := fun _ => Reading.At n (ss ++ [subject])) (.set fun _ _ => ?_)
    fun _ => .pure fun s hs => ⟨hr.entries_size, hs⟩
  exact ⟨hr.wellFormed.addEntry hsubject, hr.isParsing, hr.pending, hr.symbols, by
    simp [hr.entries], hr.ungathered⟩

theorem gives_newSymbolEntry {i : SymbolId} (hi : i < n) (isMenuconfig : Bool) :
    Gives (fun r : Reading => r.At n ss ∧ (r.model.symbol i).isConstant = false)
      (newSymbolEntry i isMenuconfig) fun l r => l = ss.length ∧ r.At n (ss ++ [.symbol i]) := by
  refine .intro fun r l r' ⟨hr, hconstant⟩ hrun => ?_
  have hi' : i < r.model.symbols.size := Nat.lt_of_lt_of_le hi hr.symbols
  obtain ⟨e, he, hl, hr'⟩ : ∃ e : Entry, e.subject = .symbol i ∧ l = r.model.entries.size ∧
      r' = { r with model := r.model.defineSymbol i e } := by
    cases hrun
    exact ⟨_, rfl, rfl, rfl⟩
  subst hl hr'
  refine ⟨hr.entries_size, hr.wellFormed.defineSymbol hi' hconstant he, hr.isParsing, ?_, ?_, ?_, ?_⟩
  · simpa [defineSymbol, addEntry, modifySymbol] using hr.pending
  · simpa [defineSymbol, addEntry, modifySymbol] using hr.symbols
  · simp [defineSymbol, addEntry, modifySymbol, hr.entries, he]
  · have hadded : (addEntry { r.model with defined := r.model.defined ++ [i] } e).Ungathered := hr.ungathered
    exact hadded.modifySymbol i fun _ => rfl

theorem gives_newChoiceEntry (c : ChoiceId) :
    Gives (fun r : Reading => r.At n ss ∧ c < r.model.choices.size)
      (newChoiceEntry c) fun l r => l = ss.length ∧ r.At n (ss ++ [.choice c]) := by
  refine .intro fun r l r' ⟨hr, hc⟩ hrun => ?_
  obtain ⟨e, he, hl, hr'⟩ : ∃ e : Entry, e.subject = .choice c ∧ l = r.model.entries.size ∧
      r' = { r with model := r.model.defineChoice c e } := by
    cases hrun
    exact ⟨_, rfl, rfl, rfl⟩
  subst hl hr'
  refine ⟨hr.entries_size, hr.wellFormed.defineChoice hc he, hr.isParsing, hr.pending, hr.symbols, ?_,
    hr.ungathered⟩
  simp [defineChoice, addEntry, modifyChoice, hr.entries, he]

theorem gives_choiceOf (ts : List Token) :
    Gives (Reading.At n ss) (choiceOf ts) fun c r => r.At n ss ∧ c < r.model.choices.size := by
  have hadd : ∀ name : Option String, Gives (Reading.At n ss) (do
      let r ← get
      set { r with model := { r.model with choices := r.model.choices.push { name } } }
      return r.model.choices.size : ReadM ChoiceId)
      fun c r => r.At n ss ∧ c < r.model.choices.size := by
    intro name
    refine .get_bind fun r hr => ?_
    refine .bind (R := fun _ s => s.At n ss ∧ r.model.choices.size < s.model.choices.size)
      (.set fun _ _ => ?_) fun _ => .pure fun s hs => hs
    refine ⟨⟨hr.wellFormed.addChoice rfl rfl, hr.isParsing, hr.pending, hr.symbols, hr.entries,
      hr.ungathered⟩, ?_⟩
    simp
  refine .ite (fun _ => hadd _) fun _ => ?_
  refine (Quiet.parsed _).at.bind fun name => .get_bind fun r hr => ?_
  cases hfound : r.model.findChoice? name with
  | some c =>
    refine .pure fun s hs => ?_
    subst hs
    exact ⟨hr, (Array.findIdx?_eq_some_iff_findIdx_eq.1 hfound).1⟩
  | none => exact (hadd _).pre fun s hs => hs ▸ hr

/-! ## Outlines -/

theorem Reading.At.outlined_nil (h : r.At n ss) : r.Outlined n ss [] :=
  ⟨[], by simpa using h, rfl, trivial⟩

theorem Reading.Outlined.entry {x : Subject} (h : r.Outlined n (ss ++ [x]) children)
    (hx : (∃ s, x = .symbol s) → children = []) : r.Outlined n ss [.entry ss.length children] := by
  obtain ⟨ts, hinOrder, hids, hfits⟩ := h
  rw [append_assoc] at hinOrder hfits
  refine ⟨[x] ++ ts, hinOrder, ?_, ⟨⟨x, by simp, hx⟩, hfits⟩, trivial⟩
  simp only [idsAll, ids, append_nil, hids, length_append, length_singleton]
  rw [Nat.add_comm 1, range'_succ]

theorem Reading.Outlined.block (h : r.Outlined n ss children) (cond : Expr) :
    r.Outlined n ss [.block cond children] := by
  obtain ⟨ts, hinOrder, hids, hfits⟩ := h
  refine ⟨ts, hinOrder, ?_, hfits, trivial⟩
  simpa [idsAll, ids] using hids

/-- Whether reading keeps a state in order and gives an outline of the entries that are made. -/
def ReadsOutline (x : ReadM (List Outline)) : Prop :=
  ∀ n ss, Gives (Reading.At n ss) x (Reading.Outlined n ss)

theorem gives_behind {y : ReadM α} {f : α → List Outline}
    (hy : ∀ n ss, Gives (Reading.At n ss) y fun a => Reading.Outlined n ss (f a))
    (os : List Outline) :
    Gives (Reading.Outlined n ss os) y fun a => Reading.Outlined n ss (os ++ f a) := by
  refine .intro fun r a r' ⟨ts, hinOrder, hids, hfits⟩ hrun => ?_
  obtain ⟨ts', hinOrder', hids', hfits'⟩ := (hy _ _).apply hinOrder hrun
  rw [append_assoc] at hinOrder' hfits'
  refine ⟨ts ++ ts', hinOrder', ?_, fitsAll_append ?_ hfits'⟩
  · rw [idsAll_append, hids, hids']
    simp
  · rw [← append_assoc]
    exact hfits.append ts'

theorem gives_append (hx : ReadsOutline x) (os : List Outline) :
    Gives (Reading.Outlined n ss os) (do return os ++ (← x)) (Reading.Outlined n ss) :=
  (gives_behind hx os).bind fun _ => .pure fun _ => id

theorem gives_readConfig (isMenuconfig : Bool) (ts : List Token) :
    Gives (Reading.At (max n (tokensBound ts)) ss) (readConfig isMenuconfig ts)
      fun o => Reading.Outlined n ss [o] := by
  unfold readConfig
  split
  · rename_i i rest
    refine .get_bind fun r hr => ?_
    refine .ite (fun _ => gives_fail_bind _ _) fun hconstant => ?_
    refine .ite (fun _ => ?_) fun _ => gives_fail_bind _ _
    have hi : i < max n (tokensBound (.symbol i :: rest)) :=
      Nat.lt_of_lt_of_le (Nat.lt_succ_self i)
        (Nat.le_trans (Nat.le_max_left _ _) (Nat.le_max_right _ _))
    have hnew : Gives (· = r) (newSymbolEntry i isMenuconfig) fun l s => l = ss.length ∧
        s.At (max n (tokensBound (.symbol i :: rest))) (ss ++ [.symbol i]) := by
      refine (gives_newSymbolEntry hi isMenuconfig).pre fun s hs => ?_
      subst hs
      exact ⟨hr, by simpa using hconstant⟩
    refine hnew.bind fun l => .and_left fun hl => ?_
    subst hl
    have hdone : Gives (Reading.At (max n (tokensBound (.symbol i :: rest))) (ss ++ [.symbol i]))
        (pure (.entry ss.length []) : ReadM Outline) fun o => Reading.Outlined n ss [o] :=
      Leads.pure fun _ h => (h.mono (Nat.le_max_left _ _)).outlined_nil.entry fun _ => rfl
    refine Quiet.lineBound.at.bind fun bound => (Orderly.readProperties _ bound _ _).bind fun _ => ?_
    refine (Quiet.getEntry _).at.bind fun e => .ite (fun _ => ?_) fun _ => hdone
    exact .get_bind' fun r => (Quiet.warn _).at.bind fun _ => hdone
  · exact gives_fail _

theorem gives_readSourced (hx : ReadsOutline x) (path : String) :
    Gives (Reading.At n ss) (readSourced x path) (Reading.Outlined n ss) := by
  refine .get_bind' fun r => (Quiet.enterFile path).at.bind fun _ => (hx n ss).bind fun os => ?_
  refine .bind (R := fun _ => Reading.Outlined n ss os) (.modify fun s hs => ?_) fun _ =>
    Leads.pure fun _ h => h
  obtain ⟨ts, hinOrder, hrest⟩ := hs
  exact ⟨ts, hinOrder.of_core rfl, hrest⟩

theorem gives_mapM_readSourced (hx : ReadsOutline x) (paths : List String) :
    Gives (Reading.At n ss) (paths.mapM (readSourced x))
      fun parts => Reading.Outlined n ss parts.flatten := by
  induction paths generalizing n ss with
  | nil =>
    exact .pure fun _ h => h.outlined_nil
  | cons path paths ih =>
    rw [mapM_cons]
    refine (gives_readSourced hx path).bind fun first => ?_
    exact (gives_behind (fun _ _ => ih) first).bind fun _ => .pure fun _ => id

/-! ## Statements -/

theorem readsOutline_readStatements
    {readFile : Option (ReadM (List Outline))} (hfile : ∀ x, readFile = some x → ReadsOutline x)
    (within : Option Block) (fuel : Nat) : ReadsOutline (readStatements readFile within fuel) := by
  induction fuel generalizing within with
  | zero => exact fun n ss => .throw _
  | succ fuel ih =>
    intro n ss
    refine gives_nextLine.bind fun line => ?_
    have hold : ∀ (x : ReadM (List Outline)) n', n ≤ n' →
        Gives (Reading.At n ss) x (Reading.Outlined n ss) →
        Gives (Reading.At n' ss) x (Reading.Outlined n ss) :=
      fun x n' hn hx => hx.pre fun _ h => h.mono hn
    split
    · refine hold _ _ (Nat.le_max_left _ _) ?_
      split
      · exact Leads.get_bind' fun r => Gives.throw _
      · exact .pure fun _ h => h.outlined_nil
    · exact hold _ _ (Nat.le_max_left _ _) (ih within n ss)
    · rename_i keyword ts
      refine .ite (fun _ => ?_) fun _ => ?_
      · show Gives (Reading.At (max n (tokensBound ts)) ss) _ _
        exact (gives_readConfig _ _).bind fun o => gives_append (ih within) [o]
      refine hold _ _ (Nat.le_max_left _ _) ?_
      refine .ite (fun _ => ?_) fun _ => .ite (fun _ => ?_) fun _ => ?_
      · refine (Quiet.sourcedFiles _ _).at.bind fun paths => ?_
        split
        · exact Gives.throw _
        · rename_i x
          refine (gives_mapM_readSourced (hfile x rfl) paths).bind fun parts => ?_
          exact gives_append (ih within) parts.flatten
      · have hnil : Gives (Reading.At n ss) (pure [] : ReadM (List Outline))
            (Reading.Outlined n ss) := Leads.pure fun _ h => h.outlined_nil
        exact .ite (fun _ => hnil) fun _ => gives_fail_bind _ _
      · split
        · refine (Quiet.parsed _).at.bind fun cond => (ih _ n ss).bind fun children => ?_
          exact (gives_append (ih within) [.block cond children]).pre fun _ h => h.block cond
        · refine (Quiet.parsed _).at.bind fun title => ?_
          refine (gives_newEntry rfl _ _).bind fun i => .and_left fun hi => ?_
          subst hi
          have hmenus : Orderly (modify fun r => { r with menus := r.menus ++ [ss.length] }) :=
            Orderly.modify fun _ => rfl
          refine (hmenus _ _).bind fun _ => Quiet.lineBound.at.bind fun bound => ?_
          refine (Orderly.readProperties _ bound _ _).bind fun _ => (ih _ n _).bind fun children => ?_
          exact (gives_append (ih within) [.entry ss.length children]).pre fun _ h => h.entry nofun
        · refine (Quiet.parsed _).at.bind fun title => ?_
          refine (gives_newEntry rfl _ _).bind fun i => .and_left fun hi => ?_
          subst hi
          have hcomments : Orderly
              (modify fun r => { r with comments := r.comments ++ [ss.length] }) :=
            Orderly.modify fun _ => rfl
          refine (hcomments _ _).bind fun _ => Quiet.lineBound.at.bind fun bound => ?_
          refine (Orderly.readProperties _ bound _ _).bind fun _ => ?_
          exact (gives_append (ih within) [.entry ss.length []]).pre fun _ h => h.outlined_nil.entry nofun
        · refine (gives_choiceOf ts).bind fun c => (gives_newChoiceEntry c).bind fun i => ?_
          refine .and_left fun hi => ?_
          subst hi
          refine Quiet.lineBound.at.bind fun bound => ?_
          refine (Orderly.readProperties _ bound _ _).bind fun _ => (ih _ n _).bind fun children => ?_
          exact (gives_append (ih within) [.entry ss.length children]).pre fun _ h => h.entry nofun
        · refine (Quiet.parsed _).at.bind fun title => ?_
          exact .bind (gives_modifyEntry _ fun _ => rfl) fun _ => ih within n ss
        · split
          · exact gives_fail _
          · exact gives_fail _
    · exact gives_fail _

theorem readsOutline_readBlock (depth : Nat) : ReadsOutline (readBlock depth) := by
  induction depth with
  | zero =>
    intro n ss
    refine Quiet.lineBound.at.bind fun bound => ?_
    exact readsOutline_readStatements (fun x hx => by cases hx) none bound n ss
  | succ depth ih =>
    intro n ss
    refine Quiet.lineBound.at.bind fun bound => ?_
    refine readsOutline_readStatements (fun x hx => ?_) none bound n ss
    cases hx
    exact ih

/-- From the start, reading gives a well-formed model and an outline of all entries but the one at
the top of the menu. -/
theorem gives_readRoot (w : Workspace) (o : LoadOptions) (root : String) :
    Gives (· = Reading.start w o) (readRoot root) (Reading.Outlined 0 [.menu]) := by
  refine .get_bind fun r hr => ?_
  subst hr
  dsimp only
  split
  · exact Gives.throw _
  · refine .bind (R := fun _ => Reading.At 0 [.menu]) (.set fun _ _ => ?_) fun _ =>
      readsOutline_readBlock _ 0 _
    exact ⟨Model.WellFormed.initial.addEntry rfl, rfl, nofun, Nat.zero_le _, rfl, .initial⟩

end Buildsmith.Kconfig
