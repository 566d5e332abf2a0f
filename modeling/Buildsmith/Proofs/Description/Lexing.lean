import Buildsmith.Kconfig.Lexer
import Buildsmith.Proofs.Description.Expanding
import Buildsmith.Proofs.Description.WellFormed

/-!
# Reading tokens

Expansion of calls leaves the model alone.  Reading tokens adds the symbols that are named for the
first time; all symbols of the tokens are in the table then (`gives_tokenize`).
-/

namespace Buildsmith.Kconfig

variable {α β : Type}

/-! ## Expansion in names and texts -/

namespace Settles

variable {r₀ : Reading}

theorem readExpandedName (isPart : Char → Bool) (fuel : Nat) (acc cs : List Char) :
    Settles r₀ (readExpandedName isPart fuel acc cs) fun _ => True := by
  induction fuel generalizing acc cs with
  | zero => exact pure trivial
  | succ fuel ih =>
    unfold Kconfig.readExpandedName
    split <;> injections <;> subst_vars
    · exact pure trivial
    · exact (expandOne _).bind fun _ _ => ih _ _
    · exact .ite (fun _ => ih _ _) fun _ => pure trivial

theorem readQuotedText (quote : Char) (fuel : Nat) (acc cs : List Char) :
    Settles r₀ (readQuotedText quote fuel acc cs) fun _ => True := by
  induction fuel generalizing acc cs with
  | zero => exact fail _
  | succ fuel ih =>
    unfold Kconfig.readQuotedText
    split <;> injections <;> subst_vars
    · exact fail _
    · split
      · exact fail _
      · exact ih _ _
    · exact (expandOne _).bind fun _ _ => ih _ _
    · exact .ite (fun _ => pure trivial) fun _ => ih _ _

theorem readText (quote : Char) (cs : List Char) :
    Settles r₀ (readText quote cs) fun _ => True := by
  refine .ite (fun _ => (readQuotedText _ _ _ _).bind fun _ _ => ?_) fun _ => ?_
  · exact get_bind fun r hr => at_ hr (pure trivial)
  · split
    · exact pure trivial
    · exact fail _

end Settles

/-! ## Computations that leave the model alone -/

/-- Whether a computation leaves the model and the kept tokens alone. -/
def Quiet (x : ReadM α) : Prop :=
  ∀ c, Preserves (fun r : Reading => r.core = c) x

namespace Quiet

theorem pure (a : α) : Quiet (Pure.pure a) := fun _ => .keep

theorem throw (e : Fault) : Quiet (throw e : ReadM α) := fun _ => .throw e

theorem get : Quiet get := fun _ => preserves_iff.2 fun _ h => h

variable {x : ReadM α}

theorem bind {f : α → ReadM β} (hx : Quiet x) (hf : ∀ a, Quiet (f a)) : Quiet (x >>= f) :=
  fun c => (hx c).bind fun a => hf a c

theorem modify {g : Reading → Reading} (hg : ∀ r, (g r).core = r.core) :
    Quiet (modify g : ReadM PUnit) :=
  fun _ => .modify fun r hr => (hg r).trans hr

theorem get_bind {f : Reading → ReadM α} (hf : ∀ r, (runFrom (f r) r).2.core = r.core) :
    Quiet (MonadState.get >>= f) :=
  fun _ => preserves_iff.2 fun r hr => (hf r).trans hr

theorem set_bind {r t : Reading} {f : PUnit → ReadM α} (ht : t.core = r.core) (hf : Quiet (f ⟨⟩)) :
    (runFrom (MonadStateOf.set t >>= f : ReadM α) r).2.core = r.core :=
  preserves_iff.1 (hf r.core) t ht

theorem ite {c : Prop} [Decidable c] {y : ReadM α} (hx : Quiet x) (hy : Quiet y) :
    Quiet (if c then x else y) :=
  fun _ => .ite (fun _ => hx _) fun _ => hy _

theorem discard (hx : Quiet x) : Quiet (Functor.discard x) := fun c => (hx c).discard

theorem fail (p : Problem) : Quiet (fail p : ReadM α) :=
  get.bind fun _ => throw _

theorem core_log (r : Reading) (text : String) : (r.log text).core = r.core := by
  unfold Reading.log
  split <;> rfl

theorem warn (text : String) : Quiet (warn text) :=
  modify fun r => core_log r _

theorem warnHere (text : String) : Quiet (warnHere text) := by
  refine modify fun r => ?_
  split <;> exact core_log r _

/-! ## Names and texts -/

theorem of_settles {Q : Reading → α → Prop} (hx : ∀ r, Settles r x (Q r)) : Quiet x := by
  refine fun c => .each fun r hr => ?_
  refine ((hx r).imp (fun _ _ h => h.core.trans hr) fun _ _ h => h.1.core.trans hr).mono ?_
    fun _ _ h => h
  rintro _ rfl
  exact .refl _

theorem expandWhole (s : String) : Quiet (expandWhole s) := of_settles fun _ => .expandWhole s

theorem assign (s : String) : Quiet (assign s) := by
  refine (of_settles fun _ => .readExpandedName _ _ _ _).bind fun p => ?_
  refine ite (pure _) ?_
  extract_lets name
  split
  · exact fail _
  · refine get.bind fun r => ?_
    extract_lets known rest
    have hrest : ∀ u, Quiet (rest u) := by
      intro u
      unfold rest
      split
      · exact modify fun _ => rfl
      · refine bind (modify fun _ => rfl) fun _ => ?_
        exact (expandWhole _).bind fun _ => modify fun _ => rfl
      · refine get.bind fun r => ite ?_ ?_
        · exact modify fun _ => rfl
        · exact (expandWhole _).bind fun _ => modify fun _ => rfl
    exact ite (hrest ()) (bind (modify fun _ => rfl) hrest)

end Quiet

/-! ## Tokens -/

def tokensBound : List Token → Nat
  | [] => 0
  | .symbol i :: ts => max (i + 1) (tokensBound ts)
  | _ :: ts => tokensBound ts

/-- A state of reading that is in order: the model is well formed with at least `n` symbols and
with entries for the given subjects, the symbols of kept tokens are in the table, and nothing has
been gathered on symbols. -/
structure Reading.At (n : Nat) (ss : List Subject) (r : Reading) : Prop where
  wellFormed : r.model.WellFormed
  isParsing : r.isParsing = true
  pending : ∀ ts, r.pending = some ts → tokensBound ts ≤ r.model.symbols.size
  symbols : n ≤ r.model.symbols.size
  entries : r.model.entries.toList.map Entry.subject = ss
  ungathered : r.model.Ungathered

variable {n : Nat} {ss : List Subject}
  {P : Reading → Prop} {r : Reading} {name : String} {x : ReadM α} {m : Model}

theorem Reading.At.of_core {r' : Reading} (h : r.At n ss) (hcore : r'.core = r.core) :
    r'.At n ss := by
  obtain ⟨hmodel, hpending, hparsing⟩ : r'.model = r.model ∧ r'.pending = r.pending ∧
      r'.isParsing = r.isParsing := by
    simpa [Reading.core] using hcore
  exact ⟨hmodel ▸ h.wellFormed, hparsing.trans h.isParsing, by rw [hpending, hmodel]; exact h.pending,
    hmodel ▸ h.symbols, hmodel ▸ h.entries, hmodel ▸ h.ungathered⟩

theorem Reading.At.mono {n' : Nat} (h : r.At n ss) (hn : n' ≤ n) : r.At n' ss :=
  { h with symbols := Nat.le_trans hn h.symbols }

theorem Quiet.frame (hx : Quiet x)
    (hP : ∀ r r' : Reading, r'.core = r.core → P r → P r') : Gives P x fun _ => P := by
  refine .each fun r hr => (hx r.core).gives.mono ?_ fun _ r' hcore => hP r r' hcore hr
  rintro _ rfl
  rfl

theorem Quiet.at (hx : Quiet x) : Gives (Reading.At n ss) x fun _ => Reading.At n ss :=
  hx.frame fun _ _ hcore hr => hr.of_core hcore

theorem Model.lt_size_of_findSymbol? {c : Bool} {i : SymbolId}
    (h : m.findSymbol? c name = some i) : i < m.symbols.size :=
  (Array.findIdx?_eq_some_iff_findIdx_eq.1 h).1

theorem Model.findSymbol?_eq_none_iff : m.findSymbol? false name = none ↔
    ∀ i < m.symbols.size, (m.symbol i).isConstant = false → (m.symbol i).name ≠ name := by
  rw [Model.findSymbol?, Array.findIdx?_eq_none_iff, Array.forall_mem_iff_forall_getElem]
  refine forall₂_congr fun i hi => ?_
  simp [Model.symbol, hi]

theorem Reading.At.addSymbol (h : r.At n ss) {x : Symbol} (hkind : x.kind = .unknown)
    (hentries : x.entries = []) (hungathered : x.properties = ([], [], [], [], .no, .no, .no))
    (hchoice : x.choice = none) (hname : x.isConstant = false → ∀ i < r.model.symbols.size,
      (r.model.symbol i).isConstant = false → (r.model.symbol i).name ≠ x.name) :
    Reading.At (max n (r.model.symbols.size + 1)) ss { r with model := r.model.addSymbol x } where
  wellFormed := h.wellFormed.addSymbol hkind hentries (congrArg (·.2.2.2.2.1) hungathered) hchoice hname
  isParsing := h.isParsing
  pending ts hts := Nat.le_trans (h.pending ts hts) (by simp [Model.addSymbol])
  symbols := by
    have hn := h.symbols
    simp only [Model.addSymbol, Array.size_push]
    omega
  entries := h.entries
  ungathered := h.ungathered.addSymbol hungathered

theorem gives_fail {Q : α → Reading → Prop} (p : Problem) : Gives P (fail p) Q :=
  Leads.get_bind' fun _ => Gives.throw _

theorem gives_fail_bind {Q : β → Reading → Prop} (p : Problem) (f : α → ReadM β) :
    Gives P (fail p >>= f) Q :=
  (gives_fail p).fails_bind

/-! ## Reading tokens -/

/-- What is kept while tokens are read, with a bound on the numbers of symbols: expansion keeps it, and
so does looking up names, which raises the bound. -/
structure TokenInvariant (E : Fault → Reading → Prop) (I : Nat → Reading → Prop) : Prop where
  fails : ∀ {n r f r'}, I n r → r.Leaves f r' → E f r'
  settles : ∀ {n r r'}, I n r → r.Like r' → I n r'
  lookup : ∀ n c name, Leads E (I n) (lookup c name) fun i => I (max n (i + 1))
  constant : ∀ {n r}, I n r → I (max n (SymbolId.yes + 1)) r
  mono : ∀ {n n' r}, I n r → n' ≤ n → I n' r

theorem tokensBound_of_readOperator? {cs rest : List Char} {token : Token}
    (h : readOperator? cs = some (token, rest)) : tokensBound [token] = 0 := by
  unfold readOperator? at h
  split at h <;> cases h <;> rfl

namespace TokenInvariant

variable {E : Fault → Reading → Prop} {I : Nat → Reading → Prop}

theorem of_settles (h : TokenInvariant E I) {Q : Reading → α → Prop} (hx : ∀ r, Settles r x (Q r)) :
    Leads E (I n) x fun _ => I n :=
  .each fun r hr => (Settles.at_ (.refl r) (hx r)).imp (fun _ _ => h.fails hr)
    fun _ _ hs => h.settles hr hs.1

theorem fail (h : TokenInvariant E I) (p : Problem) {R : α → Reading → Prop} :
    Leads E (I n) (fail p) R :=
  .each fun r hr => (Settles.at_ (.refl r) (.fail (Q := fun _ => False) p)).imp
    (fun _ _ => h.fails hr) fun _ _ hs => hs.2.elim

theorem namedSymbol (h : TokenInvariant E I) (name : String) :
    Leads E (I n) (namedSymbol name) fun i => I (max n (i + 1)) := by
  have hconstant : ∀ i ≤ SymbolId.yes, Leads E (I n) (pure i : ReadM SymbolId)
      fun i => I (max n (i + 1)) := by
    refine fun i hi => .pure fun r hr => h.mono (h.constant hr) (Nat.max_le.2 ⟨Nat.le_max_left _ _, ?_⟩)
    exact Nat.le_trans (Nat.succ_le_succ hi) (Nat.le_max_right _ _)
  unfold Kconfig.namedSymbol
  split
  · exact hconstant _ (by decide)
  · exact hconstant _ (by decide)
  · exact hconstant _ (by decide)
  · exact h.lookup n false name

theorem readBareWord (h : TokenInvariant E I) (previous : Token) (cs : List Char) :
    Leads E (I n) (readBareWord previous cs) fun p => I (max n (tokensBound [p.1])) := by
  have hsymbol : ∀ name rest, Leads E (I n)
      (do return (Token.symbol (← Kconfig.namedSymbol name), rest) : ReadM (Token × List Char))
      fun p => I (max n (tokensBound [p.1])) := by
    intro name rest
    refine (h.namedSymbol name).bind fun i => .pure fun r hr => ?_
    simpa [tokensBound] using hr
  unfold Kconfig.readBareWord
  extract_lets word after name
  split
  · refine .pure fun r hr => h.mono hr ?_
    simp [tokensBound]
  · refine .ite (fun _ => .ite (fun _ => ?_) fun _ => hsymbol _ _) fun _ => ?_
    · refine (h.of_settles fun _ => .readExpandedName _ _ _ _).bind fun p => ?_
      exact .ite (fun _ => (h.fail _).bind fun _ => hsymbol _ _) fun _ => hsymbol _ _
    · have htext : Leads E (I n) (pure (Token.text name, after) : ReadM _)
          fun p => I (max n (tokensBound [p.1])) := by
        refine .pure fun r hr => h.mono hr ?_
        simp [tokensBound]
      refine .ite (fun _ => ?_) fun _ => htext
      exact .get_bind' fun r => (h.of_settles fun _ => .warnHere _).bind fun _ => htext

theorem readTokens (h : TokenInvariant E I) (first : Token) (fuel : Nat) (previous : Token)
    (cs : List Char) :
    Leads E (I n) (readTokens first fuel previous cs) fun ts => I (max n (tokensBound ts)) := by
  induction fuel generalizing n previous cs with
  | zero => exact .pure fun r hr => h.mono hr (by simp [tokensBound])
  | succ fuel ih =>
    have hmore : ∀ (token : Token) (rest : List Char), Leads E (I (max n (tokensBound [token])))
        (do return token :: (← Kconfig.readTokens first fuel token rest))
        fun ts => I (max n (tokensBound ts)) := by
      intro token rest
      refine (ih token rest).bind fun ts => .pure fun r hr => h.mono hr ?_
      cases token <;> simp [tokensBound]
    cases cs with
    | nil => exact .pure fun r hr => h.mono hr (by simp [tokensBound])
    | cons c cs =>
      refine .ite (fun _ => ?_) fun _ => .ite (fun _ => ?_) fun _ => ?_
      · exact (h.readBareWord _ _).bind fun p => hmore p.1 p.2
      · refine (h.of_settles fun _ => .readText _ _).bind fun p => .ite (fun _ => ?_) fun _ => ?_
        · exact (hmore _ _).pre fun _ hr => h.mono hr (by simp [tokensBound])
        · refine (h.lookup n true _).bind fun i => ?_
          exact (hmore _ _).pre fun _ hr => h.mono hr (by simp [tokensBound])
      · refine .ite (fun _ => .pure fun r hr => h.mono hr (by simp [tokensBound])) fun _ => ?_
        split
        · rename_i token rest hoperator
          have hbound := tokensBound_of_readOperator? hoperator
          exact (hmore _ _).pre fun _ hr => h.mono hr (by simp [hbound])
        · exact h.fail _

end TokenInvariant

theorem leads_lookup (c : Bool) (name : String) :
    Leads (fun _ _ => True) (Reading.At n ss) (lookup c name)
      fun i => Reading.At (max n (i + 1)) ss := by
  refine .get_bind fun r hr => ?_
  have hlimit : (if r.isParsing then r.model.symbols.size else r.registered) =
      r.model.symbols.size := if_pos hr.isParsing
  simp only [hlimit]
  cases hfound : r.model.findSymbol? c name with
  | some i =>
    have hi := Model.lt_size_of_findSymbol? hfound
    simp only [hi]
    refine .pure fun s hs => ?_
    subst hs
    exact { hr with symbols := Nat.max_le.2 ⟨hr.symbols, hi⟩ }
  | none =>
    simp only [hr.isParsing]
    refine .bind (.modify fun s hs => ?_) fun _ => .pure fun s hs => hs
    subst hs
    exact hr.addSymbol rfl rfl rfl rfl fun hc => Model.findSymbol?_eq_none_iff.1 (hc ▸ hfound)

theorem tokenInvariant_at : TokenInvariant (fun _ _ => True) (Reading.At · ss) where
  fails _ _ := trivial
  settles hr hs := hr.of_core hs.core
  lookup _ := leads_lookup
  constant hr := { hr with symbols := Nat.max_le.2 ⟨hr.symbols, hr.wellFormed.lt_size⟩ }
  mono := Reading.At.mono

/-- The symbols of the tokens of a line are in the table. -/
theorem gives_tokenize (s : String) :
    Gives (Reading.At n ss) (tokenize s) fun ts => Reading.At (max n (tokensBound ts)) ss := by
  have hnone : Gives (Reading.At n ss) (pure [] : ReadM (List Token))
      fun ts => Reading.At (max n (tokensBound ts)) ss :=
    Leads.pure fun r hr => hr.mono (by simp [tokensBound])
  have htext : Quiet (modify fun r => { r with text := s }) := Quiet.modify fun _ => rfl
  refine htext.at.bind fun _ => ?_
  refine .ite (fun _ => .ite (fun _ => hnone) fun _ => gives_fail _) fun _ => ?_
  split
  · rename_i keyword _
    exact (tokenInvariant_at.readTokens _ _ _ _).gives.bind fun ts => .pure fun r hr => hr
  · refine .ite (fun _ => ?_) fun _ => (Quiet.assign s).at.bind fun _ => hnone
    exact .pure fun r hr => hr.mono (by simp [tokensBound])

end Buildsmith.Kconfig
