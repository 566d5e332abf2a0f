import Buildsmith.Kconfig.Expansion
import Buildsmith.Proofs.Session.Preservation

/-!
# Expansion ends

A variable counts the expansions of it that are under way, and there is room for a limited number of
them.  So calls cannot be nested without end (`settles_callValue`).  An expansion that succeeds
leaves all counts as they were; one that fails leaves the variables raised that it was in the middle
of.

Values can be put into the text in the place of their calls (`expandWhole_eq_splice`).
-/

namespace Buildsmith.Kconfig

open List

/-!
## Texts as trees of calls

A text splits into characters and calls, whose names and arguments are texts again.  Expanding it is
evaluating this tree: what comes out of a call is never looked at again (`expandText_text`).
-/

mutual

/-- A text that is split into characters and calls. -/
inductive CallText where
  | done
  | char (c : Char) (rest : CallText)
  | call (parts : CallParts) (rest : CallText)

/-- The name of a call and the arguments behind it. -/
inductive CallParts where
  | last (part : CallText)
  | more (part : CallText) (parts : CallParts)

end

mutual

def CallText.render : CallText → List Char
  | .done => []
  | .char c rest => c :: rest.render
  | .call parts rest => '$' :: '(' :: (parts.render ++ ')' :: rest.render)

def CallParts.render : CallParts → List Char
  | .last part => part.render
  | .more part parts => part.render ++ ',' :: parts.render

end

mutual

/-- Whether no character starts a call or, inside a call, ends a part of it. -/
def CallText.Fits (inside : Bool) : CallText → Prop
  | .done => True
  | .char c rest => (c = '$' → rest.render.head? ≠ some '(') ∧
      (inside = true → c ≠ ',' ∧ c ≠ ')') ∧ rest.Fits inside
  | .call parts rest => parts.Fits ∧ rest.Fits inside

def CallParts.Fits : CallParts → Prop
  | .last part => part.Fits true
  | .more part parts => part.Fits true ∧ parts.Fits

end

variable (depth : Nat) (outer : List String)

/-- The value of a call: an argument of the call around it, or else what its name stands for. -/
def callResult (call : List String) : ReadM String :=
  match (call.head?.bind fun a => Text.Integer.parse? 10 a).bind (indexed? outer) with
  | some value => return value
  | none => callValue depth call

mutual

def CallText.eval : CallText → ReadM (List Char)
  | .done => return []
  | .char c rest => return c :: (← rest.eval)
  | .call parts rest => do
    let value ← callResult depth outer (← parts.eval)
    return value.toList ++ (← rest.eval)

def CallParts.eval : CallParts → ReadM (List String)
  | .last part => return [String.ofList (← part.eval)]
  | .more part parts => return String.ofList (← part.eval) :: (← parts.eval)

end

/-! ## Expansion in place -/

/-- Puts the value of the call at `start` in its place, and tells where the value ends.  The part at
`arg` has been read up to `i`. -/
def spliceCall : Nat → List Char → Nat → Nat → Nat → List String → ReadM (List Char × Nat)
  | 0, _, _, _, _, _ => throw .unbounded
  | fuel + 1, s, start, arg, i, done => do
    let part := String.ofList ((s.take i).drop arg)
    match s.drop i with
    | [] => fail .unclosedCall
    | '$' :: '(' :: _ =>
      let (s, i) ← spliceCall fuel s i (i + 2) (i + 2) []
      spliceCall fuel s start arg i done
    | ',' :: _ => spliceCall fuel s start (i + 1) (i + 1) (part :: done)
    | ')' :: _ =>
      let value ← callResult depth outer (done.reverse ++ [part])
      return (s.take start ++ value.toList ++ s.drop (i + 1), start + value.toList.length)
    | _ => spliceCall fuel s start arg (i + 1) done

/-- Expands the calls behind `i` in a text, each in its place. -/
def spliceText : Nat → List Char → Nat → ReadM String
  | 0, _, _ => throw .unbounded
  | fuel + 1, s, i => do
    match s.drop i with
    | [] => return String.ofList s
    | '$' :: '(' :: _ =>
      let (s, i) ← spliceCall depth outer fuel s i (i + 2) (i + 2) []
      spliceText fuel s i
    | _ => spliceText fuel s (i + 1)

variable {depth outer} {fuel : Nat} {c : Char} {done : List String} {acc cur cs : List Char}

/-! ## Steps of expansion -/

theorem expandText_char (h : c = '$' → cs.head? ≠ some '(') :
    expandText depth outer (fuel + 1) acc (c :: cs) = expandText depth outer fuel (c :: acc) cs := by
  rw [expandText]
  rintro cs' rfl rfl
  exact h rfl rfl

theorem expandCall_char (h : c = '$' → cs.head? ≠ some '(') (hc : c ≠ ',' ∧ c ≠ ')') :
    expandCall depth outer (fuel + 1) done cur (c :: cs) =
      expandCall depth outer fuel done (c :: cur) cs := by
  rw [expandCall, if_neg hc.1, if_neg hc.2]
  rintro cs' rfl rfl
  exact h rfl rfl

theorem expandCall_comma : expandCall depth outer (fuel + 1) done cur (',' :: cs) =
      expandCall depth outer fuel (String.ofList cur.reverse :: done) [] cs := by
  rw [expandCall, if_pos rfl]
  simp

theorem expandCall_close : expandCall depth outer (fuel + 1) done cur (')' :: cs) =
      (·, cs) <$> callResult depth outer (done.reverse ++ [String.ofList cur.reverse]) := by
  rw [expandCall, if_neg (by decide), if_pos rfl, callResult, reverse_cons]
  · split <;> rename_i h <;> simp only [h, map_pure, bind_pure_comp]
  · simp

theorem expandCall_open : expandCall depth outer (fuel + 1) done cur ('$' :: '(' :: cs) =
      expandCall depth outer fuel [] [] cs >>= fun p =>
        expandCall depth outer fuel done (p.1.toList.reverse ++ cur) p.2 := by
  rw [expandCall]

theorem expandText_open : expandText depth outer (fuel + 1) acc ('$' :: '(' :: cs) =
      expandCall depth outer fuel [] [] cs >>= fun p =>
        expandText depth outer fuel (p.1.toList.reverse ++ acc) p.2 := by
  rw [expandText]

theorem opens_or_not (c : Char) (cs : List Char) :
    (∃ rest, c = '$' ∧ cs = '(' :: rest) ∨ (c = '$' → cs.head? ≠ some '(') := by
  by_cases h : c = '$' ∧ cs.head? = some '('
  · exact .inl ((List.head?_eq_some_iff.1 h.2).imp fun _ => .intro h.1)
  · exact .inr fun hc hcs => h ⟨hc, hcs⟩

theorem spliceCall_eq (s cs : List Char) (done : List String) {start arg : Nat} (hstart : start ≤ arg)
    (harg : arg ≤ s.length) : spliceCall depth outer fuel (s ++ cs) start arg s.length done =
      (fun p => (s.take start ++ p.1.toList ++ p.2, start + p.1.toList.length)) <$>
        expandCall depth outer fuel done (s.drop arg).reverse cs := by
  induction fuel generalizing s cs start arg done with
  | zero =>
    rw [expandCall]
    rfl
  | succ fuel ih =>
    have htake : ∀ x, (s ++ x).take start = s.take start := fun _ =>
      take_append_of_le_length (Nat.le_trans hstart harg)
    -- reading goes on behind what has been read, and behind a value that was put in place
    have hread : ∀ x cs, _ := fun x cs =>
      ih (s ++ x) cs done hstart (Nat.le_trans harg (by simp))
    simp only [drop_append_of_le_length harg, htake, length_append, append_assoc, reverse_append] at hread
    rw [spliceCall, drop_left, take_left]
    cases cs with
    | nil =>
      rw [expandCall]
      rfl
    | cons c cs =>
      obtain ⟨cs, rfl, rfl⟩ | hnext := opens_or_not c cs
      · have hcall := ih (s ++ ['$', '(']) cs [] (Nat.le_add_right s.length 2) (by simp)
        simp at hcall
        simp [expandCall_open, hcall, hread]
      by_cases hclose : c = ')'
      · simp [hclose, expandCall_close, htake]
      by_cases hcomma : c = ','
      · have hrest := ih (s ++ [',']) cs (String.ofList (s.drop arg) :: done)
          (show start ≤ s.length + 1 by omega) (by simp)
        simpa [hcomma, expandCall_comma, htake] using hrest
      · have hrest := hread [c] cs
        rw [expandCall_char hnext ⟨hcomma, hclose⟩]
        split <;> simp_all

/-- Expansion in place gives what expansion gives, from wherever it has got to. -/
theorem spliceText_eq (fuel : Nat) (s cs : List Char) :
    spliceText depth outer fuel (s ++ cs) s.length = expandText depth outer fuel s.reverse cs := by
  induction fuel generalizing s cs with
  | zero =>
    rw [expandText]
    rfl
  | succ fuel ih =>
    rw [spliceText, drop_left]
    cases cs with
    | nil => simp [expandText]
    | cons c cs =>
      obtain ⟨cs, rfl, rfl⟩ | hnext := opens_or_not c cs
      · have hcall := @spliceCall_eq depth outer fuel (s ++ ['$', '(']) cs [] _ _
          (Nat.le_add_right s.length 2) (by simp)
        have hrest := fun p : String × List Char => ih (s ++ p.1.toList) p.2
        simp at hcall hrest
        simp [expandText_open, hcall, hrest]
      · have hrest := ih (s ++ [c]) cs
        rw [expandText_char hnext]
        split <;> simp_all

theorem expandWhole_eq_splice (s : String) : expandWhole s = get >>= fun r =>
    spliceText r.depthBound [] (s.length + 1) s.toList 0 :=
  bind_congr fun _ => (spliceText_eq _ [] _).symm

/-! ## Texts that split -/

mutual

theorem expandCall_text
    {fuel : Nat} {k : List Char} (t : CallText) (ht : t.Fits true) (hk : k.head? ≠ some '(')
    (hfuel : (t.render ++ k).length < fuel) :
    ∃ fuel', k.length < fuel' ∧ ∀ done cur, expandCall depth outer fuel done cur (t.render ++ k) =
      t.eval depth outer >>= fun v => expandCall depth outer fuel' done (v.reverse ++ cur) k := by
  cases t with
  | done => exact ⟨fuel, hfuel, fun done cur => by simp [CallText.render, CallText.eval]⟩
  | char c rest =>
    obtain ⟨fuel, rfl⟩ := Nat.exists_eq_add_one_of_ne_zero (Nat.ne_zero_of_lt hfuel)
    obtain ⟨hnext, hc, hrest⟩ := ht
    obtain ⟨fuel', hlt, heq⟩ := expandCall_text rest hrest hk (Nat.lt_of_succ_lt_succ hfuel)
    refine ⟨fuel', hlt, fun done cur => ?_⟩
    have hhead : c = '$' → (rest.render ++ k).head? ≠ some '(' := fun h => by
      cases hrender : rest.render with
      | nil => exact hk
      | cons d ds => simpa [hrender] using hnext h
    rw [CallText.render, cons_append, expandCall_char hhead (hc rfl), heq]
    simp [CallText.eval]
  | call parts rest =>
    obtain ⟨fuel, rfl⟩ := Nat.exists_eq_add_one_of_ne_zero (Nat.ne_zero_of_lt hfuel)
    simp only [CallText.render, cons_append, append_assoc, length_cons] at hfuel ⊢
    have hshort : (rest.render ++ k).length < fuel := by
      rw [length_append, length_cons] at hfuel
      omega
    obtain ⟨fuel', hlt, heq⟩ := expandCall_text rest ht.2 hk hshort
    refine ⟨fuel', hlt, fun done cur => ?_⟩
    rw [expandCall_open, expandCall_parts parts ht.1 (by omega)]
    simp [CallText.eval, heq]

theorem expandCall_parts {fuel : Nat} {rest : List Char} (ps : CallParts) (hps : ps.Fits)
    (hfuel : (ps.render ++ ')' :: rest).length < fuel) (done : List String) :
    expandCall depth outer fuel done [] (ps.render ++ ')' :: rest) =
      ps.eval depth outer >>= fun args =>
        (·, rest) <$> callResult depth outer (done.reverse ++ args) := by
  cases ps with
  | last part =>
    obtain ⟨fuel', hlt, heq⟩ := expandCall_text part hps (by simp) hfuel
    obtain ⟨fuel', rfl⟩ := Nat.exists_eq_add_one_of_ne_zero (Nat.ne_zero_of_lt hlt)
    rw [CallParts.render, heq]
    simp [CallParts.eval, expandCall_close]
  | more part parts =>
    simp only [CallParts.render, append_assoc, cons_append] at hfuel ⊢
    obtain ⟨fuel', hlt, heq⟩ := expandCall_text part hps.1 (by simp) hfuel
    obtain ⟨fuel', rfl⟩ := Nat.exists_eq_add_one_of_ne_zero (Nat.ne_zero_of_lt hlt)
    rw [heq]
    simp [CallParts.eval, expandCall_comma,
      expandCall_parts parts hps.2 (Nat.lt_of_succ_lt_succ hlt)]

end

theorem expandText_text {fuel : Nat} {acc : List Char} (t : CallText) (ht : t.Fits false)
    (hfuel : t.render.length < fuel) : expandText depth outer fuel acc t.render =
      t.eval depth outer >>= fun v => return String.ofList (acc.reverse ++ v) := by
  obtain ⟨fuel, rfl⟩ := Nat.exists_eq_add_one_of_ne_zero (Nat.ne_zero_of_lt hfuel)
  cases t with
  | done => simp [CallText.render, CallText.eval, expandText]
  | char c rest =>
    rw [CallText.render, expandText_char ht.1,
      expandText_text rest ht.2.2 (Nat.lt_of_succ_lt_succ hfuel)]
    simp [CallText.eval]
  | call parts rest =>
    simp only [CallText.render, length_cons] at hfuel ⊢
    have hshort : rest.render.length < fuel := by
      rw [length_append, length_cons] at hfuel
      omega
    rw [expandText_open, expandCall_parts parts ht.1 (by omega)]
    simp [CallText.eval, expandText_text rest ht.2 hshort]

/-! ## Putting texts together -/

namespace CallParts

/-- The parts of a call with something put in front of the first one. -/
def mapFirst (f : CallText → CallText) : CallParts → CallParts
  | .last part => .last (f part)
  | .more part parts => .more (f part) parts

theorem render_mapFirst_call (ps qs : CallParts) :
    (qs.mapFirst (.call ps)).render = '$' :: '(' :: (ps.render ++ ')' :: qs.render) := by
  cases qs <;> simp [mapFirst, render, CallText.render]

theorem render_mapFirst_char (c : Char) (qs : CallParts) :
    (qs.mapFirst (.char c)).render = c :: qs.render := by
  cases qs <;> simp [mapFirst, render, CallText.render]

theorem fits_mapFirst_call {ps qs : CallParts} (hps : ps.Fits) (hqs : qs.Fits) :
    (qs.mapFirst (.call ps)).Fits := by
  cases qs with
  | last part => exact ⟨hps, hqs⟩
  | more part parts => exact ⟨⟨hps, hqs.1⟩, hqs.2⟩

theorem fits_mapFirst_char
    {qs : CallParts} {rest : List Char} (hnext : c = '$' → (qs.render ++ rest).head? ≠ some '(')
    (hc : c ≠ ',' ∧ c ≠ ')') (hqs : qs.Fits) : (qs.mapFirst (.char c)).Fits := by
  have hfirst : ∀ part : CallText, ∀ k, qs.render = part.render ++ k →
      c = '$' → part.render.head? ≠ some '(' := by
    intro part k hk h hhead
    refine hnext h ?_
    rw [hk]
    cases hrender : part.render <;> simp_all
  cases qs with
  | last part => exact ⟨hfirst part [] (by simp [render]), fun _ => hc, hqs⟩
  | more part parts => exact ⟨⟨hfirst part _ rfl, fun _ => hc, hqs.1⟩, hqs.2⟩

end CallParts

variable {α β : Type} {r₀ r r₁ : Reading} {Q Q' : α → Prop} {depth : Nat}
  {name : String} {args : List String}

/-! ## Counts of expansions -/

/-- Definitions with more expansions under way. -/
def raised (extra : String → Nat) (vs : List Variable) : List Variable :=
  vs.map fun v => { v with nesting := v.nesting + extra v.name }

def room (vs : List Variable) : Nat :=
  vs.foldr (fun v n => maxNesting + 1 - v.nesting + n) 0

theorem raised_zero (vs : List Variable) : raised (fun _ => 0) vs = vs := by
  simp [raised]

theorem raised_raised (extra more : String → Nat) (vs : List Variable) :
    raised more (raised extra vs) = raised (fun n => extra n + more n) vs := by
  simp [raised, Nat.add_assoc]

theorem room_raised_le (extra : String → Nat) (vs : List Variable) :
    room (raised extra vs) ≤ room vs := by
  induction vs with
  | nil => exact Nat.le_refl _
  | cons v vs ih =>
    simp only [room, raised, map_cons, foldr_cons] at ih ⊢
    omega

variable {v : Variable} {vs : List Variable} {x : ReadM α}

theorem room_raised_lt {extra : String → Nat} (hv : v ∈ vs) (hroom : v.nesting ≤ maxNesting)
    (hextra : extra v.name ≠ 0) : room (raised extra vs) < room vs := by
  induction hv with
  | head vs =>
    have hle := room_raised_le extra vs
    simp only [room, raised, map_cons, foldr_cons] at hle ⊢
    omega
  | tail w _ ih =>
    simp only [room, raised, map_cons, foldr_cons] at ih ⊢
    omega

theorem room_lt_depthBound (r : Reading) : room r.definitions < r.depthBound := by
  rw [Reading.depthBound, Nat.lt_succ_iff]
  induction r.definitions with
  | nil => exact Nat.zero_le _
  | cons v vs ih =>
    simp only [room, foldr_cons, length_cons, Nat.mul_succ] at ih ⊢
    omega

/-! ## What expansion leaves -/

namespace Reading

/-- The part of a state that statements build: the model, the tokens that are kept, and whether new
names enter the model for good. -/
def core (r : Reading) : Model × Option (List Token) × Bool :=
  (r.model, r.pending, r.isParsing)

/-- Whether a state is like another one in all that functions leave alone. -/
structure Like (r₀ r : Reading) : Prop where
  core : r.core = r₀.core
  definitions : r.definitions = r₀.definitions
  file : r.file = r₀.file
  hasUserFunctions : r.hasUserFunctions = r₀.hasUserFunctions

theorem Like.refl (r : Reading) : r.Like r := ⟨rfl, rfl, rfl, rfl⟩

/-- What expansion may fail with: what is wrong with the description, a variable that has no value
yet, the name of the file where none is read, or a function of the user that fails. -/
inductive Raises (r : Reading) : Fault → Prop where
  | line (place : Option (String × Nat)) (text : String) (p : Problem) : r.Raises (.line place text p)
  | argumentCount (file : Option String) (n : Nat) (name expected : String) (got : Nat) :
    r.Raises (.argumentCount file n name expected got)
  | raised (file : Option String) (n : Nat) (text : String) : r.Raises (.raised file n text)
  | malformedText (fault : Text.DecodeFault) (origin : TextOrigin) :
    r.Raises (.malformedText fault origin)
  | inapplicable (v : Variable) (hv : v ∈ r.definitions) (h : v.value = none) : r.Raises .inapplicable
  | noFile (h : r.file = none) : r.Raises .noFile
  | badNumber (h : r.hasUserFunctions = true) : r.Raises .badNumber

structure Leaves (r₀ : Reading) (f : Fault) (r : Reading) : Prop where
  raises : r₀.Raises f
  core : r.core = r₀.core
  counts : ∃ extra, r.definitions = raised extra r₀.definitions

theorem Like.leaves {f : Fault} (h : r₀.Like r) (hf : r₀.Raises f) : r₀.Leaves f r :=
  ⟨hf, h.core, fun _ => 0, h.definitions.trans (raised_zero _).symm⟩

end Reading

/-- Whether a computation that starts in a state like the given one gives a result with a property and
leaves the state like it, or else fails as expansion may fail. -/
abbrev Settles (r₀ : Reading) (x : ReadM α) (Q : α → Prop) : Prop :=
  Leads r₀.Leaves r₀.Like x fun a r => r₀.Like r ∧ Q a

namespace Settles

theorem pure {a : α} (h : Q a) : Settles r₀ (Pure.pure a) Q := Leads.pure fun _ hr => ⟨hr, h⟩

theorem throw {f : Fault} (h : r₀.Raises f) : Settles r₀ (throw f) Q := Leads.throw fun _ hr => hr.leaves h

variable {x : ReadM α} {cs : List Char} {fuel : Nat}

theorem bind {f : α → ReadM β} {R : β → Prop} (hx : Settles r₀ x Q)
    (hf : ∀ a, Q a → Settles r₀ (f a) R) : Settles r₀ (x >>= f) R :=
  Leads.bind hx fun a => .and_right (hf a)

theorem mono (hx : Settles r₀ x Q) (h : ∀ a, Q a → Q' a) : Settles r₀ x Q' :=
  Leads.mono hx (fun _ => id) fun a _ => And.imp_right (h a)

theorem modify {g : Reading → Reading} (h : ∀ r, r₀.Like r → r₀.Like (g r)) :
    Settles r₀ (modify g : ReadM PUnit) fun _ => True :=
  Leads.modify fun r hr => ⟨h r hr, trivial⟩

theorem get_bind {f : Reading → ReadM α}
    (h : ∀ r, r₀.Like r → Leads r₀.Leaves (· = r) (f r) fun a r => r₀.Like r ∧ Q a) :
    Settles r₀ (get >>= f) Q :=
  Leads.get_bind h

theorem at_ (hr : r₀.Like r) (hx : Settles r₀ x Q) :
    Leads r₀.Leaves (· = r) x fun a r => r₀.Like r ∧ Q a :=
  Leads.mono hx (fun _ h => h ▸ hr) fun _ _ => id

theorem set_bind {f : PUnit → ReadM α} (hr : r₀.Like r₁) (hf : Settles r₀ (f ⟨⟩) Q) :
    Leads r₀.Leaves (· = r) (set r₁ >>= f) fun a r => r₀.Like r ∧ Q a :=
  ⟨fun _ _ => hf.run r₁ hr⟩

theorem fail (p : Problem) : Settles r₀ (fail p : ReadM α) Q :=
  get_bind fun _ hr => at_ hr (throw (.line _ _ _))

theorem warnHere (text : String) : Settles r₀ (warnHere text) fun _ => True := by
  refine modify fun r hr => ?_
  have hlog : ∀ text, r₀.Like (r.log text) := by
    intro text
    unfold Reading.log
    split
    · exact ⟨hr.core, hr.definitions, hr.file, hr.hasUserFunctions⟩
    · exact hr
  split <;> exact hlog _

/-! ## Functions -/

theorem shellValue (command : String) : Settles r₀ (shellValue command) fun _ => True := by
  refine get_bind fun r hr => set_bind { hr with } ?_
  extract_lets decoded
  have hdecoded : ∀ bytes, Settles r₀ (decoded bytes) fun _ => True := by
    intro bytes
    unfold decoded
    split
    · exact pure trivial
    · exact throw (.malformedText _ _)
  refine (hdecoded _).bind fun out _ => (hdecoded _).bind fun err _ => ?_
  exact .ite (fun _ => pure trivial) fun _ => (warnHere _).bind fun _ _ => pure trivial

theorem addAll (h : r₀.hasUserFunctions) (args : List String) :
    Settles r₀ (addAll args) fun _ => True := by
  refine .ite (fun _ => ?_) fun _ => throw (.badNumber h)
  split
  · exact pure trivial
  · exact throw (.badNumber h)

theorem functionValue (h : arity? r₀.hasUserFunctions name ≠ none) (args : List String) :
    Settles r₀ (functionValue name args) fun _ => True := by
  refine get_bind fun r hr => ?_
  split
  · exact set_bind { hr with } (pure trivial)
  · exact at_ hr (.ite (fun _ => throw (.raised _ _ _)) fun _ => pure trivial)
  · split
    · exact at_ hr (pure trivial)
    · exact at_ hr (throw (.noFile (hr.file.symm.trans ‹_›)))
  · exact at_ hr (pure trivial)
  · exact at_ hr (shellValue _)
  · exact at_ hr (.ite (fun _ => (warnHere _).bind fun _ _ => pure trivial) fun _ => pure trivial)
  · refine at_ hr (addAll ?_ _)
    cases hno : r₀.hasUserFunctions with
    | true => rfl
    | false => simp [arity?, hno] at h
  all_goals exact at_ hr (pure trivial)

theorem otherValue (name : String) (args : List String) :
    Settles r₀ (otherValue name args) fun _ => True := by
  refine get_bind fun r hr => ?_
  split
  · rename_i harity
    refine at_ hr (.ite (fun _ => throw (.argumentCount _ _ _ _ _)) fun _ => functionValue ?_ args)
    rw [← hr.hasUserFunctions, harity]
    nofun
  · split
    · exact set_bind { hr with } (pure trivial)
    · exact at_ hr (pure trivial)

/-! ## Calls -/

theorem length_lt_of_render {ps : CallParts} {rest : List Char} (h : ps.render ++ ')' :: rest = cs)
    (hfuel : ('(' :: cs).length < fuel) : rest.length < fuel := by
  simp [← h] at hfuel
  omega

variable (hcall : ∀ call, Settles r₀ (callValue depth call) fun _ => True)
  (outer : List String)

include hcall

theorem callResult (call : List String) : Settles r₀ (callResult depth outer call) fun _ => True := by
  unfold Kconfig.callResult
  split
  · exact pure trivial
  · exact hcall call

theorem expandCall (hfuel : cs.length < fuel) (done : List String) (cur : List Char) :
    Settles r₀ (expandCall depth outer fuel done cur cs)
      fun p => ∃ ps : CallParts, ps.Fits ∧ ps.render ++ ')' :: p.2 = cs := by
  induction fuel generalizing done cur cs with
  | zero => cases hfuel
  | succ fuel ih =>
    cases cs with
    | nil =>
      rw [Kconfig.expandCall]
      exact fail _
    | cons c cs =>
      have hshort : cs.length < fuel := Nat.lt_of_succ_lt_succ hfuel
      obtain ⟨cs, rfl, rfl⟩ | hnext := opens_or_not c cs
      · rw [expandCall_open]
        refine (ih (Nat.lt_of_succ_lt hshort) _ _).bind ?_
        rintro p ⟨ps, hps, hcs⟩
        refine (ih (length_lt_of_render hcs hshort) _ _).mono ?_
        rintro q ⟨qs, hqs, hrest⟩
        refine ⟨qs.mapFirst (.call ps), CallParts.fits_mapFirst_call hps hqs, ?_⟩
        simp [CallParts.render_mapFirst_call, ← hcs, ← hrest]
      by_cases hclose : c = ')'
      · rw [hclose, expandCall_close]
        exact (callResult hcall outer _).bind fun _ _ => pure ⟨.last .done, trivial, rfl⟩
      by_cases hcomma : c = ','
      · rw [hcomma, expandCall_comma]
        refine (ih hshort _ _).mono ?_
        rintro p ⟨ps, hps, hcs⟩
        refine ⟨.more .done ps, ⟨trivial, hps⟩, ?_⟩
        rw [← hcs]
        rfl
      · rw [expandCall_char hnext ⟨hcomma, hclose⟩]
        refine (ih hshort _ _).mono ?_
        rintro p ⟨ps, hps, hcs⟩
        refine ⟨ps.mapFirst (.char c), ?_, ?_⟩
        · exact CallParts.fits_mapFirst_char (hcs ▸ hnext) ⟨hcomma, hclose⟩ hps
        · rw [CallParts.render_mapFirst_char, cons_append, hcs]

theorem expandText (hfuel : cs.length < fuel) (acc : List Char) :
    Settles r₀ (expandText depth outer fuel acc cs)
      fun _ => ∃ t : CallText, t.Fits false ∧ t.render = cs := by
  induction fuel generalizing acc cs with
  | zero => cases hfuel
  | succ fuel ih =>
    cases cs with
    | nil =>
      rw [Kconfig.expandText]
      exact pure ⟨.done, trivial, rfl⟩
    | cons c cs =>
      have hshort : cs.length < fuel := Nat.lt_of_succ_lt_succ hfuel
      obtain ⟨cs, rfl, rfl⟩ | hnext := opens_or_not c cs
      · rw [expandText_open]
        refine (expandCall hcall outer (Nat.lt_of_succ_lt hshort) _ _).bind ?_
        rintro p ⟨ps, hps, hcs⟩
        refine (ih (length_lt_of_render hcs hshort) _).mono ?_
        rintro _ ⟨t, ht, hrest⟩
        exact ⟨.call ps t, ⟨hps, ht⟩, by rw [← hcs, ← hrest]; rfl⟩
      rw [expandText_char hnext]
      refine (ih hshort _).mono ?_
      rintro _ ⟨t, ht, hcs⟩
      exact ⟨.char c t, ⟨hcs ▸ hnext, by simp, ht⟩, by rw [← hcs]; rfl⟩

end Settles

/-! ## Variables -/

def Variable.refusal? (v : Variable) (name : String) (args : List String) : Option Problem :=
  if args.isEmpty then if v.nesting ≠ 0 then some (.recursiveVariable name) else none
  else if v.nesting > maxNesting then some (.stuckFunction name) else none

def Variable.expand (v : Variable) (depth : Nat) (name : String) (args : List String) :
    ReadM String := do
  modify fun r => r.modifyVariable name fun v => { v with nesting := v.nesting + 1 }
  match v.value with
  | none => throw .inapplicable
  | some body =>
    let value ← expandText depth (name :: args) (body.length + 1) [] body.toList
    modify fun r => r.modifyVariable name fun v => { v with nesting := v.nesting - 1 }
    return value

def Variable.call (v : Variable) (depth : Nat) (name : String) (args : List String) :
    ReadM String :=
  (v.refusal? name args).elim (v.expand depth name args) fail

theorem callValue_eq (depth : Nat) (name : String) (args : List String) :
    callValue (depth + 1) (name :: args) = get >>= fun r =>
      (r.findVariable? name).elim (otherValue name args) (·.call depth name args) := by
  unfold callValue
  refine bind_congr fun r => ?_
  cases r.findVariable? name with
  | none => rfl
  | some v =>
    dsimp only [Option.elim_some]
    unfold Variable.call Variable.refusal?
    split
    · split <;> rfl
    · split <;> rfl

def once (name : String) : String → Nat := fun n => if n = name then 1 else 0

theorem definitions_raise (r : Reading) (name : String) :
    (r.modifyVariable name fun v => { v with nesting := v.nesting + 1 }).definitions =
      raised (once name) r.definitions := by
  refine map_congr_left fun v _ => ?_
  by_cases h : v.name = name <;> simp [once, h]

theorem definitions_lower (h : r.definitions = raised (once name) vs) :
    (r.modifyVariable name fun v => { v with nesting := v.nesting - 1 }).definitions = vs := by
  rw [Reading.modifyVariable, h, raised, map_map]
  refine map_id'' (fun v => ?_) vs
  by_cases h : v.name = name
  · subst h
    simp [once]
  · simp [once, h]

theorem leads_expand (hr : r₀.Like r) (hv : v ∈ r₀.definitions)
    (hcall : ∀ r₁ : Reading, r₁.definitions = raised (once name) r₀.definitions →
      ∀ call, Settles r₁ (callValue depth call) fun _ => True) :
    Leads (fun f r' => r₀.Raises f ∧ r'.core = r₀.core ∧
        ∃ extra, extra name ≠ 0 ∧ r'.definitions = raised extra r₀.definitions)
      (· = r) (v.expand depth name args) fun _ r => r₀.Like r ∧ True := by
  have hraised := (definitions_raise r name).trans (by rw [hr.definitions])
  generalize hr₁ : r.modifyVariable name _ = r₁ at hraised
  have hcore : r₁.core = r₀.core := hr₁ ▸ hr.core
  have hfile : r₁.file = r₀.file := hr₁ ▸ hr.file
  have huser : r₁.hasUserFunctions = r₀.hasUserFunctions := hr₁ ▸ hr.hasUserFunctions
  have hone : once name name ≠ 0 := by simp [once]
  refine .bind (.modify (R := fun _ s => s = r₁) fun s hs => hs ▸ hr₁) fun _ => ?_
  cases hvalue : v.value with
  | none =>
    refine .throw fun s hs => ?_
    rw [hs]
    exact ⟨.inapplicable v hv hvalue, hcore, _, hone, hraised⟩
  | some body =>
    have hbody := Settles.expandText (hcall r₁ hraised) (name :: args)
      (Nat.lt_succ_self body.toList.length) []
    refine .bind (.imp (Settles.at_ (.refl r₁) hbody) ?_ fun _ _ => And.left) fun value => ?_
    · intro f s hs
      obtain ⟨extra, hextra⟩ := hs.counts
      rw [hraised, raised_raised] at hextra
      refine ⟨?_, hs.core.trans hcore, _, ?_, hextra⟩
      · cases hs.raises with
        | inapplicable w hw hnone =>
          rw [hraised, raised, mem_map] at hw
          obtain ⟨w, hw, rfl⟩ := hw
          exact .inapplicable w hw hnone
        | noFile hnone => exact .noFile (hfile.symm.trans hnone)
        | badNumber hyes => exact .badNumber (huser.symm.trans hyes)
        | _ => constructor
      · exact fun h => hone (Nat.add_eq_zero_iff.1 h).1
    · refine .bind (.modify fun s hs => ?_) fun _ => .pure fun _ => id
      exact ⟨⟨hs.core.trans hcore, definitions_lower (hs.definitions.trans hraised),
        hs.file.trans hfile, hs.hasUserFunctions.trans huser⟩, trivial⟩

theorem mem_of_findVariable? (h : r.findVariable? name = some v) :
    v ∈ r.definitions ∧ v.name = name :=
  ⟨mem_of_find?_eq_some h, by simpa using List.find?_some h⟩

theorem Variable.le_of_refusal? (h : v.refusal? name args = none) : v.nesting ≤ maxNesting := by
  unfold refusal? at h
  split at h <;> split at h <;> simp_all

/-- Calls settle where they can be nested more deeply than there is room for expansions. -/
theorem settles_callValue (hroom : room r₀.definitions < depth) (call : List String) :
    Settles r₀ (callValue depth call) fun _ => True := by
  induction depth generalizing r₀ call with
  | zero => cases hroom
  | succ depth ih =>
    cases call with
    | nil =>
      unfold callValue
      exact .pure trivial
    | cons name args =>
      rw [callValue_eq]
      refine .get_bind fun r hr => ?_
      cases hfound : r.findVariable? name with
      | none => exact Settles.at_ hr (.otherValue name args)
      | some v =>
        rw [Option.elim_some, Variable.call]
        cases hrefusal : v.refusal? name args with
        | some p => exact Settles.at_ hr (.fail p)
        | none =>
          obtain ⟨hv, rfl⟩ := mem_of_findVariable? hfound
          rw [hr.definitions] at hv
          refine (leads_expand hr hv fun r₁ hr₁ call => ih ?_ call).imp ?_ fun _ _ => id
          · have hlt := room_raised_lt hv (Variable.le_of_refusal? hrefusal)
              (by simp [once] : once v.name v.name ≠ 0)
            rw [hr₁]
            omega
          · rintro f s ⟨hraises, hcore, extra, -, hextra⟩
            exact ⟨hraises, hcore, extra, hextra⟩

/-! ## Whole expansions -/

/-- Whether a computation gives a result or fails as expansion may fail. -/
def Reading.Ends (r : Reading) (x : ReadM α) : Prop :=
  (∃ a r', runFrom x r = (.ok a, r')) ∨ ∃ f r', runFrom x r = (.error f, r') ∧ r.Raises f

theorem Settles.cases (hx : Settles r x Q) : (∃ a r', runFrom x r = (.ok a, r') ∧ Q a) ∨
      ∃ f r', runFrom x r = (.error f, r') ∧ r.Raises f :=
  (Leads.cases hx (.refl r)).imp (fun ⟨a, r', hrun, ha⟩ => ⟨a, r', hrun, ha.2⟩)
    fun ⟨f, r', hrun, hf⟩ => ⟨f, r', hrun, hf.raises⟩

theorem Settles.ends (hx : Settles r x Q) : r.Ends x :=
  hx.cases.imp_left fun ⟨a, r', hrun, _⟩ => ⟨a, r', hrun⟩

variable (r : Reading) (outer : List String) (cs : List Char)

theorem settles_expandText : Settles r (expandText r.depthBound outer (cs.length + 1) [] cs)
      fun _ => ∃ t : CallText, t.Fits false ∧ t.render = cs :=
  .expandText (settles_callValue (room_lt_depthBound r)) outer (Nat.lt_succ_self _) []

theorem settles_expandCall : Settles r (expandCall r.depthBound outer (cs.length + 1) [] [] cs)
      fun p => ∃ ps : CallParts, ps.Fits ∧ ps.render ++ ')' :: p.2 = cs :=
  .expandCall (settles_callValue (room_lt_depthBound r)) outer (Nat.lt_succ_self _) [] []

theorem Reading.Like.depthBound_eq {r : Reading} (h : r₀.Like r) : r.depthBound = r₀.depthBound := by
  rw [depthBound, h.definitions, depthBound]

namespace Settles

theorem expandWhole (s : String) : Settles r₀ (expandWhole s) fun _ => True := by
  refine get_bind fun r hr => at_ hr ?_
  rw [hr.depthBound_eq]
  exact (settles_expandText r₀ [] s.toList).mono fun _ _ => trivial

theorem expandOne (cs : List Char) : Settles r₀ (expandOne cs) fun _ => True := by
  refine get_bind fun r hr => at_ hr ?_
  rw [hr.depthBound_eq]
  exact (settles_expandCall r₀ [] cs).mono fun _ _ => trivial

end Settles

/-- Whatever variables are defined, expanding a text or a call, and calling a name, give a result or
fail with what is wrong in the description, unless a variable has no value yet, the name of the file
is asked for where none is read, or a function of the user fails. -/
theorem expansion_ends (call : List String) :
    r.Ends (expandText r.depthBound outer (cs.length + 1) [] cs) ∧
    r.Ends (expandCall r.depthBound outer (cs.length + 1) [] [] cs) ∧
    r.Ends (callValue r.depthBound call) :=
  ⟨(settles_expandText r outer cs).ends, (settles_expandCall r outer cs).ends,
    (settles_callValue (room_lt_depthBound r) call).ends⟩

/-- Counts an expansion of a variable while its value is found out. -/
def counting (name : String) (x : ReadM String) : ReadM String := do
  modify fun r => r.modifyVariable name fun v => { v with nesting := v.nesting + 1 }
  let value ← x
  modify fun r => r.modifyVariable name fun v => { v with nesting := v.nesting - 1 }
  return value

/-- A text that splits into characters and calls expands to the value of this tree, whatever comes out
of its calls.  A name stands for the value of the tree of a variable's text, among the arguments of
the call, unless the variable is refused, and else for what functions and the environment give.  In
any other text a call has no end, and expansion fails. -/
theorem expandText_callText :
    (∀ t : CallText, t.Fits false → ∀ depth,
      expandText depth outer (t.render.length + 1) [] t.render =
        String.ofList <$> t.eval depth outer) ∧
    (∀ depth name args, callValue (depth + 1) (name :: args) = get >>= fun r =>
      (r.findVariable? name).elim (otherValue name args) (·.call depth name args)) ∧
    (∀ (v : Variable) (t : CallText), t.Fits false → v.value = some (String.ofList t.render) →
      ∀ depth name args, v.call depth name args = (v.refusal? name args).elim
        (counting name (String.ofList <$> t.eval depth (name :: args))) fail) ∧
    ((∀ t : CallText, t.Fits false → t.render ≠ cs) →
      ∃ f r', runFrom (expandText r.depthBound outer (cs.length + 1) [] cs) r = (.error f, r') ∧
        r.Raises f) := by
  have htext : ∀ t : CallText, t.Fits false → ∀ depth outer,
      expandText depth outer (t.render.length + 1) [] t.render =
        String.ofList <$> t.eval depth outer := by
    intro t ht depth outer
    rw [expandText_text t ht (Nat.lt_succ_self _)]
    simp
  refine ⟨fun t ht depth => htext t ht depth outer, callValue_eq, fun v t ht hvalue depth name args => ?_,
    fun hcs => ?_⟩
  · rw [Variable.call, Variable.expand, hvalue, counting]
    simp only [String.toList_ofList, String.length_ofList, htext t ht]
  · obtain ⟨_, _, _, t, ht, hrender⟩ | hfails := (settles_expandText r outer cs).cases
    · exact absurd hrender (hcs t ht)
    · exact hfails

/-- A value with all that is written around calls is taken as it is, and a call without an end is
refused. -/
theorem expandText_callText_literal :
    let r : Reading := { workspace := { env := [("X", "$(Y),)")] } }
    (runFrom (expandText r.depthBound [] 5 [] ['$', '(', 'X', ')']) r).1.toOption = some "$(Y),)" ∧
      ∃ f r', runFrom (expandText r.depthBound [] 4 [] ['$', '(', 'a']) r = (.error f, r') ∧
        r.Raises f := by
  intro r
  obtain ⟨htext, hcall, -, -⟩ := expandText_callText r [] ['$', '(', 'X', ')']
  constructor
  · have hvalue : expandText r.depthBound [] 5 [] ['$', '(', 'X', ')'] =
        String.ofList <$> CallText.eval 1 [] (.call (.last (.char 'X' .done)) .done) :=
      htext (.call (.last (.char 'X' .done)) .done) (by simp [CallText.Fits, CallParts.Fits]) 1
    have heval : CallText.eval 1 [] (.call (.last (.char 'X' .done)) .done) =
        callValue 1 ["X"] >>= fun value => pure (value.toList ++ []) := by
      simp only [CallText.eval, CallParts.eval, pure_bind]
      rfl
    rw [hvalue, heval, hcall]
    rfl
  · refine (expandText_callText r [] ['$', '(', 'a']).2.2.2 fun t ht hrender => ?_
    cases t with
    | done => cases hrender
    | char c rest =>
      obtain ⟨rfl, hrest⟩ := List.cons.inj hrender
      exact ht.1 rfl (by rw [hrest]; rfl)
    | call parts rest =>
      have hclose : ')' ∈ parts.render ++ ')' :: rest.render := by simp
      rw [(List.cons.inj (List.cons.inj hrender).2).2] at hclose
      cases hclose with
      | tail _ h => cases h

end Buildsmith.Kconfig
