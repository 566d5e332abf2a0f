import Buildsmith.Kconfig.Statement
import Buildsmith.Proofs.Session.Preservation

/-!
# The grammar of conditions

A sentence of the grammar consists of the tokens of a derivation.  Reading accepts exactly the
sentences, each of which has one derivation, and gives the condition of that derivation
(`condition_of_tokens`).
-/

namespace Buildsmith.Kconfig

open List

/-- Derivations of factors (rank 0), of terms (rank 1) and of conditions (rank 2). -/
inductive Derivation : Nat → Type
  | symbol (a : SymbolId) : Derivation 0
  | relation (r : Relation) (a b : SymbolId) : Derivation 0
  | not (f : Derivation 0) : Derivation 0
  | group (e : Derivation 2) : Derivation 0
  | one {n : Nat} (d : Derivation n) : Derivation (n + 1)
  | more {n : Nat} (d : Derivation n) (rest : Derivation (n + 1)) : Derivation (n + 1)

/-- The operator between what has a rank. -/
def joint : Nat → Token
  | 0 => .and
  | _ => .or

def joined : Nat → Expr → Expr → Expr
  | 0 => .and
  | _ => .or

namespace Derivation

def tokens {n : Nat} : Derivation n → List Token
  | symbol a => [.symbol a]
  | relation r a b => [.symbol a, .relation r, .symbol b]
  | not f => .not :: f.tokens
  | group e => .open :: (e.tokens ++ [.close])
  | one d => d.tokens
  | @more n d rest => d.tokens ++ joint n :: rest.tokens

/-- The condition of a derivation.  Operators group to the right, and an `m` that is not compared
stands for `m && MODULES`. -/
def condition {n : Nat} : Derivation n → Expr
  | symbol a =>
    if a = SymbolId.mod then .and (.symbol SymbolId.mod) (.symbol SymbolId.modules) else .symbol a
  | relation r a b => .rel r a b
  | not f => .not f.condition
  | group e => e.condition
  | one d => d.condition
  | @more n d rest => joined n d.condition rest.condition

end Derivation

def parseRank : Nat → Nat → List Token → Except Problem (Expr × List Token)
  | 0 => parseFactor true
  | 1 => parseTerm true
  | _ => parseExpr true

variable {n fuel : Nat} {ts : List Token}

theorem parseRank_succ (hn : n < 2) (fuel : Nat) (ts : List Token) :
    parseRank (n + 1) (fuel + 1) ts = (do
      let (a, ts) ← parseRank n fuel ts
      if ts.head? = some (joint n) then
        let (b, ts) ← parseRank (n + 1) fuel ts.tail
        return (joined n a b, ts)
      else return (a, ts)) := by
  obtain rfl | rfl : n = 0 ∨ n = 1 := by omega
  all_goals
    refine congrArg _ (funext fun p => ?_)
    rcases p with ⟨a, _ | ⟨t, ts⟩⟩
    · rfl
    · cases t <;> rfl

/-! ## Sentences are read -/

/-- The rank of what a token may follow on, and more. -/
def Token.binding : Token → Nat
  | .relation _ => 0
  | .and => 1
  | .or => 2
  | _ => 3

/-- Whether tokens do not go on with something that belongs to what has a rank. -/
def Stops (n : Nat) (ts : List Token) : Prop := ∀ t ∈ ts.head?, n < t.binding

theorem stops_joint (hn : n < 2) (ts : List Token) : Stops n (joint n :: ts) := by
  obtain rfl | rfl : n = 0 ∨ n = 1 := by omega
  all_goals simp [Stops, joint, Token.binding]

theorem not_stops_joint (hn : n < 2) (ts : List Token) : ¬Stops (n + 1) (joint n :: ts) := by
  obtain rfl | rfl : n = 0 ∨ n = 1 := by omega
  all_goals simp [Stops, joint, Token.binding]

theorem Stops.of_succ (h : Stops (n + 1) ts) : Stops n ts :=
  fun t ht => Nat.lt_of_succ_lt (h t ht)

theorem stops_close : Stops 2 (.close :: ts) := by simp [Stops, Token.binding]

theorem parseFactor_symbol {a : SymbolId} {rest : List Token} (hrest : Stops 0 rest) :
    parseFactor true (fuel + 1) (.symbol a :: rest) =
      .ok ((Derivation.symbol a).condition, rest) := by
  rw [parseFactor, Derivation.condition]
  · split <;> simp_all
  · rintro r ts rfl
    exact absurd (hrest _ rfl) (Nat.lt_irrefl 0)

namespace Derivation

variable {n : Nat} {rest : List Token}

theorem parseRank_tokens (d : Derivation n) (hn : n ≤ 2) (hrest : Stops n rest) {fuel : Nat}
    (hfuel : 3 * d.tokens.length + n < fuel) :
    parseRank n fuel (d.tokens ++ rest) = .ok (d.condition, rest) := by
  obtain ⟨fuel, rfl⟩ := Nat.exists_eq_add_one_of_ne_zero (Nat.ne_of_gt (Nat.zero_lt_of_lt hfuel))
  induction d generalizing rest fuel with
  | symbol a => exact parseFactor_symbol hrest
  | relation r a b => rfl
  | not f ih =>
    rw [tokens, length_cons] at hfuel
    obtain ⟨fuel, rfl⟩ := Nat.exists_eq_add_one_of_ne_zero (n := fuel) (by omega)
    show (parseRank 0 (fuel + 1) (f.tokens ++ rest) >>= _) = _
    rw [ih hn hrest fuel (by omega)]
    rfl
  | group e ih =>
    rw [tokens, length_cons, length_append] at hfuel
    obtain ⟨fuel, rfl⟩ := Nat.exists_eq_add_one_of_ne_zero (n := fuel) (by omega)
    rw [tokens, cons_append, append_assoc]
    show (parseRank 2 (fuel + 1) (e.tokens ++ .close :: rest) >>= _) = _
    rw [ih (Nat.le_refl 2) stops_close fuel (by omega)]
    rfl
  | one d ih =>
    rw [tokens] at hfuel ⊢
    obtain ⟨fuel, rfl⟩ := Nat.exists_eq_add_one_of_ne_zero (n := fuel) (by omega)
    rw [parseRank_succ hn, ih (Nat.le_of_succ_le hn) hrest.of_succ fuel (by omega)]
    refine if_neg fun h => ?_
    cases rest with
    | nil => cases h
    | cons t rest => exact not_stops_joint hn rest (Option.some.inj h ▸ hrest)
  | more d ds ih ih' =>
    rw [tokens, length_append, length_cons] at hfuel
    obtain ⟨fuel, rfl⟩ := Nat.exists_eq_add_one_of_ne_zero (n := fuel) (by omega)
    rw [tokens, append_assoc, cons_append, parseRank_succ hn,
      ih (Nat.le_of_succ_le hn) (stops_joint hn _) fuel (by omega)]
    refine (if_pos rfl).trans ?_
    show (parseRank _ (fuel + 1) (ds.tokens ++ _) >>= _) = _
    rw [ih' hn hrest fuel (by omega)]
    rfl

/-! ## Sentences have one derivation -/

theorem tokens_inj {d d' : Derivation n} (hn : n ≤ 2) {rest' : List Token} (hrest : Stops n rest)
    (hrest' : Stops n rest') (h : d.tokens ++ rest = d'.tokens ++ rest') :
    d = d' ∧ rest = rest' := by
  induction d generalizing rest rest' with
  | symbol a =>
    cases d' with
    | symbol a' =>
      cases h
      exact ⟨rfl, rfl⟩
    | relation r a' b =>
      cases h
      exact absurd (hrest _ rfl) (Nat.lt_irrefl 0)
    | _ => cases h
  | relation r a b =>
    cases d' with
    | symbol a' =>
      cases h
      exact absurd (hrest' _ rfl) (Nat.lt_irrefl 0)
    | relation r' a' b' =>
      cases h
      exact ⟨rfl, rfl⟩
    | _ => cases h
  | not f ih =>
    cases d' with
    | not f' =>
      obtain ⟨rfl, rfl⟩ := ih hn hrest hrest' (List.cons.inj h).2
      exact ⟨rfl, rfl⟩
    | _ => cases h
  | group e ih =>
    cases d' with
    | group e' =>
      have hgroup : e.tokens ++ ([.close] ++ rest) = e'.tokens ++ ([.close] ++ rest') := by
        rw [← append_assoc, ← append_assoc]
        exact (List.cons.inj h).2
      obtain ⟨rfl, hclose⟩ := ih (Nat.le_refl 2) stops_close stops_close hgroup
      exact ⟨rfl, (List.cons.inj hclose).2⟩
    | _ => cases h
  | one d ih =>
    cases d' with
    | one d' =>
      obtain ⟨rfl, rfl⟩ := ih (Nat.le_of_succ_le hn) hrest.of_succ hrest'.of_succ h
      exact ⟨rfl, rfl⟩
    | more d' ds' =>
      rw [tokens, tokens, append_assoc] at h
      obtain ⟨rfl, rfl⟩ := ih (Nat.le_of_succ_le hn) hrest.of_succ (stops_joint hn _) h
      exact absurd hrest (not_stops_joint hn _)
  | more d ds ih ih' =>
    rw [tokens, append_assoc] at h
    cases d' with
    | one d' =>
      obtain ⟨rfl, rfl⟩ := ih (Nat.le_of_succ_le hn) (stops_joint hn _) hrest'.of_succ h
      exact absurd hrest' (not_stops_joint hn _)
    | more d' ds' =>
      rw [tokens, append_assoc] at h
      obtain ⟨rfl, hds⟩ := ih (Nat.le_of_succ_le hn) (stops_joint hn _) (stops_joint hn _) h
      obtain ⟨rfl, rfl⟩ := ih' hn hrest hrest' (List.cons.inj hds).2
      exact ⟨rfl, rfl⟩

end Derivation

/-! ## Only sentences are read -/

/-- Whether the outcome of reading tokens is the condition of a derivation at their start, or one of
the problems that a condition can have. -/
def IsReading (n : Nat) (ts : List Token) : Except Problem (Expr × List Token) → Prop
  | .ok (e, rest) => ∃ d : Derivation n, ts = d.tokens ++ rest ∧ e = d.condition
  | .error p => p = .malformedExpression ∨ p = .expectedSymbol

theorem IsReading.bind {k : Nat} {ts' : List Token} {x : Except Problem (Expr × List Token)}
    {f : Expr × List Token → Except Problem (Expr × List Token)} (hx : IsReading n ts x)
    (hf : ∀ (d : Derivation n) rest, ts = d.tokens ++ rest →
      IsReading k ts' (f (d.condition, rest))) : IsReading k ts' (x >>= f) := by
  rcases x with p | ⟨e, rest⟩
  · exact hx
  · obtain ⟨d, hts, rfl⟩ := hx
    exact hf d rest hts

theorem isReading_factor (ih : ∀ n ≤ 2, ∀ ts, IsReading n ts (parseRank n fuel ts))
    (ts : List Token) : IsReading 0 ts (parseFactor true (fuel + 1) ts) := by
  unfold parseFactor
  split
  · exact .inl rfl
  · rename_i a r ts _
    split
    · rename_i b ts
      exact ⟨.relation r a b, rfl, rfl⟩
    · exact .inr rfl
  · rename_i a ts _ _
    split <;> rename_i ha
    · exact ⟨.symbol a, rfl, (if_pos (by simpa using ha)).symm⟩
    · exact ⟨.symbol a, rfl, (if_neg (by simpa using ha)).symm⟩
  · rename_i ts hfuel
    cases hfuel
    exact (ih 0 (by decide) ts).bind fun f rest hts => ⟨.not f, congrArg _ hts, rfl⟩
  · rename_i ts hfuel
    cases hfuel
    refine (ih 2 (by decide) ts).bind fun d rest hts => ?_
    dsimp only
    split
    · refine ⟨.group d, ?_, rfl⟩
      rw [hts, Derivation.tokens, cons_append, append_assoc, singleton_append]
    · exact .inl rfl
  · exact .inl rfl

theorem isReading_parseRank (hn : n ≤ 2) (fuel : Nat) (ts : List Token) :
    IsReading n ts (parseRank n fuel ts) := by
  induction fuel generalizing n ts with
  | zero => rcases n with _ | _ | n <;> exact .inl rfl
  | succ fuel ih =>
    cases n with
    | zero => exact isReading_factor (fun _ hn => ih hn) ts
    | succ n =>
      rw [parseRank_succ hn]
      refine (ih (Nat.le_of_succ_le hn) ts).bind fun d rest hts => ?_
      dsimp only
      split
      · rename_i hjoint
        obtain ⟨rest, rfl⟩ := List.head?_eq_some_iff.1 hjoint
        refine (ih hn rest).bind fun ds rest' hrest => ⟨.more d ds, ?_, rfl⟩
        rw [hts, hrest, Derivation.tokens, append_assoc, cons_append]
      · exact ⟨.one d, hts, rfl⟩

/-! ## Reading conditions -/

theorem stops_nil : Stops 2 [] := by simp [Stops]

theorem readExpr_eq (ts : List Token) : readExpr true ts = parseRank 2 (3 * ts.length + 3) ts := rfl

theorem readWholeExpr_tokens (d : Derivation 2) : readWholeExpr d.tokens = .ok d.condition := by
  have h := d.parseRank_tokens (Nat.le_refl 2) stops_nil (Nat.lt_succ_self _)
  rw [append_nil] at h
  rw [readWholeExpr, readExpr_eq, h]
  rfl

theorem readWholeExpr_cases (ts : List Token) : (∃ d : Derivation 2, d.tokens = ts) ∨
      ∃ p ∈ [Problem.malformedExpression, .expectedSymbol, .extraTokens],
        readWholeExpr ts = .error p := by
  have h := isReading_parseRank (Nat.le_refl 2) (3 * ts.length + 3) ts
  rw [readWholeExpr, readExpr_eq]
  revert h
  rcases parseRank 2 (3 * ts.length + 3) ts with p | ⟨e, rest⟩ <;> intro h
  · refine .inr ⟨p, ?_, rfl⟩
    obtain rfl | rfl := h <;> simp
  · obtain ⟨d, rfl, -⟩ := h
    cases rest with
    | nil => exact .inl ⟨d, (append_nil _).symm⟩
    | cons t rest => exact .inr ⟨.extraTokens, by simp, rfl⟩

/-- Tokens are read as a condition exactly if they are a sentence of the grammar.  The sentence has
one derivation, whose condition is read; otherwise the line is refused. -/
theorem condition_of_tokens (ts : List Token) (r : Reading) :
    (∃ d : Derivation 2, (∀ d' : Derivation 2, d'.tokens = ts ↔ d' = d) ∧
      runFrom (parsed (readWholeExpr ts)) r = (.ok d.condition, r)) ∨
    (∀ d : Derivation 2, d.tokens ≠ ts) ∧
      ∃ p ∈ [Problem.malformedExpression, .expectedSymbol, .extraTokens],
        runFrom (parsed (readWholeExpr ts)) r =
          (.error (.line (r.file.map fun f => (f, r.line)) (Text.trim r.text) p), r) := by
  obtain ⟨d, rfl⟩ | ⟨p, hp, herror⟩ := readWholeExpr_cases ts
  · refine .inl ⟨d, fun d' => ⟨fun h => ?_, congrArg _⟩, ?_⟩
    · exact (Derivation.tokens_inj (Nat.le_refl 2) stops_nil stops_nil (congrArg (· ++ []) h)).1
    · rw [readWholeExpr_tokens]
      rfl
  · refine .inr ⟨?_, p, hp, ?_⟩
    · rintro d rfl
      rw [readWholeExpr_tokens] at herror
      cases herror
    · rw [herror]
      rfl

end Buildsmith.Kconfig
