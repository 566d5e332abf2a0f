import Buildsmith.Text.Pattern.Read
import Mathlib.Data.List.Infix

/-!
# Finding and splitting text

A text is found at the first place where it stands (`splitFirst_eq_some`).  A separator that does not
stand in front of a place cuts the text there (`splitFirst_append`, `piecesFrom_append`), and to
replace it is to join the pieces by something else (`intercalate_piecesFrom`).
-/

namespace Buildsmith.Text

open List

variable {needle cs a b : List Char} {n : Nat} {c : Char} {s t : String}

/-! ## Finding -/

/-- Whether a text stands at an offset of another one for the first time. -/
def StandsFirst (needle cs : List Char) (n : Nat) : Prop :=
  needle <+: cs.drop n ∧ ∀ m, needle <+: cs.drop m → n ≤ m

theorem splitFirst_eq_some (h : splitFirst needle cs = some (a, b)) :
    cs = a ++ (needle ++ b) ∧ StandsFirst needle cs a.length := by
  induction cs generalizing a with
  | nil =>
    unfold splitFirst at h
    split at h
    · cases h
      simp_all [StandsFirst]
    · cases h
  | cons c cs ih =>
    unfold splitFirst at h
    split at h
    · rename_i hlead
      cases h
      rw [ isPrefixOf_iff_prefix] at hlead
      exact ⟨(List.prefix_iff_eq_append.1 hlead).symm, hlead, fun _ _ => Nat.zero_le _⟩
    · rename_i hlead
      obtain ⟨⟨a, b⟩, hcs, h⟩ := Option.map_eq_some_iff.1 h
      cases h
      obtain ⟨happ, hmem, hleast⟩ := ih hcs
      refine ⟨congrArg (c :: ·) happ, hmem, fun m hm => ?_⟩
      cases m with
      | zero => exact absurd (List.isPrefixOf_iff_prefix.2 hm) hlead
      | succ m => exact Nat.succ_le_succ (hleast m hm)

theorem exists_splitFirst (h : needle <+: cs.drop n) : ∃ p, splitFirst needle cs = some p := by
  induction cs generalizing n with
  | nil => exact ⟨_, if_pos (by simpa using h)⟩
  | cons c cs ih =>
    unfold splitFirst
    split
    · exact ⟨_, rfl⟩
    · rename_i hlead
      cases n with
      | zero => exact absurd (List.isPrefixOf_iff_prefix.2 h) hlead
      | succ n =>
        obtain ⟨p, hp⟩ := ih h
        exact ⟨_, by rw [hp]; rfl⟩

theorem find?_of_prefix (h : t.toList <+: s.toList.drop n) :
    ∃ m, find? s t = some m ∧ StandsFirst t.toList s.toList m := by
  obtain ⟨p, hp⟩ := exists_splitFirst h
  exact ⟨_, by rw [find?, hp]; rfl, (splitFirst_eq_some hp).2⟩

/-- Whether a text that follows another one does not begin in it. -/
def FollowsFirst (needle a : List Char) : Prop := ¬needle <:+: a ++ needle.dropLast

instance : Decidable (FollowsFirst needle a) := inferInstanceAs (Decidable ¬_)

theorem followsFirst_singleton (hc : c ∉ a) : FollowsFirst [c] a := by
  rintro ⟨x, y, h⟩
  exact hc (by simp [← show x ++ [c] ++ y = a by simpa using h])

namespace FollowsFirst

theorem tail (h : FollowsFirst needle (c :: a)) : FollowsFirst needle a :=
  fun ha => h (infix_cons ha)

theorem not_isPrefixOf (h : FollowsFirst needle (c :: a)) (b : List Char) :
    needle.isPrefixOf (c :: (a ++ (needle ++ b))) = false := by
  rw [Bool.eq_false_iff, Ne, isPrefixOf_iff_prefix]
  intro hlead
  have hshort : (c :: a) ++ needle.dropLast <+: c :: (a ++ (needle ++ b)) :=
    (prefix_append_right_inj (c :: a)).2 (( dropLast_prefix _).trans (prefix_append ..))
  refine h (prefix_of_prefix_length_le hlead hshort ?_).isInfix
  simp
  omega

theorem exists_cons (h : FollowsFirst needle a) : ∃ x xs, needle = x :: xs :=
  exists_cons_of_ne_nil fun hnil => h (hnil ▸ nil_infix)

end FollowsFirst

theorem splitFirst_append (h : FollowsFirst needle a) :
    splitFirst needle (a ++ (needle ++ b)) = some (a, b) := by
  induction a with
  | nil =>
    obtain ⟨x, xs, rfl⟩ := h.exists_cons
    simp [splitFirst]
  | cons d a ih => simp [splitFirst, h.not_isPrefixOf, ih h.tail]

theorem splitFirst_of_not_mem (ha : c ∉ a) : splitFirst [c] a = none :=
  Option.eq_none_iff_forall_ne_some.2 fun p hp => ha (by rw [(splitFirst_eq_some hp).1]; simp)

theorem splitLast_append (h : FollowsFirst needle.reverse b.reverse) :
    splitLast needle (a ++ (needle ++ b)) = some (a, b) := by
  have hsplit := splitFirst_append (b := a.reverse) h
  simp [splitLast, hsplit]

theorem eq_of_cut? {sep : String} {p : String × String} (h : cut? s sep = some p) :
    s = p.1 ++ sep ++ p.2 := by
  obtain ⟨q, hsplit, rfl⟩ := Option.map_eq_some_iff.1 h
  rw [← String.toList_inj, (splitFirst_eq_some hsplit).1]
  simp

theorem cut?_eq_none (sep : String) (hsep : sep.toList = [c]) (h : c ∉ s.toList) :
    cut? s sep = none := by
  rw [cut?, hsep, splitFirst_of_not_mem h, Option.map_none]

theorem cut?_append {a b : String} (sep : String) (h : FollowsFirst sep.toList a.toList) :
    cut? (a ++ sep ++ b) sep = some (a, b) := by
  simp [cut?, splitFirst_append h]

theorem cutLast?_append {a b : String} (sep : String)
    (h : FollowsFirst sep.toList.reverse b.toList.reverse) :
    cutLast? (a ++ sep ++ b) sep = some (a, b) := by
  simp [cutLast?, splitLast_append h]

/-! ## Pieces -/

variable {sep piece : List Char}

theorem piecesFrom_append (c : Char) (piece xs ys : List Char) :
    piecesFrom [c] 0 piece (xs ++ c :: ys) =
      piecesFrom [c] 0 piece xs ++ piecesFrom [c] 0 [] ys := by
  induction xs generalizing piece with
  | nil => simp [piecesFrom]
  | cons x xs ih =>
    by_cases hx : c = x
    · subst hx
      simp [piecesFrom, ih]
    · simp [piecesFrom, hx, ih]

theorem piecesFrom_of_not_infix (h : ¬sep <:+: cs) (piece : List Char) :
    piecesFrom sep 0 piece cs = [piece.reverse ++ cs] := by
  induction cs generalizing piece with
  | nil => simp [piecesFrom]
  | cons c cs ih =>
    have hlead : sep.isPrefixOf (c :: cs) = false := by
      rw [Bool.eq_false_iff, Ne, isPrefixOf_iff_prefix]
      exact fun hlead => h hlead.isInfix
    simp [piecesFrom, hlead, ih fun hcs => h (infix_cons hcs)]

theorem piecesFrom_of_not_mem (hc : c ∉ cs) (piece : List Char) :
    piecesFrom [c] 0 piece cs = [piece.reverse ++ cs] :=
  piecesFrom_of_not_infix (fun h => hc (h.subset (by simp))) piece

/-- What holds no separator is added to the last piece. -/
theorem exists_piecesFrom_append (c : Char) (piece xs : List Char) :
    ∃ ps p, ∀ ys, c ∉ ys → piecesFrom [c] 0 piece (xs ++ ys) = ps ++ [p ++ ys] := by
  induction xs generalizing piece with
  | nil => exact ⟨[], piece.reverse, fun ys hc => piecesFrom_of_not_mem hc piece⟩
  | cons x xs ih =>
    by_cases hx : c = x
    · obtain ⟨ps, p, hps⟩ := ih []
      exact ⟨piece.reverse :: ps, p, fun ys hc => by simp [piecesFrom, hx, ← hps ys hc]⟩
    · obtain ⟨ps, p, hps⟩ := ih (x :: piece)
      exact ⟨ps, p, fun ys hc => by simp [piecesFrom, hx, ← hps ys hc]⟩

theorem piecesFrom_skip (xs cs : List Char) :
    piecesFrom sep xs.length piece (xs ++ cs) = piecesFrom sep 0 piece cs := by
  induction xs with
  | nil => rfl
  | cons x xs ih => exact ih

theorem piecesFrom_followsFirst (h : FollowsFirst sep a) (piece : List Char) :
    piecesFrom sep 0 piece (a ++ (sep ++ b)) = (piece.reverse ++ a) :: piecesFrom sep 0 [] b := by
  induction a generalizing piece with
  | nil =>
    obtain ⟨x, xs, rfl⟩ := h.exists_cons
    simp [piecesFrom, piecesFrom_skip]
  | cons d a ih => simp [piecesFrom, h.not_isPrefixOf, ih h.tail]

theorem isEmpty_eq_false {sep : String} (h : sep.toList = c :: cs) : sep.isEmpty = false := by
  rw [Bool.eq_false_iff, Ne, String.isEmpty_iff]
  rintro rfl
  cases h

theorem splitOn_append {a : String} (sep : String) (h : FollowsFirst sep.toList a.toList) (b : String) :
    splitOn (a ++ sep ++ b) sep = a :: splitOn b sep := by
  obtain ⟨x, xs, hsep⟩ := h.exists_cons
  simp [splitOn, isEmpty_eq_false hsep, piecesFrom_followsFirst h]

theorem splitOn_of_not_infix {sep : String} (h : ¬sep.toList <:+: s.toList) :
    splitOn s sep = [s] := by
  simp [splitOn, piecesFrom_of_not_infix h]

theorem piecesFrom_ne_nil (sep : List Char) (k : Nat) (piece cs : List Char) :
    piecesFrom sep k piece cs ≠ [] := by
  fun_induction piecesFrom sep k piece cs <;> simp_all

theorem splitOn_ne_nil (s sep : String) : splitOn s sep ≠ [] := by
  unfold splitOn
  split
  · simp
  · simp [piecesFrom_ne_nil]

section OneCharacter

variable {sep : String} (hsep : sep.toList = [c])

include hsep

theorem splitOn_singleton (s : String) :
    splitOn s sep = (piecesFrom [c] 0 [] s.toList).map String.ofList := by
  rw [splitOn, isEmpty_eq_false hsep, hsep]
  rfl

theorem splitOn_split (a b : String) :
    splitOn (a ++ sep ++ b) sep = splitOn a sep ++ splitOn b sep := by
  simp [splitOn_singleton hsep, hsep, piecesFrom_append]

theorem splitOn_of_not_mem (hc : c ∉ s.toList) : splitOn s sep = [s] := by
  simp [splitOn_singleton hsep, piecesFrom_of_not_mem hc]

end OneCharacter

theorem Integer.isDigit_of_mem_natText {n : Nat} (h : c ∈ (natText n).toList) : c.isDigit :=
  Nat.isDigit_of_mem_toDigits (b := 10) (by decide) (Nat.le_refl _) (by simpa [natText] using h)

/-- To replace a text is to join the pieces around it by something else. -/
theorem intercalate_piecesFrom (sep new : List Char) (k : Nat) (piece cs : List Char) :
    new.intercalate (piecesFrom sep k piece cs) = piece.reverse ++ replaceFrom sep new k cs := by
  fun_induction piecesFrom sep k piece cs with
  | case1 => simp [replaceFrom]
  | case2 => simp_all [replaceFrom]
  | case3 piece c cs hlead ih =>
    rw [intercalate_cons_of_ne_nil (piecesFrom_ne_nil _ _ _ _), ih]
    simp [replaceFrom, hlead]
  | case4 piece c cs hlead ih => simp [ih, replaceFrom, hlead]

theorem replace_eq_intercalate {sep : String} (hsep : sep ≠ "") (new : String) :
    replace s sep new = new.intercalate (splitOn s sep) := by
  have hempty : sep.isEmpty = false := by simpa using hsep
  apply String.toList_injective
  have hpieces := intercalate_piecesFrom sep.toList new.toList 0 [] s.toList
  simp [replace, splitOn, hempty, hpieces]

theorem replaceFrom_singleton (c : Char) (new cs : List Char) :
    replaceFrom [c] new 0 cs = cs.flatMap fun d => if c = d then new else [d] := by
  induction cs with
  | nil => rfl
  | cons d cs ih =>
    by_cases hd : c = d
    · subst hd
      simp [replaceFrom, ih]
    · simp [replaceFrom, hd, ih]

/-!
## Matching literal text and runs of characters

The patterns of configuration lines are made of literal text and of groups that take as many
characters of a class as there are.  The positions of a text are described by what stands behind
them.
-/

namespace Pattern

variable {i : Nat} {g : Groups} {k : Continuation}

/-- A text that is searched with the settings of configuration lines. -/
abbrev Subject.of (cs : List Char) : Subject := ⟨cs.toArray, { ascii := true }⟩

def Node.literal (xs : List Char) (n : Node) : Node :=
  xs.foldr (fun c n => .seq (.char c) n) n

namespace Subject

theorem sameChar_of (wanted c : Char) : (of cs).sameChar wanted c = decide (wanted = c) := by
  simp [sameChar]

variable {p : Char → Bool}

theorem one_of_drop {c : Char} {rest : List Char} (h : cs.drop i = c :: rest) :
    (of cs).one p i g k = if p c then k (i + 1) g else none := by
  rw [one, getElem?_toArray, ← head?_drop, h, head?_cons]

theorem one_of_drop_nil (h : cs.drop i = []) : (of cs).one p i g k = none := by
  rw [one, getElem?_toArray, ← head?_drop, h, head?_nil]

end Subject

theorem run_seq (s : Subject) (a b : Node) :
    (Node.seq a b).run s i g k = a.run s i g fun j g' => b.run s j g' k :=
  rfl

variable {rest xs lead : List Char} {r : Nat × Groups} {p : Char → Bool}
  {least index : Nat}

theorem run_char_of_drop (h : cs.drop i = c :: rest) :
    (Node.char c).run (.of cs) i g k = k (i + 1) g := by
  rw [Node.run, Subject.one_of_drop h, Subject.sameChar_of, decide_eq_true rfl, if_pos rfl]

theorem drop_succ_of_drop (h : cs.drop i = c :: rest) : cs.drop (i + 1) = rest := by
  rw [← tail_drop, h, tail_cons]

theorem run_literal {l : List Char} (h : cs.drop i = l ++ rest) (n : Node) :
    (Node.literal l n).run (.of cs) i g k = n.run (.of cs) (i + l.length) g k := by
  induction l generalizing i with
  | nil => rfl
  | cons x xs ih =>
    have hrest : cs.drop (i + 1) = xs ++ rest := drop_succ_of_drop h
    change (Node.seq (.char x) (Node.literal xs n)).run (.of cs) i g k = _
    rw [run_seq, run_char_of_drop h, ih hrest, length_cons, Nat.add_assoc, Nat.add_comm 1]

theorem run_literal_eq_none (h : ¬xs <+: cs.drop i) (n : Node) :
    (Node.literal xs n).run (.of cs) i g k = none := by
  induction xs generalizing i with
  | nil => exact absurd nil_prefix h
  | cons x xs ih =>
    change (Node.seq (.char x) (Node.literal xs n)).run (.of cs) i g k = none
    rw [run_seq, Node.run]
    cases hdrop : cs.drop i with
    | nil => exact Subject.one_of_drop_nil hdrop
    | cons c rest =>
      rw [Subject.one_of_drop hdrop, Subject.sameChar_of]
      by_cases hc : x = c
      · rw [decide_eq_true hc]
        apply ih
        rw [drop_succ_of_drop hdrop]
        intro hprefix
        apply h
        rw [hdrop, hc]
        exact List.cons_prefix_cons.2 ⟨rfl, hprefix⟩
      · rw [decide_eq_false hc]
        rfl

theorem repeatGreedy_of_drop {fuel count : Nat} {last : Option Nat} (h : cs.drop i = xs ++ rest)
    (hxs : ∀ x ∈ xs, p x) (hrest : ∀ x ∈ rest.head?, p x = false)
    (hfuel : xs.length < fuel) (hcount : least ≤ count + xs.length)
    (hlast : ∀ j, last = some j → j < i) (hk : k (i + xs.length) g = some r) :
    repeatGreedy ((Subject.of cs).one p) least none fuel count last i g k = some r := by
  induction xs generalizing i fuel count last with
  | nil =>
    obtain ⟨fuel, rfl⟩ : ∃ n, fuel = n + 1 := ⟨fuel - 1, by simp at hfuel; omega⟩
    have hnot : ¬count < least := by simpa using hcount
    have hstop : ∀ k : Continuation, (Subject.of cs).one p i g k = none := by
      intro k
      cases hdrop : cs.drop i with
      | nil => exact Subject.one_of_drop_nil hdrop
      | cons c rest' =>
        have hrest' : rest = c :: rest' := h.symm.trans hdrop
        rw [Subject.one_of_drop hdrop, hrest c (by simp [hrest'])]
        rfl
    simp only [repeatGreedy, if_neg hnot, hstop, ite_self]
    exact hk
  | cons x xs ih =>
    obtain ⟨fuel, rfl⟩ : ∃ n, fuel = n + 1 := ⟨fuel - 1, by simp at hfuel; omega⟩
    have hstep : ∀ k : Continuation, (Subject.of cs).one p i g k = k (i + 1) g := by
      intro k
      rw [Subject.one_of_drop h, hxs x mem_cons_self, if_pos rfl]
    have hfuel' : xs.length < fuel := by simpa using hfuel
    have hcount' : least ≤ count + 1 + xs.length := by
      simp only [length_cons] at hcount
      omega
    have hk' : k (i + 1 + xs.length) g = some r := by
      rw [← hk, length_cons]
      congr 1
      omega
    have hnext : ∀ last : Option Nat, (∀ j, last = some j → j < i + 1) →
        repeatGreedy ((Subject.of cs).one p) least none fuel (count + 1) last (i + 1) g k = some r :=
      fun last hlast => ih (drop_succ_of_drop h)
      (fun y hy => hxs y (mem_cons_of_mem _ hy)) hfuel' hcount' hlast hk'
    by_cases hleast : count < least
    · simp only [repeatGreedy, if_pos hleast, hstep]
      exact hnext last fun j hj => Nat.lt_succ_of_lt (hlast j hj)
    · have hmoved : last ≠ some i := fun hlast' => Nat.lt_irrefl i (hlast i hlast')
      have hmore := hnext (some i) fun j hj => by
        cases hj
        exact Nat.lt_succ_self i
      simp only [repeatGreedy, if_neg hleast, hstep, allowsMore, Bool.true_and,
        decide_eq_true hmoved, if_true, hmore]

theorem run_group_rep {n : Node} (hn : n.run (.of cs) = (Subject.of cs).one p)
    (h : cs.drop i = xs ++ rest) (hxs : ∀ x ∈ xs, p x)
    (hrest : ∀ x ∈ rest.head?, p x = false) (hleast : least ≤ xs.length) (hk : k (i + xs.length)
    ((index, i, i + xs.length) :: g.filter fun x => x.1 != index) = some r) :
    (Node.group index (.rep least none .greedy n)).run (.of cs) i g k = some r := by
  have hlength : xs.length ≤ cs.length := by
    have hdrop := congrArg List.length h
    simp only [length_drop, length_append] at hdrop
    omega
  rw [Node.run, Node.run, hn]
  refine repeatGreedy_of_drop h hxs hrest ?_ (by omega) nofun hk
  simp only [size_toArray]
  omega

/-! ## Configuration lines -/

/-- The pattern of an assignment, behind a lead. -/
def setNode (lead : List Char) : Node :=
  .literal lead (.seq (.group 1 (.rep 1 none .greedy (.oneOf true [.char 61])))
    (.literal ['='] (.group 2 (.rep 0 none .greedy .any))))

/-- The pattern of a comment that a symbol is not set, with a lead. -/
def unsetNode (lead : List Char) : Node :=
  .literal ('#' :: ' ' :: lead) (.seq (.group 1 (.rep 1 none .greedy (.oneOf true [.char 32])))
    (.literal " is not se".toList (.char 't')))

theorem run_oneOf_char (code : Nat) :
    (Node.oneOf true [.char code]).run (.of cs) = (Subject.of cs).one fun c => c.toNat != code := by
  rw [Node.run]
  congr
  funext c
  simp [Subject.listed, Subject.variants, bne]

theorem run_any : Node.any.run (.of cs) = (Subject.of cs).one fun c => c != '\n' := by
  rw [Node.run]
  congr
  funext c
  simp [bne]
  rfl

theorem text?_of_span {f : Found} {before : List Char}
    (hspan : groupSpan? f.groups index = some (before.length, before.length + xs.length)) :
    f.text? (String.ofList (before ++ (xs ++ rest))) index = some (String.ofList xs) := by
  have hchars : ((before ++ (xs ++ rest)).take (before.length + xs.length)).drop before.length =
      xs := by
    rw [← append_assoc, ← length_append, take_left, drop_left]
  rw [Found.text?, hspan, String.toList_ofList]
  exact congrArg (fun ys => some (String.ofList ys)) hchars

section Names

variable {name : List Char} {stop : Char} (hname : name ≠ []) (hstop : stop ∉ name)

include hname hstop

/-- A pattern of literal text and a name matches where the pattern behind the name does. -/
theorem matchAt?_name {before behind : List Char} {n : Node}
    (hn : n.run (.of (before ++ (name ++ stop :: behind))) (before.length + name.length)
      [(1, before.length, before.length + name.length)] (fun j g => some (j, g)) = some r) :
    matchAt? { ascii := true } (.literal before
        (.seq (.group 1 (.rep 1 none .greedy (.oneOf true [.char stop.toNat]))) n))
      (String.ofList (before ++ (name ++ stop :: behind))) 0 = some ⟨0, r.1, r.2⟩ := by
  rw [matchAt?, String.toList_ofList, run_literal (i := 0) rfl, run_seq, Nat.zero_add,
    run_group_rep (r := r) (run_oneOf_char stop.toNat) drop_left (fun x hx => ?_) (by simp)
      (length_pos_of_ne_nil hname) hn]
  · rfl
  · have hne : x ≠ stop := fun h => hstop (h ▸ hx)
    simpa [Char.toNat_inj] using hne

end Names

theorem matchAt?_set (lead name value rest : List Char) (hname : name ≠ []) (heq : '=' ∉ name)
    (hbreak : '\n' ∉ value) (hrest : ∀ c ∈ rest.head?, c = '\n') :
    ∃ f, matchAt? { ascii := true } (setNode lead)
        (String.ofList (lead ++ (name ++ '=' :: (value ++ rest)))) 0 = some f ∧
      f.text? (String.ofList (lead ++ (name ++ '=' :: (value ++ rest)))) 1 =
        some (String.ofList name) ∧
      f.text? (String.ofList (lead ++ (name ++ '=' :: (value ++ rest)))) 2 =
        some (String.ofList value) := by
  let before := lead ++ (name ++ ['='])
  have hcs : lead ++ (name ++ '=' :: (value ++ rest)) = before ++ (value ++ rest) := by
    simp [before]
  have hmark : (lead ++ (name ++ '=' :: (value ++ rest))).drop (lead.length + name.length) =
      ['='] ++ (value ++ rest) := by
    rw [← drop_drop, drop_left, drop_left, singleton_append]
  have hlength : lead.length + name.length + ['='].length = before.length := by
    simp [before, Nat.add_assoc]
  refine ⟨_, matchAt?_name (r := (before.length + value.length,
    [(2, before.length, before.length + value.length),
      (1, lead.length, lead.length + name.length)]))
    hname heq ?_, text?_of_span rfl, ?_⟩
  · rw [run_literal hmark, hlength]
    refine run_group_rep run_any (by rw [hcs, drop_left]) (fun x hx => ?_) (fun x hx => ?_)
      (Nat.zero_le _) rfl
    · have hne : x ≠ '\n' := fun h => hbreak (h ▸ hx)
      simpa using hne
    · simp [hrest x hx]
  · rw [hcs]
    exact text?_of_span rfl

theorem matchAt?_set_eq_none (h : ¬lead <+: cs) :
    matchAt? { ascii := true } (setNode lead) (String.ofList cs) 0 = none := by
  rw [matchAt?, String.toList_ofList, setNode, run_literal_eq_none h]
  rfl

theorem matchAt?_unset (lead name : List Char) (hname : name ≠ []) (hspace : ' ' ∉ name) :
    ∃ f, matchAt? { ascii := true } (unsetNode lead)
        (String.ofList ('#' :: ' ' :: lead ++ (name ++ " is not set".toList))) 0 = some f ∧
      f.text? (String.ofList ('#' :: ' ' :: lead ++ (name ++ " is not set".toList))) 1 =
        some (String.ofList name) := by
  have htail : " is not set".toList = ' ' :: "is not set".toList := rfl
  have hmark : ('#' :: ' ' :: lead ++ (name ++ ' ' :: "is not set".toList)).drop
      (('#' :: ' ' :: lead).length + name.length) = " is not se".toList ++ ['t'] := by
    rw [← drop_drop, drop_left, drop_left]
    rfl
  rw [htail]
  refine ⟨_, matchAt?_name (r := (('#' :: ' ' :: lead).length + name.length + 10 + 1,
    [(1, ('#' :: ' ' :: lead).length, ('#' :: ' ' :: lead).length + name.length)])) hname hspace ?_,
    text?_of_span rfl⟩
  rw [run_literal hmark, run_char_of_drop (by rw [← drop_drop, hmark, drop_left])]
  rfl

theorem matchAt?_unset_eq_none (h : ¬ '#' :: ' ' :: lead <+: cs) :
    matchAt? { ascii := true } (unsetNode lead) (String.ofList cs) 0 = none := by
  rw [matchAt?, String.toList_ofList, unsetNode, run_literal_eq_none h]
  rfl

end Pattern

end Buildsmith.Text
