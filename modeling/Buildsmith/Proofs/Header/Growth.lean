import Buildsmith.Header.Tree
import Buildsmith.Proofs.FileTree.Writing

/-!
# Trees of items grow

Adding a header to a tree of items loses nothing that is in the tree (`Grows`).  Nodes are only put
where there are none, and a node on the way to them changes in its members alone; a module that
nothing documented may get another documentation.  What follows for sequences of headers is
`tree_grows`.
-/

namespace Buildsmith.Data

open List

/-! ## Fields -/

namespace Fields

theorem get?_put (k : String) (v : Value) (fs : Fields) (key : String) :
    get? (put k v fs) key = if key = k then some v else get? fs key := by
  unfold get?
  induction fs with
  | nil =>
    by_cases h : key = k
    · simp [put, h]
    · simp [put, h, Ne.symm h]
  | cons f fs ih =>
    unfold put
    by_cases hf : f.1 = k
    · by_cases h : key = k
      · simp [hf, h]
      · simp [hf, h, Ne.symm h]
    · by_cases h : f.1 = key
      · have hkey : key ≠ k := fun hk => hf (h.trans hk)
        simp [h, hkey]
      · simp [hf, h, ih]

theorem get?_append (fs gs : Fields) (key : String) :
    get? (fs ++ gs) key = (get? fs key).or (get? gs key) := by
  rw [get?, find?_append, Option.map_or, get?, get?]

theorem has_eq (fs : Fields) (key : String) : has fs key = (get? fs key).isSome := by
  simp [has, get?, isSome_find?]

end Fields

namespace Value

def get? (v : Value) (key : String) : Option Value := (v.field key).toOption

variable {v w x : Value} {key : String}

theorem get?_record (fs : Fields) (key : String) : (record fs).get? key = Fields.get? fs key := by
  rw [get?, field]
  cases Fields.get? fs key <;> rfl

theorem field_eq_ok : v.field key = .ok x ↔ v.get? key = some x := by
  unfold get?
  cases v.field key <;> simp [Except.toOption]

theorem withField_eq_ok :
    v.withField key x = .ok w ↔ ∃ fs, v = record fs ∧ w = record (Fields.put key x fs) := by
  cases v <;> simp [withField, eq_comm]

theorem get?_withField (h : v.withField key x = .ok w) (k : String) :
    w.get? k = if k = key then some x else v.get? k := by
  obtain ⟨fs, rfl, rfl⟩ := withField_eq_ok.1 h
  rw [get?_record, get?_record, Fields.get?_put]

theorem get?_of_holds (h : v.holds key = .ok false) : v.get? key = none := by
  cases v with
  | record fs =>
    have hhas : Fields.has fs key = false := Except.ok.inj h
    rw [Fields.has_eq] at hhas
    rw [get?_record]
    simpa using hhas
  | _ => rfl

end Value

end Buildsmith.Data

namespace Buildsmith.Header

open Data List
open Kconfig (bind_eq_ok runFrom Leads Gives)
open Fields (get? get?_put get?_append)
open Text (splitOn piecesFrom)
open Value (get?_withField get?_record)

/-! ## Nodes -/

def child? (node : Value) (name : String) : Option Value :=
  (node.get? "members").bind (·.get? name)

def nodeAt? (tree : Value) (path : List String) : Option Value := (memberAt tree path).toOption

variable {t t' node old new x x' : Value} {name n : String} {parents p q : List String}

theorem nodeAt?_cons (t : Value) (n : String) (p : List String) :
    nodeAt? t (n :: p) = (child? t n).bind (nodeAt? · p) := by
  rw [nodeAt?, memberAt, child?, Value.get?]
  cases t.field "members" with
  | error f => rfl
  | ok ms =>
    show ((ms.field n).bind fun c => memberAt c p).toOption = (ms.field n).toOption.bind (nodeAt? · p)
    cases ms.field n <;> rfl

theorem nodeAt?_append (t : Value) (p q : List String) :
    nodeAt? t (p ++ q) = (nodeAt? t p).bind (nodeAt? · q) := by
  induction p generalizing t with
  | nil => rfl
  | cons n p ih =>
    rw [cons_append, nodeAt?_cons, nodeAt?_cons, Option.bind_assoc]
    exact Option.bind_congr fun c _ => ih c

def IsModule (v : Value) : Prop := v.get? "type" = some (.text "module")

/-- What a node keeps when members are added below it or, if it is a module, it is documented. -/
structure Keeps (old new : Value) : Prop where
  other : ∀ f, f ≠ "members" → (f = "doc" → ¬IsModule old) → new.get? f = old.get? f
  leaf : old.get? "members" = none → new = old
  branch : (∃ ms, old.get? "members" = some (.record ms)) →
    ∃ ms, new.get? "members" = some (.record ms)

theorem Keeps.refl (v : Value) : Keeps v v := ⟨fun _ _ _ => rfl, fun _ => rfl, fun h => h⟩

theorem Keeps.type (h : Keeps old new) : new.get? "type" = old.get? "type" :=
  h.other _ (by decide) fun h => absurd h (by decide)

theorem Keeps.trans (h : Keeps old new) (h' : Keeps new x) : Keeps old x where
  other f hf hdoc := by
    refine (h'.other f hf fun hf' hmodule => hdoc hf' ?_).trans (h.other f hf hdoc)
    rwa [IsModule, ← h.type]
  leaf hold := by
    have hnew := h.leaf hold
    rw [h'.leaf (hnew ▸ hold), hnew]
  branch hold := h'.branch (h.branch hold)

/-- A node as headers bring them: classes and modules have members, and only modules are added
without documentation. -/
structure IsFormed (v : Value) : Prop where
  kind : ∃ k : DefinitionKind, v.get? "type" = some (.text k.name) ∧
    (k = .classLike ∨ k = .space → ∃ ms, v.get? "members" = some (.record ms)) ∧
    (k ≠ .classLike → k ≠ .space → v.get? "members" = none)
  added : (v.get? "auto_add").isSome → IsModule v

theorem IsFormed.keeps (h : IsFormed old) (hkeeps : Keeps old new) : IsFormed new := by
  obtain ⟨⟨k, htype, hbranch, hleaf⟩, hadded⟩ := h
  refine ⟨⟨k, hkeeps.type.trans htype, fun hk => hkeeps.branch (hbranch hk), fun hc hs => ?_⟩, ?_⟩
  · rw [hkeeps.leaf (hleaf hc hs)]
    exact hleaf hc hs
  · rw [hkeeps.other _ (by decide) fun h => absurd h (by decide), IsModule, hkeeps.type]
    exact hadded

/-! ## Growing -/

/-- Whether a tree keeps all nodes below another one, and new nodes are only at paths of a kind. -/
structure Grows (K : List String → Prop) (t t' : Value) : Prop where
  kept : ∀ p x, p ≠ [] → nodeAt? t p = some x → ∃ x', nodeAt? t' p = some x' ∧ Keeps x x'
  new : ∀ p x', nodeAt? t' p = some x' → nodeAt? t p = none → K p ∧ IsFormed x'

variable {K : List String → Prop}

theorem Grows.refl (t : Value) : Grows K t t :=
  ⟨fun _ x _ hx => ⟨x, hx, .refl x⟩, fun p x' hx' hnone => by rw [hx'] at hnone; cases hnone⟩

theorem ne_nil_of_none (h : nodeAt? t p = none) : p ≠ [] := by
  rintro rfl
  cases h

theorem Grows.trans {t'' : Value} (h : Grows K t t') (h' : Grows K t' t'') : Grows K t t'' where
  kept p x hp hx := by
    obtain ⟨x', hx', hkeeps⟩ := h.kept p x hp hx
    obtain ⟨x'', hx'', hkeeps'⟩ := h'.kept p x' hp hx'
    exact ⟨x'', hx'', hkeeps.trans hkeeps'⟩
  new p x'' hx'' hnone := by
    cases hp : nodeAt? t' p with
    | none => exact h'.new p x'' hx'' hp
    | some x' =>
      obtain ⟨hK, hformed⟩ := h.new p x' hp hnone
      obtain ⟨y, hy, hkeeps⟩ := h'.kept p x' (ne_nil_of_none hnone) hp
      rw [hx''] at hy
      cases hy
      exact ⟨hK, hformed.keeps hkeeps⟩

theorem grows_of_eq {l : Library} (_ : Refusal) (l' : Library) (h : l' = l) : Grows K l.tree l'.tree := h ▸ .refl _

def IsFormedTree (t : Value) : Prop := ∀ p x, p ≠ [] → nodeAt? t p = some x → IsFormed x

theorem IsFormedTree.grows (h : IsFormedTree t) (hgrows : Grows K t t') : IsFormedTree t' := by
  intro p x' hp hx'
  cases hx : nodeAt? t p with
  | none => exact (hgrows.new p x' hx' hx).2
  | some x =>
    obtain ⟨y, hy, hkeeps⟩ := hgrows.kept p x hp hx
    rw [hx'] at hy
    cases hy
    exact (h p x hp hx).keeps hkeeps

/-! ## Putting a node -/

structure Sets (n : String) (c : Value) (t t' : Value) : Prop where
  child : ∀ k, child? t' k = if k = n then some c else child? t k
  keeps : Keeps t t'

theorem sets_of_withField {ms ms' c : Value} (hms : t.field "members" = .ok ms)
    (hms' : ms.withField n c = .ok ms') (ht' : t.withField "members" ms' = .ok t') :
    Sets n c t t' := by
  have hmembers := Value.field_eq_ok.1 hms
  have hmembers' : t'.get? "members" = some ms' := (get?_withField ht' _).trans (if_pos rfl)
  refine ⟨fun k => ?_, fun f hf _ => ?_, fun hnone => ?_, fun _ => ?_⟩
  · rw [child?, child?, hmembers, hmembers', Option.bind_some, Option.bind_some,
      get?_withField hms']
  · rw [get?_withField ht', if_neg hf]
  · rw [hmembers] at hnone
    cases hnone
  · obtain ⟨fs, -, rfl⟩ := Value.withField_eq_ok.1 hms'
    exact ⟨_, hmembers'⟩

theorem putMember_nil (h : putMember node name [] t = .ok t') : Sets name node t t' := by
  obtain ⟨ms, hms, h⟩ := bind_eq_ok.1 h
  obtain ⟨ms', hms', h⟩ := bind_eq_ok.1 h
  exact sets_of_withField hms hms' h

theorem putMember_cons (h : putMember node name (n :: parents) t = .ok t') :
    ∃ c c', child? t n = some c ∧ putMember node name parents c = .ok c' ∧ Sets n c' t t' := by
  obtain ⟨ms, hms, h⟩ := bind_eq_ok.1 h
  obtain ⟨c, hc, h⟩ := bind_eq_ok.1 h
  obtain ⟨c', hc', h⟩ := bind_eq_ok.1 h
  obtain ⟨ms', hms', h⟩ := bind_eq_ok.1 h
  refine ⟨c, c', ?_, hc', sets_of_withField hms hms' h⟩
  rw [child?, Value.field_eq_ok.1 hms, Option.bind_some, Value.field_eq_ok.1 hc]

theorem nodeAt?_put (h : putMember node name parents t = .ok t') (p : List String) :
    nodeAt? t' (parents ++ name :: p) = nodeAt? node p := by
  induction parents generalizing t t' with
  | nil => rw [nil_append, nodeAt?_cons, (putMember_nil h).child, if_pos rfl, Option.bind_some]
  | cons n parents ih =>
    obtain ⟨c, c', -, hput, hsets⟩ := putMember_cons h
    rw [cons_append, nodeAt?_cons, hsets.child, if_pos rfl, Option.bind_some, ih hput]

theorem nodeAt?_put_other
    (h : putMember node name parents t = .ok t') (hp : ¬(parents ++ [name]) <+: p) :
    (∀ x, nodeAt? t p = some x → ∃ x', nodeAt? t' p = some x' ∧ Keeps x x') ∧
      (nodeAt? t p = none → nodeAt? t' p = none) := by
  induction parents generalizing t t' p with
  | nil =>
    cases p with
    | nil => exact ⟨fun x hx => ⟨t', rfl, Option.some.inj hx ▸ (putMember_nil h).keeps⟩, nofun⟩
    | cons n p =>
      have hn : n ≠ name := fun hn => hp (hn ▸ by simp)
      rw [nodeAt?_cons, nodeAt?_cons, (putMember_nil h).child, if_neg hn]
      exact ⟨fun x hx => ⟨x, hx, .refl x⟩, fun h => h⟩
  | cons m parents ih =>
    obtain ⟨c, c', hc, hput, hsets⟩ := putMember_cons h
    cases p with
    | nil => exact ⟨fun x hx => ⟨t', rfl, Option.some.inj hx ▸ hsets.keeps⟩, nofun⟩
    | cons n p =>
      rw [nodeAt?_cons, nodeAt?_cons, hsets.child]
      by_cases hn : n = m
      · subst hn
        have hp' : ¬(parents ++ [name]) <+: p := fun h => hp (by simpa using h)
        rw [if_pos rfl, hc]
        exact ih hput hp'
      · rw [if_neg hn]
        exact ⟨fun x hx => ⟨x, hx, .refl x⟩, fun h => h⟩

variable {k : DefinitionKind} {fs : Fields} {keys : List String} {i : NamedItem} {l' : Library}
  {t₁ : Value}

theorem Grows.put (hgrows : Grows K t t₁) (h : putMember node name parents t₁ = .ok t')
    (hkept : ∀ q x, nodeAt? t (parents ++ name :: q) = some x →
      ∃ x', nodeAt? node q = some x' ∧ Keeps x x')
    (hnew : ∀ q x', nodeAt? node q = some x' → nodeAt? t (parents ++ name :: q) = none →
      K (parents ++ name :: q) ∧ IsFormed x') : Grows K t t' where
  kept p x hne hx := by
    by_cases hp : (parents ++ [name]) <+: p
    · obtain ⟨q, rfl⟩ := hp
      rw [append_assoc, singleton_append] at hx ⊢
      rw [nodeAt?_put h]
      exact hkept q x hx
    · obtain ⟨x₁, hx₁, hkeeps⟩ := hgrows.kept p x hne hx
      obtain ⟨x', hx', hkeeps'⟩ := (nodeAt?_put_other h hp).1 x₁ hx₁
      exact ⟨x', hx', hkeeps.trans hkeeps'⟩
  new p x' hx' hnone := by
    by_cases hp : (parents ++ [name]) <+: p
    · obtain ⟨q, rfl⟩ := hp
      rw [append_assoc] at hx' hnone ⊢
      exact hnew q x' (nodeAt?_put h q ▸ hx') hnone
    · cases hx₁ : nodeAt? t₁ p with
      | none => cases ((nodeAt?_put_other h hp).2 hx₁).symm.trans hx'
      | some x₁ =>
        obtain ⟨y, hy, hkeeps⟩ := (nodeAt?_put_other h hp).1 x₁ hx₁
        cases hy.symm.trans hx'
        exact (hgrows.new p x₁ hx₁ hnone).imp_right (·.keeps hkeeps)

theorem Grows.put_new (hgrows : Grows K t t₁) (hK : K (parents ++ [name]))
    (hnone : nodeAt? t (parents ++ [name]) = none) (h : putMember node name parents t₁ = .ok t')
    (hformed : IsFormed node) (hbare : ∀ k, child? node k = none) : Grows K t t' := by
  refine hgrows.put h (fun q x hx => ?_) fun q x' hx' _ => ?_
  · rw [← singleton_append, ← append_assoc, nodeAt?_append, hnone] at hx
    cases hx
  · cases q with
    | nil => exact ⟨hK, Option.some.inj hx' ▸ hformed⟩
    | cons k q =>
      rw [nodeAt?_cons, hbare] at hx'
      cases hx'

theorem grows_put_again
    (h : putMember node name parents t = .ok t') (hold : nodeAt? t (parents ++ [name]) = some old)
    (hkeeps : Keeps old node) (hchild : ∀ k, child? node k = child? old k) : Grows K t t' := by
  have hbelow : ∀ q, nodeAt? t (parents ++ name :: q) = nodeAt? old q := by
    intro q
    rw [← singleton_append, ← append_assoc, nodeAt?_append, hold, Option.bind_some]
  have hsame : ∀ k q, nodeAt? node (k :: q) = nodeAt? old (k :: q) := by
    intro k q
    rw [nodeAt?_cons, hchild, ← nodeAt?_cons]
  refine (Grows.refl t).put h (fun q x hx => ?_) fun q x' hx' hnone => ?_
  · rw [hbelow] at hx
    cases q with
    | nil => exact ⟨node, rfl, Option.some.inj hx ▸ hkeeps⟩
    | cons k q => exact ⟨x, (hsame k q).trans hx, .refl x⟩
  · rw [hbelow] at hnone
    cases q with
    | nil => cases hnone
    | cons k q => cases hx'.symm.trans ((hsame k q).trans hnone)

/-! ## Items -/

def lookup (items : List NamedItem) (key : String) : Option Fields :=
  (items.find? fun i => i.1 == key).map Prod.snd

def HasKind (fs : Fields) (k : DefinitionKind) : Prop := get? fs "type" = some (.text k.name)

/-- Items with a kind, none of which brings members. -/
def AreSound (items : List NamedItem) : Prop :=
  ∀ i ∈ items, (∃ k, HasKind i.2 k) ∧ ∀ v, get? i.2 "members" = some v → v = .record []

theorem dropLast_append_getLast (key : String) :
    (splitOn key ".").dropLast ++ [(splitOn key ".").getLast?.getD key] = splitOn key "." := by
  have hne := Text.splitOn_ne_nil key "."
  rw [getLast?_eq_some_getLast hne, Option.getD_some, dropLast_concat_getLast]

/-- A node without members that a header documents. -/
structure IsLeaf (k : DefinitionKind) (fs : Fields) : Prop where
  kind : HasKind fs k
  members : get? fs "members" = none
  added : get? fs "auto_add" = none

theorem IsLeaf.isFormed (h : IsLeaf k fs) (hc : k ≠ .classLike) (hs : k ≠ .space) :
    IsFormed (.record fs) := by
  refine ⟨⟨k, (get?_record _ _).trans h.kind, fun h => (h.elim hc hs).elim, fun _ _ => ?_⟩, fun h' => ?_⟩
  · rw [get?_record, h.members]
  · rw [get?_record, h.added] at h'
    cases h'

theorem child?_leaf (h : get? fs "members" = none ∨
    get? fs "members" = some (.record [])) (k : String) : child? (.record fs) k = none := by
  rw [child?, get?_record]
  obtain h | h := h
  all_goals
    rw [h]
    rfl

/-! ## Steps -/

section Reading

variable {α β : Type} {E : Refusal → Library → Prop} {P : Library → Prop} {R : β → Library → Prop}
  (hE : ∀ e l, P l → E e l)

include hE

theorem orFail_bind {r : Result α} {f : α → LibraryM β}
    (h : ∀ a, r = .ok a → Leads E P (f a) R) : Leads E P (orFail r >>= f) R := by
  cases r with
  | ok a => exact h a rfl
  | error e => exact .throw fun l hl => hE _ l hl

variable {f : Value → LibraryM β} {item : Fields} {key : String}

theorem itemField_bind (h : ∀ v, get? item key = some v → Leads E P (f v) R) :
    Leads E P (itemField item key >>= f) R :=
  orFail_bind hE fun v hv =>
    h v ((get?_record item key).symm.trans (Value.field_eq_ok.1 hv))

theorem itemOption_bind (h : ∀ v, Leads E P (f v) R) : Leads E P (itemOption item key >>= f) R := by
  rw [itemOption, bind_assoc]
  exact itemField_bind hE fun _ _ => orFail_bind hE fun v _ => h v

theorem functionNode_bind {s : Source} {f : Fields → LibraryM β}
    (h : ∀ fs, IsLeaf .function fs → Leads E P (f fs) R) :
    Leads E P (functionNode s item >>= f) R := by
  rw [functionNode]
  simp only [bind_assoc]
  refine itemField_bind hE fun name _ => itemField_bind hE fun doc _ => ?_
  refine itemField_bind hE fun args _ => itemField_bind hE fun ret _ => ?_
  exact itemOption_bind hE fun static => itemField_bind hE fun text _ => h _ ⟨rfl, rfl, rfl⟩

end Reading

variable {α β : Type} {E : Refusal → Library → Prop} {R : β → Library → Prop} {l : Library}

theorem membersBelow_bind (hE : ∀ e, E e l) {f : Value → LibraryM β}
    (h : ∀ node ms, nodeAt? l.tree parents = some node → node.get? "members" = some ms →
      Leads E (· = l) (f ms) R) : Leads E (· = l) (membersBelow parents >>= f) R := by
  rw [membersBelow, bind_assoc]
  refine .get_bind fun l' hl' => ?_
  subst hl'
  refine orFail_bind (fun e _ hl => hl ▸ hE e) fun ms hms => ?_
  obtain ⟨node, hnode, hms⟩ := bind_eq_ok.1 hms
  exact h node ms (by rw [nodeAt?, hnode]; rfl) (Value.field_eq_ok.1 hms)

theorem leads_place (hE : ∀ e, E e l) {R : PUnit → Library → Prop}
    (h : ∀ t', putMember node name parents l.tree = .ok t' → R ⟨⟩ { l with tree := t' }) :
    Leads E (· = l) (place parents name node) R := by
  refine .get_bind fun l' hl' => ?_
  subst hl'
  refine orFail_bind (fun e _ hl => hl ▸ hE e) fun t' ht' => .modify fun _ hl => ?_
  rw [hl]
  exact h t' ht'

theorem freePlace_bind
    (hE : ∀ e, E e l) {s : Source} {key : String} {f : List String × String → LibraryM β}
    (h : ∀ parents name, parents ++ [name] = splitOn key "." →
      nodeAt? l.tree (parents ++ [name]) = none → Leads E (· = l) (f (parents, name)) R) :
    Leads E (· = l) (freePlace s key >>= f) R := by
  have hE' : ∀ e l', l' = l → E e l' := fun e _ hl' => hl' ▸ hE e
  rw [freePlace, bind_assoc]
  refine membersBelow_bind hE fun node ms hnode hms => ?_
  rw [bind_assoc]
  refine orFail_bind hE' fun b hb => ?_
  cases b with
  | true =>
    simp only [if_true, bind_assoc]
    refine orFail_bind hE' fun old hold => orFail_bind hE' fun c hc => ?_
    cases c with
    | true =>
      simp only [if_true, bind_assoc]
      exact orFail_bind hE' fun path hpath => .throw fun l' hl' => hE' _ l' hl'
    | false => exact Leads.throw fun l' hl' => hE' _ l' hl'
  | false =>
    refine h _ _ (dropLast_append_getLast key) ?_
    rw [nodeAt?_append, hnode, Option.bind_some, nodeAt?_cons, child?, hms, Option.bind_some,
      Value.get?_of_holds hb]
    rfl

/-- Whether a computation lets the tree of a library grow, whatever its outcome, and its result has a
property. -/
def Grown (K : List String → Prop) (l : Library) (x : LibraryM α) (Q : α → Library → Prop) : Prop :=
  Leads (fun _ l' => Grows K l.tree l'.tree) (· = l) x
    fun a l' => Grows K l.tree l'.tree ∧ Q a l'

theorem Grown.bind
    {x : LibraryM α} {f : α → LibraryM β} {Q : α → Library → Prop} (hx : Grown K l x Q)
    (hf : ∀ a l', Grows K l.tree l'.tree → Q a l' → Grown K l' (f a) R) : Grown K l (x >>= f) R := by
  refine Leads.bind hx fun a => Leads.each fun l₁ hl₁ => ?_
  exact Leads.imp (hf a l₁ hl₁.1 hl₁.2) (fun _ _ => hl₁.1.trans) fun _ _ => And.imp_left hl₁.1.trans

theorem Grown.pure {a : α} {Q : α → Library → Prop} (h : Q a l) : Grown K l (Pure.pure a) Q :=
  Leads.pure fun _ hl' => by subst hl'; exact ⟨.refl _, h⟩

theorem Grown.throw (e : Refusal) {Q : α → Library → Prop} : Grown K l (throw e) Q :=
  Leads.throw (grows_of_eq e)

theorem grown_printLine (text : String) : Grown K l (printLine text) fun _ _ => True :=
  Leads.modify fun _ hl' => by subst hl'; exact ⟨.refl _, trivial⟩

/-! ## Placing items -/

variable {items : List NamedItem} {s : Source} {key : String} {item : Fields}

theorem grown_placeFunction (hK : K (splitOn key ".")) :
    Grown K l (placeFunction s key item) fun _ l' => nodeAt? l.tree (splitOn key ".") = none ∧
        ∃ fs, nodeAt? l'.tree (splitOn key ".") = some (.record fs) ∧ HasKind fs .function := by
  refine freePlace_bind (fun _ => .refl _) fun parents name hpath hnone => ?_
  rw [← hpath] at hK ⊢
  -- the state after a node for the function was put
  let F (l' : Library) : Prop := Grows K l.tree l'.tree ∧
    ∃ fs, nodeAt? l'.tree (parents ++ [name]) = some (.record fs) ∧ HasKind fs .function
  have hfail : ∀ (e : Refusal) l', F l' → Grows K l.tree l'.tree := fun _ _ h => h.1
  have hput : ∀ fs, IsLeaf .function fs → ∀ l', Grows K l.tree l'.tree →
      Leads (fun _ l' => Grows K l.tree l'.tree) (· = l') (place parents name (.record fs))
        fun _ => F := by
    intro fs hfs l' hl'
    refine leads_place (fun _ => hl') fun t' ht' => ⟨?_, fs, nodeAt?_put ht' [], hfs.kind⟩
    exact hl'.put_new hK hnone ht' (hfs.isFormed nofun nofun) (child?_leaf (.inl hfs.members))
  refine functionNode_bind grows_of_eq fun fs hfs => ?_
  have hagain : ∀ v, Leads (fun _ l' => Grows K l.tree l'.tree) F
      (place parents name (.record (Fields.put "overload" v fs))) fun _ => F := by
    refine fun v => .each fun l' hl' => hput _ ⟨?_, ?_, ?_⟩ l' hl'.1
    · exact (get?_put _ _ _ _).trans hfs.kind
    · exact (get?_put _ _ _ _).trans hfs.members
    · exact (get?_put _ _ _ _).trans hfs.added
  have hoverloads : ∀ xs done, Leads (fun _ l' => Grows K l.tree l'.tree) F
      (placeOverloads s parents name fs done xs) fun _ => F := by
    intro xs
    induction xs with
    | nil => exact fun done => .pure fun _ h => h
    | cons o xs ih =>
      refine fun done => orFail_bind hfail fun item _ => functionNode_bind hfail fun gs _ => ?_
      exact (hagain _).bind fun _ => ih _
  refine (Leads.bind (hput fs hfs l (.refl _)) fun _ => ?_).post fun _ l' (hl' : F l') => ⟨hl'.1, hnone, hl'.2⟩
  split
  · exact (hagain _).bind fun _ => hoverloads _ _
  · exact .pure fun _ h => h

theorem grown_placeNode (hK : K (splitOn key ".")) (hk : k ≠ .space) {between : LibraryM Fields}
    (hbetween : Leads (fun _ l' => Grows K l.tree l'.tree) (· = l) between fun more l' => l' = l ∧
      get? more "auto_add" = none ∧
      get? more "members" = if k = .classLike then some (.record []) else none) :
    Grown K l (placeNode s key k.name item between) fun _ l' =>
      nodeAt? l.tree (splitOn key ".") = none ∧
        ∃ fs, nodeAt? l'.tree (splitOn key ".") = some (.record fs) ∧ HasKind fs k := by
  refine freePlace_bind (fun _ => .refl _) fun parents name hpath hnone => ?_
  rw [← hpath] at hK ⊢
  refine itemField_bind grows_of_eq fun itemName _ => itemField_bind grows_of_eq fun doc _ => ?_
  refine hbetween.bind fun more => .each fun l' hl' => ?_
  obtain ⟨rfl, hadded, hmembers⟩ := hl'
  refine itemField_bind grows_of_eq fun text _ => leads_place (fun _ => .refl _) fun t' ht' => ?_
  have hget : ∀ f ∈ ["members", "auto_add"], get? ([("type", .text k.name), ("name", itemName),
      ("doc", doc)] ++ more ++ [("def", text), ("header_path", optionalText s.path)]) f =
        get? more f := by
    intro f hf
    rw [get?_append, get?_append]
    obtain rfl | rfl : f = "members" ∨ f = "auto_add" := by simpa using hf
    · simp [get?]
    · simp [get?]
  have hmembers := (hget _ (by simp)).trans hmembers
  have hadded := (hget _ (by simp)).trans hadded
  have hformed : IsFormed (.record ([("type", .text k.name), ("name", itemName), ("doc", doc)] ++
      more ++ [("def", text), ("header_path", optionalText s.path)])) := by
    by_cases hclass : k = .classLike
    · subst hclass
      refine ⟨⟨.classLike, rfl, fun _ => ⟨[], ?_⟩, fun h => absurd rfl h⟩, fun h => ?_⟩
      · rw [get?_record, hmembers]
        rfl
      · rw [get?_record, hadded] at h
        cases h
    · rw [if_neg hclass] at hmembers
      exact IsLeaf.isFormed ⟨rfl, hmembers, hadded⟩ hclass hk
  refine ⟨(Grows.refl _).put_new hK hnone ht' hformed (child?_leaf ?_),
    hnone, _, nodeAt?_put ht' [], rfl⟩
  split at hmembers
  · exact .inr hmembers
  · exact .inl hmembers

theorem keeps_documented {doc node₁ : Value} (hmodule : IsModule old)
    (hmembers : old.get? "members" = some (.record fs)) (hdoc : old.withField "doc" doc = .ok node₁)
    (hnode : node₁.withField "members" (.record fs) = .ok node) :
    Keeps old node ∧ ∀ k, child? node k = child? old k := by
  have hget : node.get? "members" = some (.record fs) :=
    (get?_withField hnode _).trans (if_pos rfl)
  refine ⟨⟨fun f hf hf' => ?_, fun h => ?_, fun _ => ⟨fs, hget⟩⟩, fun k => ?_⟩
  · rw [get?_withField hnode, if_neg hf, get?_withField hdoc, if_neg fun h => hf' h hmodule]
  · rw [hmembers] at h
    cases h
  · rw [child?, child?, hget, hmembers]

theorem grown_visitModule {names : List String} (hK : K names) (hne : names ≠ [])
    (hformed : IsFormedTree l.tree) (hsound : AreSound items) :
    Grown K l (visitModule items names) fun _ l' => (nodeAt? l'.tree names).isSome := by
  have hnames : names.dropLast ++ [names.getLast?.getD ""] = names := by
    rw [getLast?_eq_some_getLast hne, Option.getD_some, dropLast_concat_getLast]
  unfold visitModule
  dsimp only
  split
  · exact .throw _
  · rename_i k item hfind
    refine itemField_bind grows_of_eq fun doc _ => itemField_bind grows_of_eq fun members hmembers => ?_
    obtain rfl := (hsound _ (mem_of_find?_eq_some hfind)).2 members hmembers
    refine membersBelow_bind (fun _ => .refl _) fun above ms habove hms => ?_
    have hchild : nodeAt? l.tree names = ms.get? (names.getLast?.getD "") := by
      have happ := nodeAt?_append l.tree names.dropLast [names.getLast?.getD ""]
      rw [hnames, habove, Option.bind_some, nodeAt?_cons, child?, hms] at happ
      exact happ.trans (Option.bind_fun_some _)
    refine orFail_bind grows_of_eq fun b hb => ?_
    cases b with
    | false =>
      refine leads_place (fun _ => .refl _) fun t' ht' => ?_
      have hnone := hchild.trans (Value.get?_of_holds hb)
      rw [← hnames] at hnone hK ⊢
      refine ⟨(Grows.refl _).put_new hK hnone ht' ?_ ?_, ?_⟩
      · exact ⟨⟨.space, rfl, fun _ => ⟨[], rfl⟩, fun _ h => absurd rfl h⟩, fun _ => rfl⟩
      · exact child?_leaf (.inr rfl)
      · exact Option.isSome_iff_exists.2 ⟨_, nodeAt?_put ht' []⟩
    | true =>
      refine orFail_bind grows_of_eq fun old hold => orFail_bind grows_of_eq fun c hc => ?_
      have hold := hchild.trans (Value.field_eq_ok.1 hold)
      have hstays : Grown K l (pure ()) fun _ l' => (nodeAt? l'.tree names).isSome :=
        .pure (by rw [hold]; rfl)
      cases c with
      | false => exact hstays
      | true =>
        refine orFail_bind grows_of_eq fun added hadded => ?_
        have hmodule := (hformed _ _ hne hold).added (by rw [Value.field_eq_ok.1 hadded]; rfl)
        split
        · refine orFail_bind grows_of_eq fun fs hfs => orFail_bind grows_of_eq fun gs hgs => ?_
          obtain ⟨mo, hmo, hfs⟩ := bind_eq_ok.1 hfs
          obtain rfl : gs = [] := (Except.ok.inj hgs).symm
          obtain rfl : mo = .record fs := by
            cases mo with
            | record gs => rw [Except.ok.inj hfs]
            | _ => cases hfs
          refine orFail_bind grows_of_eq fun node hnode => leads_place (fun _ => .refl _) fun t' ht' => ?_
          obtain ⟨node₁, hdoc, hnode⟩ := bind_eq_ok.1 hnode
          obtain ⟨hkeeps, hchildren⟩ := keeps_documented hmodule (Value.field_eq_ok.1 hmo) hdoc hnode
          rw [← hnames] at hold ⊢
          exact ⟨grows_put_again ht' hold hkeeps hchildren,
            Option.isSome_iff_exists.2 ⟨_, nodeAt?_put ht' []⟩⟩
        · exact hstays

/-! ## Names of modules -/

theorem not_mem_of_mem_piecesFrom {c : Char} {piece cs : List Char} (hpiece : c ∉ piece) :
    ∀ p ∈ piecesFrom [c] 0 piece cs, c ∉ p := by
  induction cs generalizing piece with
  | nil => simpa [piecesFrom] using hpiece
  | cons d cs ih =>
    by_cases hd : c = d
    · subst hd
      have hnil : c ∉ ([] : List Char) := by simp
      simpa [piecesFrom, hpiece] using ih hnil
    · have hmore : c ∉ d :: piece := by simp [hd, hpiece]
      simpa [piecesFrom, hd] using ih hmore

theorem not_mem_of_mem_splitOn (h : n ∈ splitOn key ".") : '.' ∉ n.toList := by
  rw [Text.splitOn_singleton (c := '.') rfl, mem_map] at h
  obtain ⟨cs, hcs, rfl⟩ := h
  simpa using not_mem_of_mem_piecesFrom (by simp) cs hcs

theorem splitOn_intercalate (hne : p ≠ []) (h : ∀ n ∈ p, '.' ∉ n.toList) :
    splitOn (String.intercalate "." p) "." = p := by
  have hdot : ".".toList = ['.'] := rfl
  induction p with
  | nil => exact absurd rfl hne
  | cons n p ih =>
    have hn := h n (mem_cons_self ..)
    cases p with
    | nil => simpa using Text.splitOn_of_not_mem hdot hn
    | cons m p =>
      have hlist :
          String.intercalate "." (n :: m :: p) = n ++ "." ++ String.intercalate "." (m :: p) :=
        String.toList_injective (by simp)
      rw [hlist, Text.splitOn_split hdot, Text.splitOn_of_not_mem hdot hn,
        ih nofun fun k hk => h k (mem_cons_of_mem _ hk)]
      rfl

theorem mem_leads (h : q ∈ leads p) : q ≠ [] ∧ q <+: p := by
  induction p generalizing q with
  | nil => cases h
  | cons n p ih =>
    obtain rfl | ⟨q, hq, rfl⟩ := mem_cons.1 h |>.imp_right mem_map.1
    · exact ⟨nofun, by simp⟩
    · exact ⟨nofun, by simpa using (ih hq).2⟩

theorem mem_leads_self (h : p ≠ []) : p ∈ leads p := by
  induction p with
  | nil => exact absurd rfl h
  | cons n p ih =>
    cases p with
    | nil => exact mem_singleton_self _
    | cons m p => exact mem_cons_of_mem _ (mem_map_of_mem (ih nofun))

/-! ## All items -/

theorem Grown.forM {xs : List α} {f : α → LibraryM PUnit} {T : α → Value → Prop}
    (hT : ∀ a t t', T a t → Grows K t t' → T a t')
    (hf : ∀ a ∈ xs, ∀ l', Grows K l.tree l'.tree → Grown K l' (f a) fun _ l'' => T a l''.tree) :
    Grown K l (xs.forM f) fun _ l' => ∀ a ∈ xs, T a l'.tree := by
  induction xs generalizing l with
  | nil => exact .pure nofun
  | cons x xs ih =>
    refine (hf x (mem_cons_self ..) l (.refl _)).bind fun _ l₁ hl₁ hx => ?_
    refine (ih fun a ha l' hl' => hf a (mem_cons_of_mem _ ha) l' (hl₁.trans hl')).post fun _ l' ⟨hl', hxs⟩ => ⟨hl', ?_⟩
    exact forall_mem_cons.2 ⟨hT _ _ _ hx hl', hxs⟩

def kindAt (items : List NamedItem) (key : String) : Option Value :=
  (lookup items key).bind (get? · "type")

/-- Whether an item of a kind is at a path of a tree; only modules were there before. -/
def IsPlaced (k : DefinitionKind) (t t' : Value) (p : List String) : Prop :=
  ∃ x, nodeAt? t' p = some x ∧
    (k ≠ .space → nodeAt? t p = none ∧ x.get? "type" = some (.text k.name))

theorem IsPlaced.grows {t₂ : Value} (h : IsPlaced k t₁ t₂ (splitOn key "."))
    (hbefore : Grows K t t₁) (hafter : Grows K t₂ t') : IsPlaced k t t' (splitOn key ".") := by
  obtain ⟨x, hx, hk⟩ := h
  obtain ⟨x', hx', hkeeps⟩ := hafter.kept _ x (Text.splitOn_ne_nil key _) hx
  refine ⟨x', hx', fun hspace => ?_⟩
  obtain ⟨hnone, htype⟩ := hk hspace
  refine ⟨?_, hkeeps.type.trans htype⟩
  refine Option.eq_none_iff_forall_ne_some.2 fun y hy => ?_
  obtain ⟨y', hy', -⟩ := hbefore.kept _ y (Text.splitOn_ne_nil key _) hy
  rw [hnone] at hy'
  cases hy'

theorem lookup_map {g : NamedItem → NamedItem} (hg : ∀ i, (g i).1 = i.1) (key : String) :
    lookup (items.map g) key = (items.find? fun i => i.1 == key).map fun i => (g i).2 := by
  rw [lookup, find?_map, Option.map_map]
  simp only [Function.comp_def, hg]

/-- Whether items have the kinds of others, and none brings members. -/
def IsCompletion (items items' : List NamedItem) : Prop :=
  AreSound items' ∧ ∀ key v, kindAt items key = some v → kindAt items' key = some v

theorem IsCompletion.refl (h : AreSound items) : IsCompletion items items := ⟨h, fun _ _ h => h⟩

section

variable (hsound : AreSound items) (hformed : IsFormedTree l.tree)
  (hK : ∀ p, p ≠ [] → p <+: splitOn key "." → K p)

include hsound hformed hK

omit hformed hK in
theorem isCompletion_replaced {item' : Fields} (hfind : (items.find? fun i => i.1 == key) = some i)
    (htype : get? item' "type" = get? i.2 "type")
    (hmembers : ∀ v, get? item' "members" = some v → v = .record []) :
    IsCompletion items (items.map fun i => if i.1 == key then (key, item') else i) := by
  refine ⟨forall_mem_map.2 fun j hj => ?_, fun k v hv => ?_⟩
  · split
    · exact ⟨(hsound i (mem_of_find?_eq_some hfind)).1.imp fun _ h => htype.trans h, hmembers⟩
    · exact hsound j hj
  · rw [kindAt, lookup_map fun j => by split <;> simp_all]
    rw [kindAt, lookup] at hv
    by_cases hk : k = key
    · subst hk
      have hi := find?_some hfind
      rw [hfind] at hv ⊢
      simp only [Option.map_some, Option.bind_some, hi, if_true] at hv ⊢
      exact htype.trans hv
    · obtain ⟨fs, hfs, hv⟩ := Option.bind_eq_some_iff.1 hv
      obtain ⟨j, hj, rfl⟩ := Option.map_eq_some_iff.1 hfs
      have hjk : j.1 = k := by simpa using find?_some hj
      simp [hj, hjk, hk, hv]

theorem grown_visitModules :
    Grown K l ((leads (splitOn key ".")).forM (visitModule items)) fun _ l' =>
      (nodeAt? l'.tree (splitOn key ".")).isSome := by
  let T (p : List String) (t : Value) : Prop := p ≠ [] → (nodeAt? t p).isSome
  have hT : ∀ p t t', T p t → Grows K t t' → T p t' := by
    intro p t t' ht hgrows hp
    obtain ⟨x, hx⟩ := Option.isSome_iff_exists.1 (ht hp)
    obtain ⟨x', hx', -⟩ := hgrows.kept p x hp hx
    exact Option.isSome_iff_exists.2 ⟨x', hx'⟩
  refine (Grown.forM hT fun p hp l' hl' => ?_).post fun _ l' ⟨hl', h⟩ =>
    ⟨hl', h _ (mem_leads_self (Text.splitOn_ne_nil key _)) (Text.splitOn_ne_nil key _)⟩
  obtain ⟨hne, hlead⟩ := mem_leads hp
  exact (grown_visitModule (hK p hne hlead) hne (hformed.grows hl') hsound).post fun _ _ h => ⟨h.1, fun _ => h.2⟩

theorem grown_placeItem :
    Grown K l (placeItem s items key) fun items' l' => IsCompletion items items' ∧
      ∃ k : DefinitionKind, kindAt items key = some (.text k.name) ∧
        IsPlaced k l.tree l'.tree (splitOn key ".") := by
  have hself := hK _ (Text.splitOn_ne_nil key _) prefix_rfl
  unfold placeItem
  split
  · exact .throw _
  · rename_i k' item hfind
    have hlookup : lookup items key = some item := by
      rw [lookup, hfind]
      rfl
    obtain ⟨⟨k, hk⟩, hmembers⟩ := hsound _ (mem_of_find?_eq_some hfind)
    have hkind : kindAt items key = some (.text k.name) := by
      rw [kindAt, hlookup]
      exact hk
    -- all but modules are placed where nothing was
    have hleaf : ∀ {x : LibraryM PUnit}, (Grown K l x fun _ l' =>
        nodeAt? l.tree (splitOn key ".") = none ∧ ∃ fs,
          nodeAt? l'.tree (splitOn key ".") = some (.record fs) ∧ HasKind fs k) →
        Grown K l (x >>= fun _ => pure items) fun items' l' => IsCompletion items items' ∧
          ∃ k : DefinitionKind, kindAt items key = some (.text k.name) ∧
            IsPlaced k l.tree l'.tree (splitOn key ".") := by
      intro x hx
      refine Leads.bind hx fun _ => Leads.pure fun l' ⟨hgrows, hnone, fs, hfs, hkind'⟩ => ?_
      exact ⟨hgrows, .refl hsound, k, hkind, .record fs, hfs, fun _ =>
        ⟨hnone, (get?_record ..).trans hkind'⟩⟩
    rw [show get? item "type" = some (.text k.name) from hk]
    cases k with
    | space =>
      dsimp only [DefinitionKind.name]
      generalize hnamed : (if Fields.has item "name" then item
        else Fields.put "name" (.text (Text.replace key "." "::")) item) = named
      generalize hwhole : (if Fields.has named "members" then named
        else Fields.put "members" (.record []) named) = whole
      have hother : ∀ f, f ≠ "name" → get? named f = get? item f := by
        intro f hf
        rw [← hnamed]
        split
        · rfl
        · rw [get?_put, if_neg hf]
      have htype : get? whole "type" = get? item "type" := by
        rw [← hwhole, ← hother _ (by decide)]
        split
        · rfl
        · rw [get?_put, if_neg (by decide)]
      have hempty : ∀ v, get? whole "members" = some v → v = .record [] := by
        intro v hv
        rw [← hwhole] at hv
        split at hv
        · exact hmembers v (hother "members" (by decide) ▸ hv)
        · rw [get?_put] at hv
          exact (Option.some.inj hv).symm
      have hcompletion := isCompletion_replaced hsound hfind htype hempty
      refine Leads.bind (grown_visitModules hcompletion.1 hformed hK) fun _ =>
        Leads.pure fun l' ⟨hgrows, hsome⟩ => ⟨hgrows, hcompletion, .space, hkind, ?_⟩
      obtain ⟨x, hx⟩ := Option.isSome_iff_exists.1 hsome
      exact ⟨x, hx, fun h => absurd rfl h⟩
    | value =>
      refine hleaf (grown_placeNode (k := .value) hself nofun ?_)
      refine itemField_bind grows_of_eq fun _ _ => itemOption_bind grows_of_eq fun _ => ?_
      exact itemOption_bind grows_of_eq fun _ => .pure fun l' hl' => ⟨hl', rfl, rfl⟩
    | classLike =>
      exact hleaf (grown_placeNode (k := .classLike) hself nofun
        (.pure fun l' hl' => ⟨hl', rfl, rfl⟩))
    | enumeration =>
      refine hleaf (grown_placeNode (k := .enumeration) hself nofun ?_)
      exact itemField_bind grows_of_eq fun _ _ => .pure fun l' hl' => ⟨hl', rfl, rfl⟩
    | function => exact hleaf (grown_placeFunction hself)

omit hK in
theorem grown_placeItems
    {order : List String} (hK : ∀ key ∈ order, ∀ p, p ≠ [] → p <+: splitOn key "." → K p) :
    Grown K l (placeItems s items order) fun _ l' => ∀ key ∈ order,
      ∃ k : DefinitionKind, (∀ v, kindAt items key = some v → v = .text k.name) ∧
        IsPlaced k l.tree l'.tree (splitOn key ".") := by
  induction order generalizing items l with
  | nil => exact .pure nofun
  | cons key order ih =>
    refine (grown_placeItem hsound hformed (hK key (mem_cons_self ..))).bind
      fun items' l₁ hl₁ ⟨hcompletion, k, hkind, hplaced⟩ => ?_
    refine (ih hcompletion.1 (hformed.grows hl₁) fun key' hkey' =>
      hK key' (mem_cons_of_mem _ hkey')).post fun _ l' ⟨hl', hrest⟩ => ⟨hl', ?_⟩
    refine forall_mem_cons.2 ⟨⟨k, fun v hv => ?_, hplaced.grows (.refl _) hl'⟩, ?_⟩
    · exact Option.some.inj (hv.symm.trans hkind)
    · intro key' hkey'
      obtain ⟨k', hkind', hplaced'⟩ := hrest key' hkey'
      exact ⟨k', fun v hv => hkind' v (hcompletion.2 _ _ hv), hplaced'.grows hl₁ (.refl _)⟩

end

/-! ## Modules around items -/

theorem lookup_append (items more : List NamedItem) (key : String) :
    lookup (items ++ more) key = (lookup items key).or (lookup more key) := by
  rw [lookup, find?_append, Option.map_or, lookup, lookup]

theorem isCompletion_append (hsound : AreSound items) :
    IsCompletion items (items ++ keys.map fun k => (k, addedModule k)) := by
  refine ⟨forall_mem_append.2 ⟨hsound, forall_mem_map.2 fun k _ => ?_⟩, fun key v hv => ?_⟩
  · exact ⟨⟨.space, rfl⟩, fun v hv => (Option.some.inj hv).symm⟩
  · obtain ⟨item, hitem, hv⟩ := Option.bind_eq_some_iff.1 hv
    rw [kindAt, lookup_append, hitem]
    exact hv

/-- The names of an order are those of items and of the modules around them. -/
def Covers (keys order : List String) : Prop :=
  keys ⊆ order ∧ ∀ key ∈ order, ∃ key' ∈ keys, splitOn key "." <+: splitOn key' "."

theorem grown_addModules (hsound : AreSound items) :
    Grown K l (addModules s items key) fun r _ => IsCompletion items r.1 ∧
      ∀ k ∈ r.2, splitOn k "." <+: splitOn key "." := by
  refine (Grown.forM (T := fun _ _ => True) (fun _ _ _ h _ => h) fun k hk l' hl' => ?_).bind
    fun _ l' hl' _ => .pure ⟨isCompletion_append hsound, fun k hk => ?_⟩
  · split
    · exact .pure trivial
    · exact grown_printLine _
  · obtain ⟨p, hp, rfl⟩ := mem_map.1 (mem_filter.1 hk).1
    obtain ⟨hne, hlead⟩ := mem_leads hp
    rw [splitOn_intercalate hne fun n hn => not_mem_of_mem_splitOn (hlead.subset hn)]
    exact hlead

theorem grown_addAllModules (hsound : AreSound items) :
    Grown K l (addAllModules s items keys) fun r _ => IsCompletion items r.1 ∧ Covers keys r.2 := by
  induction keys generalizing items l with
  | nil => exact .pure ⟨.refl hsound, nofun, nofun⟩
  | cons key keys ih =>
    unfold addAllModules
    split
    · exact .throw _
    · refine (grown_addModules hsound).bind fun r l₁ hl₁ ⟨hcompletion, hr⟩ => ?_
      refine (ih hcompletion.1).bind fun r' l₂ hl₂ ⟨hcompletion', hcovers⟩ => .pure ⟨?_, ?_, ?_⟩
      · exact ⟨hcompletion'.1, fun k v hv => hcompletion'.2 k v (hcompletion.2 k v hv)⟩
      · exact cons_subset.2 ⟨by simp, fun k hk => by simp [hcovers.1 hk]⟩
      · intro k hk
        obtain hk | rfl | hk := (mem_append.1 hk).imp_right mem_cons.1
        · exact ⟨key, mem_cons_self .., hr k hk⟩
        · exact ⟨k, mem_cons_self .., prefix_rfl⟩
        · obtain ⟨key', hkey', hlead⟩ := hcovers.2 k hk
          exact ⟨key', mem_cons_of_mem _ hkey', hlead⟩

/-! ## Items of a header -/

/-- Whether the fields of an item have a kind and no members. -/
def IsKnown (k : DefinitionKind) (fs : Fields) : Prop :=
  HasKind fs k ∧ get? fs "members" = none

theorem IsKnown.put {f : String} {v : Value} (h : IsKnown k item)
    (hf : "type" ≠ f ∧ "members" ≠ f := by decide) : IsKnown k (Fields.put f v item) :=
  ⟨(get?_put ..).trans ((if_neg hf.1).trans h.1), (get?_put ..).trans ((if_neg hf.2).trans h.2)⟩

section Completing

variable {k : DefinitionKind} {P : Fields → Prop} {S : β → Fields → Prop}

theorem lifted_bind {r : Result α} {f : α → ItemM β} (h : ∀ a, Gives P (f a) S) :
    Gives P ((liftM r : ItemM α) >>= f) S := by
  cases r with
  | ok a => exact h a
  | error e => exact Gives.throw _

theorem leads_setField {f : String} (v : Value) (hf : "type" ≠ f ∧ "members" ≠ f := by decide) :
    Gives (IsKnown k) (setField f v) fun _ => IsKnown k :=
  Leads.modify fun _ h => h.put hf

theorem leads_setOption (f : String) :
    Gives (IsKnown k) (setOption f) fun _ => IsKnown k := by
  refine .get_bind' fun fs => ?_
  split
  · exact lifted_bind fun v => leads_setField v
  · exact Gives.throw _

theorem leads_completeFrom (d : Definition) :
    Gives (fun fs => get? fs "members" = none) (completeFrom d)
      fun _ => IsKnown d.kind := by
  unfold completeFrom
  refine .bind (R := fun _ => IsKnown d.kind) (.modify fun fs hfs => ⟨?_, ?_⟩) fun _ => ?_
  · exact (get?_put ..).trans (if_pos rfl)
  · exact (get?_put ..).trans hfs
  extract_lets last rest
  have hrest : ∀ r, Gives (IsKnown d.kind) (rest r) fun _ => IsKnown d.kind := by
    have hdef := leads_setField (k := d.kind) (f := "def") (.text d.text)
    intro r
    dsimp only [rest]
    split
    · exact (leads_setOption _).bind fun _ => hdef
    · exact hdef
  clear_value rest
  split
  · exact lifted_bind fun v => (leads_setField _).bind hrest
  · refine (leads_setField _).bind fun _ => lifted_bind fun v => ?_
    exact (leads_setField _).bind hrest
  · refine lifted_bind fun s => (leads_setField _).bind fun _ => ?_
    refine (leads_setField _).bind fun _ => ?_
    exact (leads_setField _).bind hrest
  · refine lifted_bind fun v => (leads_setField _).bind fun _ => ?_
    refine (leads_setField _).bind fun _ => ?_
    split
    · exact (leads_setOption _).bind hrest
    · exact hrest ()
  · split
    · exact Gives.throw _
    · exact (leads_setField _).bind hrest

theorem leads_complete (code name : String) :
    Gives (fun fs => get? fs "members" = none) (complete code name)
      fun _ fs => ∃ k, IsKnown k fs := by
  refine .get_bind' fun fs => ?_
  split
  · exact lifted_bind fun d => (leads_completeFrom d).post fun _ _ h => ⟨_, h⟩
  · exact Gives.throw _
  · exact Gives.throw _

end Completing

theorem Grown.mapM {xs : List α} {f : α → LibraryM β} {S : β → Prop}
    (hf : ∀ a ∈ xs, ∀ l, Grown K l (f a) fun b _ => S b) :
    Grown K l (xs.mapM f) fun bs _ => ∀ b ∈ bs, S b := by
  induction xs generalizing l with
  | nil => exact .pure nofun
  | cons x xs ih =>
    rw [mapM_cons]
    refine (hf x (mem_cons_self ..) l).bind fun b _ _ hb => ?_
    refine (ih fun a ha => hf a (mem_cons_of_mem _ ha)).bind fun bs _ _ hbs => .pure ?_
    exact forall_mem_cons.2 ⟨hb, hbs⟩

theorem itemOf?_members {tags : List String} {comment : Fields}
    (h : itemOf? tags comment = .ok (some i)) : get? i.2 "members" = none := by
  unfold itemOf? at h
  split at h
  · cases h
  · split at h
    · cases h
    · split at h
      · cases h
      · obtain ⟨v, -, h⟩ := bind_eq_ok.1 h
        obtain ⟨entry, -, h⟩ := bind_eq_ok.1 h
        obtain ⟨brief, -, h⟩ := bind_eq_ok.1 h
        obtain ⟨start, -, h⟩ := bind_eq_ok.1 h
        obtain rfl := Option.some.inj (Except.ok.inj h)
        rfl

theorem grown_collectItems {comments : List Fields} (h : ∀ i ∈ items, get? i.2 "members" = none) :
    Grown K l (collectItems s items comments) fun items' _ =>
      ∀ i ∈ items', get? i.2 "members" = none := by
  induction comments generalizing items l with
  | nil => exact .pure h
  | cons comment comments ih =>
    refine orFail_bind grows_of_eq fun i? hi => ?_
    cases i? with
    | none => exact ih h
    | some i =>
      have hmembers := itemOf?_members hi
      dsimp only
      split
      · refine ih fun j hj => ?_
        obtain hj | hj := mem_append.1 hj
        · exact h j hj
        · exact mem_singleton.1 hj ▸ hmembers
      · rename_i _ old hfind
        split
        · exact Grown.throw _
        · refine (grown_printLine _).bind fun _ _ _ _ => ih fun j hj => ?_
          obtain ⟨k, hk, rfl⟩ := mem_map.1 hj
          split
          · have hold := h _ (mem_of_find?_eq_some hfind)
            unfold addOverload
            split
            all_goals exact (get?_put ..).trans ((if_neg (by decide)).trans hold)
          · exact h k hk

theorem grown_completeItem (name : String) :
    Grown K l (completeItem s name item) fun fs _ => ∃ a, completed s.code name item = (.ok a, fs) := by
  unfold completeItem
  rcases completed s.code name item with ⟨r, fs⟩
  cases r with
  | ok a => exact .pure ⟨a, rfl⟩
  | error e => exact .throw _

theorem grown_finishItem (h : get? i.2 "members" = none) :
    Grown K l (finishItem s i) fun j _ => ∃ k, IsKnown k j.2 := by
  refine (grown_completeItem i.1).bind fun item l₁ _ ⟨a, ha⟩ => ?_
  obtain ⟨k, hk⟩ := (leads_complete s.code i.1).apply h ha
  dsimp only
  split
  · exact .throw _
  · split
    · refine (Grown.mapM (S := fun _ => True) fun v _ l₂ => ?_).bind fun vs _ _ _ =>
        .pure ⟨k, hk.put⟩
      cases v with
      | record fs => exact (grown_completeItem i.1).bind fun _ _ _ _ => .pure trivial
      | _ => exact .pure trivial
    · exact .pure ⟨k, hk⟩

theorem grown_readItems : Grown K l (readItems s) fun items _ => AreSound items := by
  have hnone : ∀ i ∈ ([] : List NamedItem), get? i.2 "members" = none := by simp
  refine orFail_bind grows_of_eq fun comments _ => ?_
  refine (grown_collectItems hnone).bind fun items _ _ hitems => ?_
  refine Leads.post (Grown.mapM fun i hi _ => grown_finishItem (hitems i hi)) fun items' l ⟨hl, hknown⟩ => ⟨hl, fun i hi => ?_⟩
  obtain ⟨k, hk⟩ := hknown i hi
  exact ⟨⟨k, hk.1⟩, fun v hv => by rw [hk.2] at hv; cases hv⟩

/-! ## Headers -/

theorem runFrom_addHeader {l₁ : Library} (h : runFrom (readItems s) l = (.ok items, l₁)) :
    runFrom (addHeader s) l = runFrom (addItems s items) (started s l₁) := by
  rw [addHeader, Kconfig.runFrom_bind_ok h]
  rfl

/-- The paths at which a header with keys puts nodes. -/
def IsOf (s : Source) (keys : List String) (p : List String) : Prop :=
  p = [s.module_] ∨ ∃ key ∈ keys, p <+: splitOn key "."

theorem grown_addItems (hsound : AreSound items) (hformed : IsFormedTree l.tree) :
    Grown (IsOf s (items.map Prod.fst)) l (addItems s items) fun a l' =>
      a.keys.Perm (items.map Prod.fst) ∧ ∀ key item, lookup items key = some item →
        ∃ k, HasKind item k ∧ IsPlaced k l.tree l'.tree (splitOn key ".") := by
  unfold addItems
  dsimp only
  generalize hkeys : (items.map Prod.fst).mergeSort _ = keys
  have hperm : keys.Perm (items.map Prod.fst) := hkeys ▸ mergeSort_perm ..
  refine (grown_addAllModules hsound).bind fun r l₁ hl₁ ⟨hcompletion, hcovers⟩ => ?_
  refine (grown_placeItems hcompletion.1 (hformed.grows hl₁) fun key hkey p hp hlead => ?_).bind
    fun _ l₂ hl₂ hplaced => .pure ⟨hperm, fun key item hitem => ?_⟩
  · obtain ⟨key', hkey', hlead'⟩ := hcovers.2 key hkey
    exact .inr ⟨key', hperm.subset hkey', hlead.trans hlead'⟩
  · obtain ⟨i, hi, rfl⟩ := Option.map_eq_some_iff.1 hitem
    have hkey : i.1 = key := by simpa using find?_some hi
    have hmem := mem_of_find?_eq_some hi
    obtain ⟨k, hkind, hk⟩ := hplaced key (hcovers.1 (hperm.mem_iff.2 (hkey ▸ mem_map_of_mem hmem)))
    obtain ⟨⟨k', hk'⟩, -⟩ := hsound i hmem
    have hkind' : kindAt items key = some (.text k'.name) := by
      rw [kindAt, hitem]
      exact hk'
    refine ⟨k, ?_, hk.grows hl₁ (.refl _)⟩
    rw [HasKind, ← hkind _ (hcompletion.2 _ _ hkind')]
    exact hk'

theorem nodeAt?_empty (hp : p ≠ []) : nodeAt? (.record []) p = none := by
  cases p with
  | nil => exact absurd rfl hp
  | cons n p => rfl

theorem nodeAt?_emptyTree {top : String} (hp : p ≠ []) (h : nodeAt? (emptyTree top) p = some x) :
    p = [top] ∧ IsFormed x := by
  cases p with
  | nil => exact absurd rfl hp
  | cons n p =>
    rw [nodeAt?_cons] at h
    obtain ⟨c, hc, hx⟩ := Option.bind_eq_some_iff.1 h
    by_cases hn : top = n
    · subst hn
      have hmodule : IsFormed c ∧ ∀ k, child? c k = none := by
        simp [emptyTree, child?, get?_record, get?] at hc
        subst hc
        exact ⟨⟨⟨.space, rfl, fun _ => ⟨[], rfl⟩, fun _ h => absurd rfl h⟩, nofun⟩,
          child?_leaf (.inr rfl)⟩
      cases p with
      | nil => exact ⟨rfl, Option.some.inj hx ▸ hmodule.1⟩
      | cons k p =>
        rw [nodeAt?_cons, hmodule.2] at hx
        cases hx
    · simp [emptyTree, child?, get?_record, get?, hn] at hc

theorem grows_started (hK : K [s.module_]) : Grows K l.tree (started s l).tree := by
  unfold started
  split
  · rename_i htree
    rw [htree]
    refine ⟨fun p x hp hx => ?_, fun p x hx hnone => ?_⟩
    · rw [nodeAt?_empty hp] at hx
      cases hx
    · obtain ⟨rfl, hformed⟩ := nodeAt?_emptyTree (ne_nil_of_none hnone) hx
      exact ⟨hK, hformed⟩
  · exact .refl _

/-- What a node retains: no field is lost or changed but members, which are added to classes, and the
fields of modules. -/
structure Retains (x x' : Value) : Prop where
  type : x'.get? "type" = x.get? "type"
  fields : ¬IsModule x → ∀ f, f ≠ "members" → x'.get? f = x.get? f
  leaf : ¬IsModule x → x.get? "type" ≠ some (.text "class") → x' = x

theorem Keeps.retains (h : Keeps x x') (hformed : IsFormed x) : Retains x x' := by
  refine ⟨h.type, fun hmodule f hf => h.other f hf fun _ => hmodule, fun hmodule hclass => ?_⟩
  obtain ⟨k, hk, -, hleaf⟩ := hformed.kind
  refine h.leaf (hleaf ?_ ?_)
  · rintro rfl
    exact hclass hk
  · rintro rfl
    exact hmodule hk

/-- What a header does to a tree, with the items that it documents. -/
theorem grown_addHeader (hformed : IsFormedTree l.tree) :
    ∃ K, Grown K l (addHeader s) fun a l' => ∃ items l₁,
      runFrom (readItems s) l = (.ok items, l₁) ∧ a.keys.Perm (items.map Prod.fst) ∧
      (∀ key item, lookup items key = some item →
        ∃ k, HasKind item k ∧ IsPlaced k l.tree l'.tree (splitOn key ".")) ∧
      ∀ p, K p → IsOf s a.keys p := by
  rcases hitems : runFrom (readItems s) l with ⟨r, l₁⟩
  have hread : ∀ K, _ := fun K => (grown_readItems (K := K) (s := s)).run l rfl
  simp only [hitems] at hread
  cases r with
  | error e =>
    refine ⟨fun _ => True, ⟨?_⟩⟩
    rintro _ rfl
    rw [addHeader, Kconfig.runFrom_bind_error hitems]
    exact hread _
  | ok items =>
    refine ⟨IsOf s (items.map Prod.fst), ⟨?_⟩⟩
    rintro _ rfl
    obtain ⟨hgrows, hsound⟩ := hread (IsOf s (items.map Prod.fst))
    have hstart := hgrows.trans (grows_started (.inl rfl))
    have hadd := (grown_addItems (s := s) hsound (hformed.grows hstart)).run _ rfl
    rw [runFrom_addHeader hitems]
    rcases hrun : runFrom (addItems s items) (started s l₁) with ⟨r, l'⟩
    rw [hrun] at hadd
    cases r with
    | error e => exact hstart.trans hadd
    | ok a =>
      obtain ⟨hgrows, hperm, hplaced⟩ := hadd
      refine ⟨hstart.trans hgrows, items, l₁, rfl, hperm, fun key item hitem => ?_, fun p hp => ?_⟩
      · obtain ⟨k, hk, hplaced⟩ := hplaced key item hitem
        exact ⟨k, hk, hplaced.grows hstart (.refl _)⟩
      · exact hp.imp_right fun ⟨key, hkey, hlead⟩ => ⟨key, hperm.mem_iff.2 hkey, hlead⟩

theorem isFormedTree_mapM {sources : List Source} {additions : List Addition}
    (hformed : IsFormedTree l.tree)
    (hrun : runFrom (sources.mapM addHeader) l = (.ok additions, l')) : IsFormedTree l'.tree := by
  induction sources generalizing l additions with
  | nil =>
    cases hrun
    exact hformed
  | cons s sources ih =>
    rw [mapM_cons] at hrun
    obtain ⟨a, l₁, ha, hrun⟩ := Kconfig.runFrom_bind_eq_ok.1 hrun
    obtain ⟨as, l₂, has, hrun⟩ := Kconfig.runFrom_bind_eq_ok.1 hrun
    cases hrun
    obtain ⟨K, hgrown⟩ := grown_addHeader (s := s) hformed
    exact ih (hformed.grows (Leads.apply hgrown rfl ha).1) has

/-- A tree that headers made grows without loss.  Whatever becomes of the next header, all nodes stay
where they are, and all but modules have the fields that they had, members of classes apart.  If
the header succeeds, its items are at their names, each with its own type and, modules apart, where
there was nothing; other new nodes are modules around them.  An item that is there already lets the
header fail. -/
theorem tree_grows {sources : List Source} {additions : List Addition} {l' : Library}
    {r : Except Refusal Addition}
    (hbefore : runFrom (sources.mapM addHeader) {} = (.ok additions, l))
    (hrun : runFrom (addHeader s) l = (r, l')) :
    (∀ p x, p ≠ [] → nodeAt? l.tree p = some x →
      ∃ x', nodeAt? l'.tree p = some x' ∧ Retains x x') ∧
    (∀ a, r = .ok a → ∃ items l₁, runFrom (readItems s) l = (.ok items, l₁) ∧
      a.keys.Perm (items.map Prod.fst) ∧
      (∀ key item, lookup items key = some item →
        ∃ k, HasKind item k ∧ IsPlaced k l.tree l'.tree (splitOn key ".")) ∧
      ∀ p x, p ≠ [] → nodeAt? l'.tree p = some x → nodeAt? l.tree p = none →
        p = [s.module_] ∨ ∃ key ∈ a.keys, p <+: splitOn key ".") ∧
    ∀ items l₁ key item k x, runFrom (readItems s) l = (.ok items, l₁) →
      lookup items key = some item → HasKind item k → k ≠ .space →
      nodeAt? l.tree (splitOn key ".") = some x → ∃ e, r = .error e := by
  have hformed := isFormedTree_mapM (fun p x hp hx => by rw [nodeAt?_empty hp] at hx; cases hx) hbefore
  obtain ⟨K, hgrown⟩ := grown_addHeader (s := s) hformed
  have hstep := hgrown.run l rfl
  rw [hrun] at hstep
  -- whatever the outcome, the tree grows
  have hgrows : Grows K l.tree l'.tree := by
    cases r with
    | ok a => exact hstep.1
    | error e => exact hstep
  refine ⟨fun p x hp hx => ?_, ?_, fun items l₁ key item k x hitems hitem hk hspace hx => ?_⟩
  · obtain ⟨x', hx', hkeeps⟩ := hgrows.kept p x hp hx
    exact ⟨x', hx', hkeeps.retains (hformed p x hp hx)⟩
  · rintro a rfl
    obtain ⟨-, items, l₁, hitems, hperm, hplaced, hnew⟩ := hstep
    exact ⟨items, l₁, hitems, hperm, hplaced, fun p x _ hx hnone => hnew p (hgrows.new p x hx hnone).1⟩
  cases r with
  | error e => exact ⟨e, rfl⟩
  | ok a =>
    obtain ⟨-, items', l₂, hitems', -, hplaced, -⟩ := hstep
    rw [hitems] at hitems'
    cases hitems'
    obtain ⟨k', hk', y, hy, hother⟩ := hplaced key item hitem
    have hspace' : k' ≠ .space := by
      rintro rfl
      have hname : k.name = "module" := Value.text.inj (Option.some.inj (hk.symm.trans hk'))
      cases k with
      | space => exact hspace rfl
      | _ => exact absurd hname (by decide)
    rw [(hother hspace').1] at hx
    cases hx

/-- A header that documents something under a name. -/
def sampleSource (name definition : String) : Source :=
  { code := "/**\n * @brief b\n * @module " ++ name ++ "\n */\n" ++ definition }

theorem tree_grows_class :
    ∃ (additions : List Addition) (l l' : Library) (a : Addition),
      runFrom ([sampleSource "maix.a" "namespace a\n"].mapM addHeader) {} = (.ok additions, l) ∧
      runFrom (addHeader (sampleSource "maix.a.C" "class C\n\x7b\n\x7d;\n")) l = (.ok a, l') ∧
      (nodeAt? l.tree ["maix", "a"]).isSome ∧ ∀ x, nodeAt? l.tree ["maix", "a"] = some x →
        ∃ x', nodeAt? l'.tree ["maix", "a"] = some x' ∧ Retains x x' := by
  have hruns :
      (let before := runFrom ([sampleSource "maix.a" "namespace a\n"].mapM addHeader) {}
      before.1.isOk && ((nodeAt? before.2.tree ["maix", "a"]).isSome &&
        (runFrom (addHeader (sampleSource "maix.a.C" "class C\n\x7b\n\x7d;\n"))
          before.2).1.isOk)) = true := by
    decide +kernel
  rcases hbefore : runFrom ([sampleSource "maix.a" "namespace a\n"].mapM addHeader) {} with ⟨r, l⟩
  rw [hbefore] at hruns
  cases r with
  | error e => cases hruns
  | ok additions =>
    obtain ⟨hsome, hrun⟩ := Bool.and_eq_true_iff.1 (Bool.and_eq_true_iff.1 hruns).2
    rcases hrun' : runFrom (addHeader (sampleSource "maix.a.C" "class C\n\x7b\n\x7d;\n")) l with
      ⟨r', l'⟩
    rw [hrun'] at hrun
    cases r' with
    | error e => cases hrun
    | ok a =>
      exact ⟨additions, l, l', a, rfl, hrun', hsome, fun x hx =>
        (tree_grows hbefore hrun').1 _ x (by simp) hx⟩

end Buildsmith.Header
