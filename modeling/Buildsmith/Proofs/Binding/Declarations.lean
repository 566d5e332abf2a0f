import Buildsmith.Binding.Generate
import Buildsmith.Proofs.Session.Preservation
import Buildsmith.Proofs.Text.Foreign

/-!
# Variables and documentation in bindings

Each statement is made on the variable that the item around declares, and those for modules and classes
alone declare one.  But a variable is named after a part of the path only: two modules with the same
last name, or two classes with the same path once it is joined, declare the same one
(`declared_variables`).

The documentation of an item is written between quotes.  In that of members feeds and quotes are
escaped, in that of the topmost module nothing is.  So a compiler reads back the texts of members that
have no backslashes and returns, and those texts of the topmost module that need no escapes
(`documentation_literals`).
-/

namespace Buildsmith.Binding

open Data List Text Option Except
open Kconfig (bind_eq_ok mapM_eq_ok)
open Text.CSource (escaped? isHexDigit)

/-- The variable that is declared for a module or a class. -/
def Place.declares? (p : Place) : Option String := p.inside?.map Scope.receiver

def declared? (line : String) : Option String :=
  if "auto ".toList <+: line.toList then
    some (String.ofList ((line.toList.drop 5).takeWhile (· != ' ')))
  else none

variable {s : Scope} {ms : Fields} {p q : Place} {x : String} {ls : List String}

/-! ## Scopes -/

/-- Whether a place is one of the members that a scope is around. -/
def Place.IsMember (p : Place) (s : Scope) (ms : Fields) : Prop :=
  p.scope = s ∧ (p.name, p.item) ∈ ms

/-- Whether a place is one of given members, or a member of an earlier place in the scope inside of
it. -/
def Place.IsInside (s : Scope) (ms : Fields) (ps : List Place) (p : Place) : Prop :=
  p.IsMember s ms ∨
    ∃ q inner ns, [q, p] <+ ps ∧ q.inside? = some inner ∧ q.members = .ok ns ∧ p.IsMember inner ns

def AreInside (s : Scope) (ms : Fields) (ps : List Place) : Prop := ∀ p ∈ ps, p.IsInside s ms ps

theorem Place.IsInside.mono {ms' : Fields} {ps ps' : List Place} (h : p.IsInside s ms ps)
    (hms : ms ⊆ ms') (hps : ps <+ ps') : p.IsInside s ms' ps' := by
  obtain ⟨hscope, hin⟩ | ⟨q, inner, ns, hearlier, hrest⟩ := h
  · exact .inl ⟨hscope, hms hin⟩
  · exact .inr ⟨q, inner, ns, hearlier.trans hps, hrest⟩

mutual

theorem areInside_placesIn (s : Scope) : ∀ ms : Fields, AreInside s ms (placesIn s ms)
  | [] => by simp [AreInside, placesIn]
  | (name, item) :: rest => by
    intro p hp
    obtain hp | hp := mem_append.1 hp
    · exact (areInside_placesFrom s name item p hp).mono (by simp) (sublist_append_left ..)
    · exact (areInside_placesIn s rest p hp).mono (by simp) (sublist_append_right ..)

theorem areInside_placesFrom (s : Scope) (name : String) :
    ∀ item : Value, AreInside s [(name, item)] (placesFrom s name item)
  | .record fields => by
    intro p hp
    rw [placesFrom] at hp ⊢
    obtain rfl | hp := mem_cons.1 hp
    · exact .inl ⟨rfl, by simp⟩
    right
    split at hp
    · rename_i inner hinner
      obtain hnone | ⟨ns, hns, hinside⟩ := areInside_placesInside inner fields
      · rw [hnone] at hp
        cases hp
      obtain hmember | ⟨q, inner', ns', hearlier, hrest⟩ := hinside p hp
      · refine ⟨_, inner, ns, (singleton_sublist.2 hp).cons_cons _, hinner, ?_, hmember⟩
        simp [Place.members, Value.field, hns, Value.fields, bind, Except.bind]
      · exact ⟨q, inner', ns', hearlier.cons _, hrest⟩
    · cases hp
  | .null | .flag _ | .number _ | .real _ | .text _ | .list _ =>
    fun p hp => .inl (mem_singleton.1 hp ▸ ⟨rfl, mem_singleton.2 rfl⟩)

theorem areInside_placesInside (s : Scope) : ∀ fs : Fields, placesInside s fs = [] ∨
    ∃ ns, Fields.get? fs "members" = some (.record ns) ∧ AreInside s ns (placesInside s fs)
  | [] => .inl rfl
  | (key, value) :: rest => by
    unfold placesInside
    split
    · rename_i hkey
      cases value with
      | record ns => exact .inr ⟨ns, by simp [Fields.get?, hkey], areInside_placesIn s ns⟩
      | _ => exact .inl rfl
    · rename_i hkey
      simpa [Fields.get?, hkey] using areInside_placesInside s rest

end

/-- Variables are `m` and names that begin with `m_` or `class_`. -/
theorem AreInside.receiver {ps : List Place} (h : AreInside (topScope x) ms ps) (hp : p ∈ ps) :
    ∃ c cs, p.scope.receiver.toList = c :: cs ∧ c ≠ 'a' := by
  obtain ⟨hscope, -⟩ | ⟨q, inner, ns, -, hinner, -, hscope, -⟩ := h p hp
  · rw [hscope]
    exact ⟨'m', [], by simp [topScope], by decide⟩
  rw [hscope]
  unfold Place.inside? at hinner
  split at hinner <;> cases hinner
  · exact ⟨'m', _, by simp [Scope.inside, moduleVariable]; rfl, by decide⟩
  · exact ⟨'c', _, by simp [Scope.inside, classVariable]; rfl, by decide⟩

/-! ## Statements -/

/-- What the statement for a place begins with, up to the variable that it is made on. -/
def Place.lead (p : Place) : String :=
  p.declares?.elim "" (fun x => "auto " ++ x ++ " = ") ++
    match p.kind? with
    | some "class" =>
      "py::class_<" ++ qualified (p.scope.spaces ++ [p.name]) ++ ">(" ++ p.scope.receiver ++ ", "
    | some "enum" =>
      "py::enum_<" ++ qualified (p.scope.spaces ++ [p.name]) ++ ">(" ++ p.scope.receiver ++ ", "
    | _ => p.scope.receiver ++ "."

/-- Whether lines are one statement, which is made on the variable of the item around a place.  Other
kinds of items have none. -/
def Place.IsStated (p : Place) (ls : List String) : Prop :=
  (ls = [] ∧ ∀ kind ∈ ["module", "class", "func", "var", "enum"], p.kind? ≠ some kind) ∨
  ∃ line more, ls = line :: more ∧ p.lead.toList <+: line.toList ∧
    ∀ l ∈ more, p.kind? = some "enum" ∧ (l = ";" ∨ "    .value(".toList <+: l.toList)

/-- Functions are defined on the variable of the item around, and those that are neither a
constructor nor an iterator have their documentation behind the policy. -/
theorem functionLine_eq_ok {name literal line : String} {item : Value}
    (h : functionLine s name literal item = .ok line) :
    (s.receiver ++ ".").toList <+: line.toList ∧
      (name ≠ "__init__" ∧ name ≠ "__iter__" → ∃ lead policy arguments,
        line = lead ++ "), py::return_value_policy::" ++ policy ++ ", \"" ++ literal ++ "\"" ++
          arguments ++ ");") := by
  obtain ⟨v, -, h⟩ := bind_eq_ok.1 h
  obtain ⟨args, -, h⟩ := bind_eq_ok.1 h
  obtain ⟨list, -, h⟩ := bind_eq_ok.1 h
  by_cases hinit : name = "__init__"
  · simp only [hinit, if_true] at h
    obtain ⟨types, -, h⟩ := bind_eq_ok.1 h
    obtain rfl := ok.inj h
    exact ⟨by simp, fun hname => absurd hinit hname.1⟩
  by_cases hiter : name = "__iter__"
  · simp only [hiter, if_true] at h
    obtain rfl := ok.inj h
    exact ⟨by simp, fun hname => absurd hiter hname.2⟩
  simp only [hinit, hiter, if_false] at h
  split at h
  · cases h
  obtain ⟨declared, -, h⟩ := bind_eq_ok.1 h
  obtain ⟨ret, -, h⟩ := bind_eq_ok.1 h
  obtain ⟨type, -, h⟩ := bind_eq_ok.1 h
  obtain ⟨static, -, h⟩ := bind_eq_ok.1 h
  obtain ⟨types, -, h⟩ := bind_eq_ok.1 h
  obtain rfl := ok.inj h
  exact ⟨by simp, fun _ => ⟨_, _, _, rfl⟩⟩

theorem lead_variableLine {line : String} {item : Value} (h : variableLine s x item = .ok line) :
    (s.receiver ++ ".").toList <+: line.toList := by
  unfold variableLine at h
  split at h
  · obtain ⟨readonly, -, h⟩ := bind_eq_ok.1 h
    obtain ⟨static, -, h⟩ := bind_eq_ok.1 h
    cases h
    simp
  · cases h
    simp

theorem Place.isStated_lines (h : p.lines = .ok ls) : p.IsStated ls := by
  obtain ⟨doc, -, h⟩ := bind_eq_ok.1 h
  obtain ⟨type, -, h⟩ := bind_eq_ok.1 h
  split at h
  · rename_i hkind
    obtain ⟨members, -, h⟩ := bind_eq_ok.1 h
    cases h
    refine .inr ⟨_, [], rfl, ?_, by simp⟩
    simp [lead, declares?, inside?, hkind, moduleLine, Scope.inside]
  · rename_i hkind
    obtain ⟨members, -, h⟩ := bind_eq_ok.1 h
    cases h
    refine .inr ⟨_, [], rfl, ?_, by simp⟩
    simp [lead, declares?, inside?, hkind, classLine, Scope.inside]
  · rename_i hkind
    obtain ⟨line, hline, h⟩ := bind_eq_ok.1 h
    cases h
    refine .inr ⟨_, [], rfl, ?_, by simp⟩
    simpa [lead, declares?, inside?, hkind] using (functionLine_eq_ok hline).1
  · rename_i hkind
    obtain ⟨line, hline, h⟩ := bind_eq_ok.1 h
    cases h
    refine .inr ⟨_, [], rfl, ?_, by simp⟩
    simpa [lead, declares?, inside?, hkind] using lead_variableLine hline
  · rename_i hkind
    obtain ⟨field, -, h⟩ := bind_eq_ok.1 h
    obtain ⟨elements, -, h⟩ := bind_eq_ok.1 h
    obtain ⟨values, hvalues, h⟩ := bind_eq_ok.1 h
    cases h
    refine .inr ⟨_, _, rfl, ?_, fun l hl => ⟨hkind, ?_⟩⟩
    · simp [lead, declares?, inside?, hkind]
    obtain hl | hl := mem_append.1 hl
    · obtain ⟨e, -, he⟩ := mem_map.1 (mapM_eq_ok.1 hvalues ▸ mem_map_of_mem hl)
      obtain ⟨parts, -, he⟩ := bind_eq_ok.1 he
      obtain ⟨full, -, he⟩ := bind_eq_ok.1 he
      cases he
      exact .inr (by simp)
    · exact .inl (mem_singleton.1 hl)
  · rename_i hmodule hclass hfunc hvar henum
    cases h
    exact .inl ⟨rfl, by simp_all⟩

/-! ## Declarations -/

/-- Lines that begin otherwise declare nothing. -/
theorem declared?_eq_none {c : Char} {cs : List Char} {line : String} (h : c :: cs <+: line.toList)
    (hc : c ≠ 'a') : declared? line = none := by
  obtain ⟨rest, hline⟩ := h
  rw [declared?, if_neg]
  rw [← hline]
  simp [hc.symm]

theorem declared?_declaration {line rest : String} (hx : ' ' ∉ x.toList)
    (h : ("auto " ++ x ++ " = " ++ rest).toList <+: line.toList) : declared? line = some x := by
  obtain ⟨more, hline⟩ := h
  rw [declared?, if_pos, ← hline]
  · have hblank : ∀ c ∈ x.toList, (c != ' ') := by grind
    simp [takeWhile_append_of_pos hblank]
  · rw [← hline]
    simp

/-- A statement declares the variable of its place, and nothing if the place has none. -/
theorem Place.filterMap_lines (hp : ∃ c cs, p.scope.receiver.toList = c :: cs ∧ c ≠ 'a')
    (hx : ∀ x, p.declares? = some x → ' ' ∉ x.toList) (h : p.lines = .ok ls) :
    ls.filterMap declared? = p.declares?.toList := by
  obtain ⟨rfl, hkind⟩ | ⟨line, more, rfl, hline, hmore⟩ := isStated_lines h
  · have hnone : p.declares? = none := by
      unfold declares? inside?
      split <;> simp_all
    rw [hnone]
    rfl
  have hnone : more.filterMap declared? = [] := by
    refine filterMap_eq_nil_iff.2 fun l hl => ?_
    obtain rfl | hl := (hmore l hl).2
    · decide
    · exact declared?_eq_none hl (by decide)
  rw [filterMap_cons, hnone]
  cases hdeclares : p.declares? with
  | some x =>
    rw [lead, hdeclares] at hline
    rw [declared?_declaration (hx x hdeclares) hline]
    rfl
  | none =>
    obtain ⟨c, cs, hreceiver, hc⟩ := hp
    have hother : declared? line = none := by
      rw [lead, hdeclares] at hline
      split at hline
      · exact declared?_eq_none (by simpa using hline) (by decide)
      · exact declared?_eq_none (by simpa using hline) (by decide)
      · exact declared?_eq_none (by simpa [hreceiver] using hline) hc
    rw [hother]
    rfl

/-- Whether the names on the path of a place have no blanks, as names of variables have none. -/
def Place.HasNames (p : Place) : Prop := ∀ n ∈ p.scope.names ++ [p.name], ' ' ∉ n.toList

theorem Place.HasNames.declares? (hp : p.HasNames) (hx : p.declares? = some x) : ' ' ∉ x.toList := by
  obtain ⟨a, ha, rfl⟩ := map_eq_some_iff.1 hx
  have hname := hp p.name (by simp)
  have haround : ∀ n ∈ p.scope.names, ' ' ∉ n.toList := fun n hn => hp n (by simp [hn])
  unfold inside? at ha
  split at ha <;> cases ha
  · simpa [Scope.inside, moduleVariable] using hname
  · have hjoined : ' ' ∉ ("_".intercalate p.scope.names).toList := by
      intro hin
      obtain hin | ⟨n, hn, hin⟩ := mem_intercalate hin
      · simp at hin
      · exact haround n hn hin
    simp only [Scope.inside, classVariable]
    split
    · simp [hname]
    · simpa [hname] using hjoined

/-- The variables that statements declare are those of their places, one by one. -/
theorem filterMap_flatten {ps : List Place} {parts : List (List String)}
    (h : ps.map Place.lines = parts.map .ok)
    (hlines : ∀ p ∈ ps, ∀ ls, p.lines = .ok ls → ls.filterMap declared? = p.declares?.toList) :
    parts.flatten.filterMap declared? = ps.filterMap Place.declares? := by
  induction ps generalizing parts with
  | nil => simp_all
  | cons p ps ih =>
    cases parts with
    | nil => cases h
    | cons ls parts =>
      obtain ⟨hls, hrest⟩ := cons.inj h
      rw [flatten_cons, filterMap_append, hlines p (by simp) ls hls,
        ih hrest fun q hq => hlines q (by simp [hq])]
      cases hp : p.declares? <;> simp [hp]

/-- Whether two places are modules with the same last name, or classes with the same path once it is
joined. -/
def Place.Clash (p q : Place) : Prop :=
  q.kind? = p.kind? ∧ if p.kind? = some "module" then q.name = p.name
    else classVariable q.scope.names q.name = classVariable p.scope.names p.name

theorem Place.declares?_eq_iff (hp : p.declares? = some x) : q.declares? = some x ↔ p.Clash q := by
  obtain ⟨a, ha, rfl⟩ := map_eq_some_iff.1 hp
  have hne : ∀ n ns k, moduleVariable n ≠ classVariable ns k := by
    simp [moduleVariable, classVariable, String.ext_iff]
  have hinj : ∀ n k, moduleVariable n = moduleVariable k ↔ n = k := by
    simp [moduleVariable]
  unfold declares? inside? at *
  unfold Clash
  split at ha <;> split <;> cases ha <;> simp_all [Scope.inside, (hne _ _ _).symm]

def places (top : Value) (name : String) : List Place :=
  ((top.field "members").bind Value.fields).toOption.elim [] (placesIn (topScope name))

variable {tree : Value} {header name text : String}

/-- Bindings are the statements of all places below the topmost module. -/
theorem generate_eq_some (h : generate tree header name = .ok (some text)) :
    ∃ top doc parts, (tree.field "members").bind (·.field name) = .ok top ∧ docString top = .ok doc ∧
      text = opening (Path.baseName header) name ++
        "\n    ".intercalate (("m.doc() = \"" ++ doc.display ++ "\";") :: parts.flatten) ++ "\n\x7d\n" ∧
      (places top name).mapM Place.lines = .ok parts ∧
      ∃ fields, (top.field "members").bind Value.fields = .ok fields ∧
        places top name = placesIn (topScope name) fields := by
  obtain ⟨members, -, h⟩ := bind_eq_ok.1 h
  obtain ⟨isThere, -, h⟩ := bind_eq_ok.1 h
  split at h
  · cases h
  obtain ⟨all, hall, h⟩ := bind_eq_ok.1 h
  obtain ⟨top, htop, h⟩ := bind_eq_ok.1 h
  obtain ⟨lines, hlines, h⟩ := bind_eq_ok.1 h
  obtain ⟨doc, hdoc, hlines⟩ := bind_eq_ok.1 hlines
  obtain ⟨field, hfield, hlines⟩ := bind_eq_ok.1 hlines
  obtain ⟨fields, hfields, hlines⟩ := bind_eq_ok.1 hlines
  obtain ⟨parts, hparts, hlines⟩ := bind_eq_ok.1 hlines
  cases hlines
  cases h
  have hmembers : (top.field "members").bind Value.fields = .ok fields := by
    rw [hfield]
    exact hfields
  have hplaces : places top name = placesIn (topScope name) fields := by
    rw [places, hmembers]
    rfl
  exact ⟨top, doc, parts, by rw [hall]; exact htop, hdoc, rfl, hplaces ▸ hparts, fields, hmembers,
    hplaces⟩

/-- The statement for a place is made on the variable of the item that it is a member of, which an
earlier one declares, and those for modules and classes alone declare variables.  A variable is declared
once just if no two modules have the same last name and no two classes the same joined path. -/
theorem declared_variables (h : generate tree header name = .ok (some text)) :
    ∃ top members doc parts, (tree.field "members").bind (·.field name) = .ok top ∧
      (top.field "members").bind Value.fields = .ok members ∧ docString top = .ok doc ∧
      let lines := ("m.doc() = \"" ++ doc.display ++ "\";") :: parts.flatten
      text = opening (Path.baseName header) name ++ "\n    ".intercalate lines ++ "\n\x7d\n" ∧
      (places top name).mapM Place.lines = .ok parts ∧
      AreInside (topScope name) members (places top name) ∧
      (∀ p ∈ places top name, ∀ ls, p.lines = .ok ls →
        p.IsStated ls ∧ (p.declares? = none → ls.filterMap declared? = [])) ∧
      (∀ p ∈ places top name, ∀ x, p.declares? = some x →
        ∀ q ∈ places top name, (q.declares? = some x ↔ p.Clash q)) ∧
      ((∀ p ∈ places top name, p.HasNames) →
        lines.filterMap declared? = (places top name).filterMap Place.declares? ∧
        ((lines.filterMap declared?).Nodup ↔
          (places top name).Pairwise fun p q => p.declares?.isSome → ¬p.Clash q)) := by
  obtain ⟨top, doc, parts, htop, hdoc, htext, hparts, fields, hfields, hplaces⟩ := generate_eq_some h
  have hinside : AreInside (topScope name) fields (places top name) :=
    hplaces ▸ areInside_placesIn _ _
  refine ⟨top, fields, doc, parts, htop, hfields, hdoc, htext, hparts, hinside, fun p hp ls hls =>
    ⟨p.isStated_lines hls, fun hnone => ?_⟩, fun p _ x hx q _ => Place.declares?_eq_iff hx,
    fun hnames => ?_⟩
  · have hlines := p.filterMap_lines (hinside.receiver hp) (by simp [hnone]) hls
    rwa [hnone] at hlines
  have hdeclared : (("m.doc() = \"" ++ doc.display ++ "\";") :: parts.flatten).filterMap declared? =
      (places top name).filterMap Place.declares? := by
    rw [filterMap_cons_none (declared?_eq_none (c := 'm') (by simp; rfl) (by decide))]
    exact filterMap_flatten (mapM_eq_ok.1 hparts) fun p hp ls hls =>
      p.filterMap_lines (hinside.receiver hp) (fun x hx => (hnames p hp).declares? hx) hls
  refine ⟨hdeclared, ?_⟩
  rw [hdeclared, List.Nodup, pairwise_filterMap]
  refine Pairwise.iff fun p q => ?_
  cases hp : p.declares? with
  | none => simp
  | some x =>
    simp only [isSome_some, forall_const, ← Place.declares?_eq_iff hp, some.injEq]
    grind

/-- Two modules of the same last name. -/
def twinTree : Value :=
  let space (members : Fields) : Value :=
    .record [("type", .text "module"), ("members", .record members)]
  .record [("members", .record [("mod", space [("a", space [("x", space [])]),
    ("b", space [("x", space [])])])])]

theorem declared_variables_twins :
    ∃ text lines top, generate twinTree "mod.h" "mod" = .ok (some text) ∧
      text = opening (Path.baseName "mod.h") "mod" ++ "\n    ".intercalate lines ++ "\n\x7d\n" ∧
      (∀ p ∈ places top "mod", p.HasNames) ∧
      lines.filterMap declared? = ["m_a", "m_x", "m_b", "m_x"] ∧
      ¬(places top "mod").Pairwise fun p q => p.declares?.isSome → ¬p.Clash q := by
  obtain ⟨text, htext⟩ : ∃ text, generate twinTree "mod.h" "mod" = .ok (some text) := ⟨_, rfl⟩
  obtain ⟨top, members, doc, parts, htop, -, -, hlines, -, -, -, -, hdeclared⟩ :=
    declared_variables htext
  have hnames : ∀ p ∈ places top "mod", p.HasNames := by
    cases htop
    unfold Place.HasNames
    decide
  have htwins : (places top "mod").filterMap Place.declares? = ["m_a", "m_x", "m_b", "m_x"] := by
    cases htop
    decide
  obtain ⟨hlist, hnodup⟩ := hdeclared hnames
  refine ⟨text, _, top, htext, hlines, hnames, hlist.trans htwins, ?_⟩
  rw [← hnodup, hlist, htwins]
  decide

/-! ## Literals -/

/-- Whether a literal can have a character only as an escape. -/
def isSpecial (c : Char) : Bool := c = '\n' || c = '\r' || c = '"' || c = '\\'

def isOctalDigit (c : Char) : Bool := '0' ≤ c && c ≤ '7'

def coded (base : Nat) (digits : List Char) : Char :=
  Char.ofNat (digits.foldl (fun v c => v * base + (digitValue? c).getD 0) 0)

def hexadecimal? (least : Nat) (digits : List Char) : Option (List Char × Nat) :=
  if least ≤ digits.length then some ([coded 16 digits], digits.length + 1) else none

/-- What an escape stands for, and how many characters it takes behind its backslash. -/
def escape? : List Char → Option (List Char × Nat)
  | [] => none
  | c :: cs =>
    if c = '\n' then some ([], 1)
    else if c = 'x' then hexadecimal? 1 (cs.takeWhile isHexDigit)
    else if c = 'u' then hexadecimal? 4 ((cs.take 4).takeWhile isHexDigit)
    else if c = 'U' then hexadecimal? 8 ((cs.take 8).takeWhile isHexDigit)
    else if isOctalDigit c then
      let digits := c :: (cs.take 2).takeWhile isOctalDigit
      some ([coded 8 digits], digits.length)
    else (escaped? c).map fun x => ([x], 1)

/-- The text of a literal whose opening quote has been read, and what is behind its closing quote.
The first characters of an escape that is behind are passed over. -/
def readLiteral : Nat → List Char → Option (List Char × List Char)
  | _, [] => none
  | k + 1, _ :: cs => readLiteral k cs
  | 0, c :: cs =>
    if c = '"' then some ([], cs)
    else if c = '\n' || c = '\r' then none
    else if c = '\\' then
      (escape? cs).bind fun e => (readLiteral e.2 cs).map fun r => (e.1 ++ r.1, r.2)
    else (readLiteral 0 cs).map fun r => (c :: r.1, r.2)

/-- Whether a literal stands for a text, and ends where its closing quote is put. -/
def Carries (literal s : String) : Prop :=
  ∀ rest, readLiteral 0 (literal.toList ++ '"' :: rest) = some (s.toList, rest)

variable {cs d rest : List Char} {k : Nat} {item : Value} {literal s : String}

theorem escape?_eq_some {e : List Char × Nat} (h : escape? cs = some e) :
    e.1.length ≤ 1 ∧ 1 ≤ e.2 := by
  unfold escape? hexadecimal? at h
  grind [map_eq_some_iff]

/-- A character that needs an escape takes two characters in a literal. -/
theorem length_readLiteral (h : readLiteral k cs = some (d, rest)) :
    d.length + d.countP isSpecial + rest.length + 1 + k ≤ cs.length := by
  fun_induction readLiteral k cs generalizing d with
  | case1 => cases h
  | case2 k c cs ih =>
    have hrest := ih h
    simp only [length_cons]
    omega
  | case3 cs =>
    cases h
    simp
  | case4 => cases h
  | case5 cs _ _ ih =>
    obtain ⟨e, he, h⟩ := bind_eq_some_iff.1 h
    obtain ⟨r, hr, h⟩ := map_eq_some_iff.1 h
    cases h
    have hrest := ih e hr
    obtain ⟨hlength, hsize⟩ := escape?_eq_some he
    have hcount := countP_le_length (p := isSpecial) (l := e.1)
    simp only [length_append, countP_append, length_cons]
    omega
  | case6 c cs hquote hbreak hslash ih =>
    obtain ⟨r, hr, h⟩ := map_eq_some_iff.1 h
    cases h
    have hplain : isSpecial c = false := by simpa [isSpecial, hquote, hslash] using hbreak
    have hrest := ih hr
    rw [countP_cons_of_neg (by simp [hplain]), length_cons, length_cons]
    omega

/-- How the documentation of members is escaped. -/
def escapeDoc (c : Char) : List Char :=
  if c = '\n' then ['\\', 'n'] else if c = '"' then ['\\', '"'] else [c]

theorem readLiteral_escapeDoc (hs : ∀ c ∈ cs, c ≠ '\\' ∧ c ≠ '\r') (rest : List Char) :
    readLiteral 0 (cs.flatMap escapeDoc ++ '"' :: rest) = some (cs, rest) := by
  induction cs with
  | nil => simp [readLiteral]
  | cons c cs ih =>
    obtain ⟨hc, hs⟩ := forall_mem_cons.1 hs
    have hrest := ih hs
    by_cases hbreak : c = '\n'
    · have hescape : ∀ ds, escape? ('n' :: ds) = some (['\n'], 1) := fun _ => rfl
      simp [hbreak, escapeDoc, readLiteral, hescape, hrest]
    · by_cases hquote : c = '"'
      · have hescape : ∀ ds, escape? ('"' :: ds) = some (['"'], 1) := fun _ => rfl
        simp [hquote, escapeDoc, readLiteral, hescape, hrest]
      · simp [hbreak, hquote, hc, escapeDoc, readLiteral, hrest]

theorem length_flatMap_escapeDoc (cs : List Char) :
    (cs.flatMap escapeDoc).length + cs.countP (fun c => c = '\\' || c = '\r') =
      cs.length + cs.countP isSpecial := by
  induction cs with
  | nil => rfl
  | cons c cs ih =>
    rw [flatMap_cons, length_append, countP_cons, countP_cons, length_cons]
    grind [escapeDoc, isSpecial]

theorem Carries.le (h : Carries literal s) :
    s.toList.length + s.toList.countP isSpecial ≤ literal.toList.length := by
  have hlength := length_readLiteral (h [])
  simp only [length_append, length_cons] at hlength
  omega

theorem toList_replaced (s : String) :
    (replace (replace s "\n" "\\n") "\"" "\\\"").toList = s.toList.flatMap escapeDoc := by
  have hchars : ∀ s : String, (replace (replace s "\n" "\\n") "\"" "\\\"").toList =
      replaceFrom ['"'] ['\\', '"'] 0 (replaceFrom ['\n'] ['\\', 'n'] 0 s.toList) := by
    simp [Text.replace]
  rw [hchars, replaceFrom_singleton, replaceFrom_singleton, flatMap_assoc]
  refine flatMap_congr fun c _ => ?_
  grind [escapeDoc]

/-- Escaped feeds and quotes are read back; backslashes are not, and returns end the line. -/
theorem carries_replaced : Carries (replace (replace s "\n" "\\n") "\"" "\\\"") s ↔
    '\\' ∉ s.toList ∧ '\r' ∉ s.toList := by
  constructor
  · intro h
    have hle := h.le
    rw [toList_replaced] at hle
    have hlength := length_flatMap_escapeDoc s.toList
    have hnone := countP_eq_zero.1 (show s.toList.countP (fun c => c = '\\' || c = '\r') = 0 by omega)
    exact ⟨fun hin => by simpa using hnone _ hin, fun hin => by simpa using hnone _ hin⟩
  · rintro ⟨hslash, hreturn⟩ rest
    rw [toList_replaced]
    exact readLiteral_escapeDoc (fun c hc => ⟨fun h => hslash (h ▸ hc), fun h => hreturn (h ▸ hc)⟩) rest

theorem carries_self : Carries s s ↔ ∀ c ∈ s.toList, isSpecial c = false := by
  constructor
  · intro h
    have hnone := countP_eq_zero.1 (Nat.le_zero.1 (Nat.le_of_add_le_add_left h.le))
    simpa using hnone
  · intro h rest
    have hsame : s.toList.flatMap escapeDoc = s.toList := by
      refine (flatMap_congr fun c hc => ?_).trans (flatMap_singleton' _)
      grind [escapeDoc, isSpecial]
    have hplain : ∀ c ∈ s.toList, c ≠ '\\' ∧ c ≠ '\r' := by grind [isSpecial]
    have hread := readLiteral_escapeDoc hplain rest
    rwa [hsame] at hread

/-! ## Documentation -/

theorem exists_docLiteral (h : docLiteral item = .ok literal) :
    ∃ s, docString item = .ok (.text s) ∧ literal = replace (replace s "\n" "\\n") "\"" "\\\"" := by
  obtain ⟨v, hv, h⟩ := bind_eq_ok.1 h
  obtain ⟨s, hs, h⟩ := bind_eq_ok.1 h
  cases v with
  | text t =>
    exact ⟨t, hv, (ok.inj h).symm⟩
  | _ => cases hs

/-- The documentation of a place is written as a literal, which a compiler reads back just if the
documentation has no backslash and no return.  That of the topmost module is written as it is. -/
theorem documentation_literals (h : generate tree header name = .ok (some text)) :
    ∃ top doc parts, (tree.field "members").bind (·.field name) = .ok top ∧ docString top = .ok doc ∧
      text = opening (Path.baseName header) name ++
        "\n    ".intercalate (("m.doc() = \"" ++ doc.display ++ "\";") :: parts.flatten) ++ "\n\x7d\n" ∧
      (∀ s, doc = .text s → doc.display = s ∧ (Carries s s ↔ ∀ c ∈ s.toList, isSpecial c = false)) ∧
      (places top name).mapM Place.lines = .ok parts ∧
      ∀ p ∈ places top name, ∃ s literal, docString p.item = .ok (.text s) ∧
        (Carries literal s ↔ '\\' ∉ s.toList ∧ '\r' ∉ s.toList) ∧
        (p.kind? = some "module" → p.lines = .ok ["auto " ++ moduleVariable p.name ++ " = " ++
          p.scope.receiver ++ ".def_submodule(\"" ++ p.name ++ "\", \"" ++ literal ++ "\");"]) ∧
        (p.kind? = some "func" → p.name ≠ "__init__" ∧ p.name ≠ "__iter__" →
          ∃ lead policy arguments, p.lines = .ok [lead ++ "), py::return_value_policy::" ++ policy ++
            ", \"" ++ literal ++ "\"" ++ arguments ++ ");"]) := by
  obtain ⟨top, doc, parts, htop, hdoc, htext, hparts, -⟩ := generate_eq_some h
  refine ⟨top, doc, parts, htop, hdoc, htext, fun s hs => ?_, hparts, fun p hp => ?_⟩
  · subst hs
    exact ⟨rfl, carries_self⟩
  obtain ⟨lines, -, hlines⟩ := List.mem_map.1 (mapM_eq_ok.1 hparts ▸ List.mem_map_of_mem hp)
  have hlines := hlines.symm
  obtain ⟨literal, hliteral, hrest⟩ := bind_eq_ok.1 hlines
  obtain ⟨s, hs, rfl⟩ := exists_docLiteral hliteral
  refine ⟨s, _, hs, carries_replaced, fun hkind => ?_, fun hkind hname => ?_⟩
  · obtain ⟨type, -, hrest⟩ := bind_eq_ok.1 hrest
    rw [hkind] at hrest
    obtain ⟨members, -, hrest⟩ := bind_eq_ok.1 hrest
    rw [hlines, ← ok.inj hrest, moduleLine]
  · obtain ⟨type, -, hrest⟩ := bind_eq_ok.1 hrest
    rw [hkind] at hrest
    obtain ⟨line, hline, hrest⟩ := bind_eq_ok.1 hrest
    obtain ⟨lead, policy, arguments, rfl⟩ := (functionLine_eq_ok hline).2 hname
    exact ⟨lead, policy, arguments, by rw [hlines, ← ok.inj hrest]⟩

/-- A module with a quote in its documentation. -/
def quotedModule : Value :=
  .record [("type", .text "module"), ("doc", .text "a\"b"), ("members", .record [])]

def quotedTree : Value :=
  .record [("members", .record [("mod", .record [("members", .record [("a", quotedModule)])])])]

theorem documentation_literals_quoted :
    ∃ text literal, generate quotedTree "mod.h" "mod" = .ok (some text) ∧ Carries literal "a\"b" ∧
      Place.lines ⟨topScope "mod", "a", quotedModule⟩ =
        .ok ["auto m_a = m.def_submodule(\"a\", \"" ++ literal ++ "\");"] := by
  obtain ⟨text, htext⟩ : ∃ text, generate quotedTree "mod.h" "mod" = .ok (some text) := ⟨_, rfl⟩
  obtain ⟨top, doc, parts, htop, -, -, -, -, hplaces⟩ := documentation_literals htext
  cases htop
  obtain ⟨s, literal, hs, hcarries, hline, -⟩ := hplaces _ (List.mem_cons_self ..)
  cases hs
  exact ⟨text, literal, htext, hcarries.2 (by decide), hline rfl⟩

end Buildsmith.Binding
