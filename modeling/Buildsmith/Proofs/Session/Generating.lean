import Buildsmith.Proofs.Session.Roundtrip
import Buildsmith.Proofs.Text.Foreign
import Buildsmith.Tool.Generate

/-!
# Agreement of generated files

The settings of a build system and the header for C programs are written from the same state as the
lines of configuration files.  The header says the same as these lines, as far as numbers are
written in the notation of C.  The settings say the same just if no text would have to be escaped,
since none is (`generated_files_agree`).
-/

namespace Buildsmith.Kconfig

open Text List Quoted Model
open CSource (definitions body? number? isHex isBody line?)

variable {m : Model} {u : Assigned} {V : SymbolId → String} {i : SymbolId} {lead : String}

/-! ## What is written -/

variable {I : Values → Prop} {α β : Type}

theorem EvalM.Gives.filterMapM {xs : List β} {f : β → EvalM (Option α)} {g : β → Option α}
    (h : ∀ x ∈ xs, Gives m I (f x) (g x)) : Gives m I (xs.filterMapM f) (xs.filterMap g) := by
  induction xs with
  | nil => exact pure []
  | cons x xs ih =>
    have hrest := ih fun y hy => h y (mem_cons_of_mem _ hy)
    rw [filterMapM_cons, filterMap_cons]
    refine (h x mem_cons_self).bind ?_
    cases g x with
    | none => exact hrest
    | some a => exact hrest.bind (pure _)

namespace Model

/-- The name under which other programs know a symbol. -/
def outerName (m : Model) (lead : String) (i : SymbolId) : String := lead ++ (m.symbol i).name

/-- The variable that is set for a symbol, and its value. -/
def settingFor (m : Model) (lead : String) (i : SymbolId) (val : String) : String × String :=
  (m.outerName lead i, if (m.symbol i).kind.isLogical && val = "n" then "" else val)

/-- The macro that is defined for a symbol, and its body. -/
def definitionFor? (m : Model) (lead : String) (i : SymbolId) (val : String) :
    Option (String × String) :=
  match (m.symbol i).kind with
  | .bool | .tristate =>
    if val = "y" then some (m.outerName lead i, "1")
    else if val = "m" then some (m.outerName lead i ++ "_MODULE", "1")
    else none
  | .string => some (m.outerName lead i, "\"" ++ Quoted.escape val ++ "\"")
  | .hex => some (m.outerName lead i,
      if !(startsWith val "0x" || startsWith val "0X") then "0x" ++ val else val)
  | .int | .unknown => some (m.outerName lead i, val)

def settingsOf (m : Model) (u : Assigned) (lead : String) (V : SymbolId → String) :
    List (String × String) :=
  m.uniqueDefined.filterMap fun i =>
    if m.writes u i then some (m.settingFor lead i (V i)) else none

def definitionsOf (m : Model) (u : Assigned) (lead : String) (V : SymbolId → String) :
    List (String × String) :=
  m.uniqueDefined.filterMap fun i =>
    if m.writes u i then m.definitionFor? lead i (V i) else none

end Model

theorem EvalM.Gives.pure_text {s t : String} (h : s.toList = t.toList) :
    Gives m I (Pure.pure s) t := by
  rw [String.toList_injective h]
  exact pure t

theorem gives_settingLine (h : m.outcome u (.text i) = .ok (V i)) :
    EvalM.Gives m (Coherent m u) (settingLine lead i)
      ((if m.writes u i then some (m.settingFor lead i (V i)) else none).map
        fun p => (p.1, "set(" ++ p.1 ++ " \"" ++ p.2 ++ "\")\n")) := by
  refine .read_bind (gives_symbolText_bind h fun x hx => ?_)
  rw [hx]
  cases m.writes u i with
  | false => exact .pure _
  | true =>
    have hname : "set(" ++ lead ++ (m.symbol i).name = "set(" ++ m.outerName lead i :=
      String.append_assoc
    simp only [hname]
    exact .pure _

theorem gives_headerLine (h : m.outcome u (.text i) = .ok (V i)) :
    EvalM.Gives m (Coherent m u) (headerLine lead i)
      (((if m.writes u i then m.definitionFor? lead i (V i) else none).map
        fun p => "#define " ++ p.1 ++ " " ++ p.2 ++ "\n").getD "") := by
  refine .read_bind (gives_symbolText_bind h fun x hx => ?_)
  rw [hx]
  cases m.writes u i with
  | false => exact .pure _
  | true =>
    simp only [definitionFor?, Bool.not_true, Bool.false_eq_true, if_false]
    cases (m.symbol i).kind
    case bool | tristate =>
      simp only [Kind.isLogical, if_true]
      split
      · exact .pure_text (by simp [outerName])
      · split
        · exact .pure_text (by simp [outerName])
        · exact .pure _
    all_goals exact .pure_text (by simp [outerName])

def settingsHeads : List String :=
  ["# Generated by c_cpp_project_framework(https://github.com/Neutree/c_cpp_project_framework)",
    "### DO NOT edit this file!! ###", ""]

def headerHeads : List String :=
  ["/* Generated by Kconfiglib (https://github.com/ulfalizer/Kconfiglib) */"]

theorem gives_settingsText (hV : ∀ i, m.outcome u (.text i) = .ok (V i)) :
    EvalM.Gives m (Coherent m u) (settingsText lead Tool.settingsHeader)
      (linesText (CMake.settings settingsHeads (m.settingsOf u lead V))) := by
  have hlines : EvalM.Gives m (Coherent m u) (m.uniqueDefined.filterMapM (settingLine lead))
      ((m.settingsOf u lead V).map fun p => (p.1, "set(" ++ p.1 ++ " \"" ++ p.2 ++ "\")\n")) := by
    rw [settingsOf, map_filterMap]
    exact .filterMapM fun i _ => gives_settingLine (hV i)
  have hheads : Tool.settingsHeader = linesText settingsHeads := by decide +kernel
  refine .read_bind (hlines.bind ?_)
  rw [CMake.settings, linesText_append, linesText_append, ← hheads]
  exact .pure_text (by simp [linesText, Function.comp_def, flatMap_map])

theorem join_getD (f : α → Option β) (g : β → String) (xs : List α) :
    String.join (xs.map fun x => ((f x).map g).getD "") = String.join ((xs.filterMap f).map g) := by
  induction xs with
  | nil => rfl
  | cons x xs ih =>
    rw [map_cons, String.join_cons, ih, filterMap_cons]
    cases f x with
    | none => exact String.empty_append
    | some b => rw [map_cons, String.join_cons]; rfl

theorem gives_headerText (hV : ∀ i, m.outcome u (.text i) = .ok (V i)) :
    EvalM.Gives m (Coherent m u) (headerText lead headerGeneratedBy)
      (linesText (definitions headerHeads (m.definitionsOf u lead V))) := by
  have hheads : headerGeneratedBy = linesText headerHeads := by decide +kernel
  refine .read_bind ((EvalM.Gives.mapM fun i _ => gives_headerLine (hV i)).bind ?_)
  rw [join_getD, definitions, linesText_append, ← hheads, linesText, map_map]
  exact .pure _

/-! ## What files say -/

/-- The value that a line of a configuration file gives to a symbol of some kind. -/
def lineValue? (kind : Kind) (name line : String) : Option String :=
  if line = "# " ++ name ++ " is not set\n" then some "n"
  else if startsWith line (name ++ "=") then
    let text := String.ofList ((line.toList.drop (name.toList.length + 1)).takeWhile (· ≠ '\n'))
    if kind.isLogical || kind.isNumeric then some text
    else (Quoted.literalBody? text).map Quoted.unescape
  else none

theorem lineValue?_set {kind : Kind} {name text : String} (hname : ∀ c ∈ name.toList, isWord c)
    (htext : '\n' ∉ text.toList) : lineValue? kind name (name ++ "=" ++ text ++ "\n") =
      if kind.isLogical || kind.isNumeric then some text
      else (literalBody? text).map unescape := by
  have hchars : (name ++ "=" ++ text ++ "\n").toList =
      name.toList ++ '=' :: (text.toList ++ ['\n']) := by
    simp
  have hset : name ++ "=" ++ text ++ "\n" ≠ "# " ++ name ++ " is not set\n" := by
    intro h
    have hhead := congrArg (fun l : String => l.toList.head?) h
    cases hcs : name.toList with
    | nil => simp [hcs] at hhead
    | cons c cs =>
      have hc := hname c (by simp [hcs])
      simp only [hcs, String.toList_append] at hhead
      rw [Option.some.inj hhead] at hc
      exact absurd hc (by decide)
  have hstart : startsWith (name ++ "=" ++ text ++ "\n") (name ++ "=") := by
    rw [startsWith, isPrefixOf_iff_prefix]
    exact ⟨text.toList ++ ['\n'], by simp⟩
  have hline : ∀ c ∈ text.toList, decide (c ≠ '\n') :=
    fun c hc => decide_eq_true fun h => htext (h ▸ hc)
  have hrest : ((name ++ "=" ++ text ++ "\n").toList.drop (name.toList.length + 1)).takeWhile
      (· ≠ '\n') = text.toList := by
    have hcut : name.toList ++ '=' :: (text.toList ++ ['\n']) =
        (name.toList ++ ['=']) ++ (text.toList ++ ['\n']) := by
      simp
    rw [hchars, hcut, drop_left' (by simp), takeWhile_append_of_pos hline]
    simp
  rw [lineValue?, if_neg hset, if_pos hstart, hrest, String.ofList_toList]

theorem lineValue?_empty (kind : Kind) (name : String) : lineValue? kind name "" = none := by
  have hset : startsWith "" (name ++ "=") = false := by
    rw [startsWith]
    simp
  rw [lineValue?, hset]
  rfl

theorem break_not_mem_quoted {s : String} (h : '\n' ∉ s.toList) :
    '\n' ∉ ("\"" ++ escape s ++ "\"").toList := by
  have hescape : '\n' ∉ escapeChars s.toList := fun hmem => (mem_escapeChars hmem).elim (by decide) h
  simpa [escape] using hescape

theorem lineValue?_lineFor (hname : ∀ c ∈ (m.outerName lead i).toList, isWord c)
    {val : String} (hval : '\n' ∉ val.toList) :
    lineValue? (m.symbol i).kind (m.outerName lead i) (m.lineFor lead i val) = some val := by
  have hquoted : lead ++ (m.symbol i).name ++ "=\"" ++ escape val ++ "\"\n" =
      m.outerName lead i ++ "=" ++ ("\"" ++ escape val ++ "\"") ++ "\n" := by
    apply String.toList_injective
    simp [outerName]
  unfold lineFor
  dsimp only
  split
  · rename_i hl
    split
    · exact (lineValue?_set hname hval).trans (by rw [hl]; rfl)
    · rename_i hn
      rw [not_not.1 hn]
      exact if_pos rfl
  · rename_i hl
    split
    · rename_i hnumeric
      exact (lineValue?_set hname hval).trans (by rw [hnumeric, Bool.or_true]; rfl)
    · rename_i hnumeric
      rw [hquoted, lineValue?_set hname (break_not_mem_quoted hval), literalBody?_quoted]
      simp [hl, hnumeric, unescape_escape]

namespace Model

def truthIn (m : Model) (lead header : String) (i : SymbolId) : String :=
  if body? header (m.outerName lead i) = some "1" then "y"
  else if body? header (m.outerName lead i ++ "_MODULE") = some "1" then "m"
  else "n"

/-- Whether a header says of a symbol what its line in configuration files says.  Numbers count if
they are written in the notation of C. -/
def HeaderTells (m : Model) (lead header : String) (i : SymbolId) (told : Option String) : Prop :=
  let body := body? header (m.outerName lead i)
  match (m.symbol i).kind with
  | .unknown => True
  | .bool | .tristate => m.truthIn lead header i = told.getD "n"
  | .string => body.bind CSource.literal? = told
  | .int => ∀ val, told = some val → CSource.isDecimal (CSource.unsigned val.toList) = true →
      body.bind number? = Integer.parse? 10 val
  | .hex => ∀ val, told = some val → isHex val = true →
      body.bind number? = Integer.parse? 16 val

/-- Names that can be those of variables and macros, none of which is taken twice. -/
structure HasMacroNames (m : Model) (lead : String) : Prop where
  words : ∀ i ∈ m.uniqueDefined, ∀ c ∈ (m.outerName lead i).toList, isWord c = true
  apart : ∀ i ∈ m.uniqueDefined, ∀ j ∈ m.uniqueDefined,
    m.outerName lead i ≠ m.outerName lead j ++ "_MODULE"
  list : ∀ i ∈ m.uniqueDefined, m.outerName lead i ≠ "CONFIGS_LIST"

/-- A value that stays on its line, and has no characters that are special to C where a number is
expected. -/
def IsPlainValue (m : Model) (i : SymbolId) (val : String) : Prop :=
  '\n' ∉ val.toList ∧
    ((m.symbol i).kind.isNumeric = true → ∀ c ∈ val.toList, c ≠ '"' ∧ c ≠ '\\' ∧ c ≠ '/')

variable {p : String × String} {val : String}

theorem mem_definitionsOf : p ∈ m.definitionsOf u lead V ↔
      ∃ i ∈ m.uniqueDefined, m.writes u i ∧ m.definitionFor? lead i (V i) = some p := by
  simp only [definitionsOf, List.mem_filterMap]
  refine exists_congr fun i => and_congr_right fun _ => ?_
  cases m.writes u i <;> simp

theorem mem_settingsOf : p ∈ m.settingsOf u lead V ↔
      ∃ i ∈ m.uniqueDefined, m.writes u i ∧ m.settingFor lead i (V i) = p := by
  simp only [settingsOf, List.mem_filterMap]
  refine exists_congr fun i => and_congr_right fun _ => ?_
  cases m.writes u i <;> simp

theorem name_of_definitionFor? (hp : m.definitionFor? lead i val = some p) :
    p.1 = m.outerName lead i ∨ p.1 = m.outerName lead i ++ "_MODULE" := by
  unfold definitionFor? at hp
  grind

theorem body_of_definitionFor? (hval : m.IsPlainValue i val) (hk : (m.symbol i).kind ≠ .unknown)
    (hp : m.definitionFor? lead i val = some p) : '\n' ∉ p.2.toList ∧ isBody p.2 := by
  have hplain : ∀ {body : String}, (∀ c ∈ body.toList, c ≠ '"' ∧ c ≠ '\\' ∧ c ≠ '/') →
      isBody body := by
    intro body hbody
    simp only [isBody, Bool.or_eq_true, all_eq_true]
    exact .inr fun c hc => by simpa [and_assoc] using hbody c hc
  unfold definitionFor? at hp
  cases hkind : (m.symbol i).kind with
  | unknown => exact absurd hkind hk
  | bool | tristate =>
    simp only [hkind] at hp
    split at hp
    · cases hp
      exact ⟨by simp, hplain (by simp)⟩
    · split at hp
      · cases hp
        exact ⟨by simp, hplain (by simp)⟩
      · cases hp
  | string =>
    simp only [hkind] at hp
    cases hp
    exact ⟨break_not_mem_quoted hval.1, by simp [isBody, CSource.literal?_escape]⟩
  | int =>
    simp only [hkind] at hp
    cases hp
    exact ⟨hval.1, hplain (hval.2 (by rw [hkind]; rfl))⟩
  | hex =>
    have hbody := hval.2 (by rw [hkind]; rfl)
    simp only [hkind] at hp
    cases hp
    split
    · refine ⟨by simpa using hval.1, hplain ?_⟩
      simpa using hbody
    · exact ⟨hval.1, hplain hbody⟩

theorem Loaded.eq_of_outerName (hm : m.Loaded) {j : SymbolId} (hi : i ∈ m.uniqueDefined)
    (hj : j ∈ m.uniqueDefined) (h : m.outerName lead i = m.outerName lead j) : i = j := by
  have hwf := hm.wellFormed
  obtain ⟨hlt, hconstant, -⟩ := hwf.defined i (hm.finished.mem_uniqueDefined.1 hi)
  obtain ⟨hlt', hconstant', -⟩ := hwf.defined j (hm.finished.mem_uniqueDefined.1 hj)
  exact hwf.names i j hlt hlt' hconstant hconstant' ((String.append_right_inj lead).1 h)

namespace HasMacroNames

variable (h : m.HasMacroNames lead) (hm : m.Loaded)
  (hV : ∀ i ∈ m.uniqueDefined, m.IsPlainValue i (V i))

include h hm

variable {name : String}

theorem eq_of_name {j : SymbolId} (hi : i ∈ m.uniqueDefined) (hj : j ∈ m.uniqueDefined)
    (hname : name = m.outerName lead i ∨ name = m.outerName lead i ++ "_MODULE")
    (hname' : name = m.outerName lead j ∨ name = m.outerName lead j ++ "_MODULE") : i = j := by
  obtain rfl | rfl := hname
  · obtain hname' | hname' := hname'
    · exact hm.eq_of_outerName hi hj hname'
    · exact absurd hname' (h.apart i hi j hj)
  · obtain hname' | hname' := hname'
    · exact absurd hname'.symm (h.apart j hj i hi)
    · exact hm.eq_of_outerName hi hj ((String.append_left_inj _).1 hname')

include hV

theorem body?_iff (hi : i ∈ m.uniqueDefined) {b : String}
    (hname : name = m.outerName lead i ∨ name = m.outerName lead i ++ "_MODULE") :
    body? (linesText (definitions headerHeads (m.definitionsOf u lead V))) name = some b ↔
      m.writes u i ∧ m.definitionFor? lead i (V i) = some (name, b) := by
  have hheads : ∀ l ∈ headerHeads, '\n' ∉ l.toList ∧ line? (l ++ "\n") = some [] := by
    decide +kernel
  have hnames : ∀ p ∈ m.definitionsOf u lead V, ∀ c ∈ p.1.toList, isWord c := by
    intro p hp c hc
    obtain ⟨j, hj, -, hp⟩ := mem_definitionsOf.1 hp
    obtain hp | hp := name_of_definitionFor? hp
    · exact h.words j hj c (hp ▸ hc)
    · rw [hp, String.toList_append, mem_append] at hc
      obtain hc | hc := hc
      · exact h.words j hj c hc
      · exact List.all_eq_true.1 (by decide : "_MODULE".toList.all isWord) c hc
  have hbodies : ∀ p ∈ m.definitionsOf u lead V, '\n' ∉ p.2.toList ∧ isBody p.2 := by
    intro p hp
    obtain ⟨j, hj, hwrites, hp⟩ := mem_definitionsOf.1 hp
    exact body_of_definitionFor? (hV j hj) (kind_of_writes hwrites) hp
  have hunique : ∀ p ∈ m.definitionsOf u lead V, ∀ q ∈ m.definitionsOf u lead V,
      p.1 = q.1 → p = q := by
    intro p hp q hq hpq
    obtain ⟨j, hj, -, hp⟩ := mem_definitionsOf.1 hp
    obtain ⟨k, hk, -, hq⟩ := mem_definitionsOf.1 hq
    have hjk := h.eq_of_name hm hj hk (name_of_definitionFor? hp) (hpq ▸ name_of_definitionFor? hq)
    exact Option.some.inj (hp.symm.trans (hjk ▸ hq))
  rw [CSource.body?_definitions hheads hnames hbodies, lookup_eq_some_iff hunique,
    mem_definitionsOf]
  constructor
  · rintro ⟨j, hj, hwrites, hp⟩
    obtain rfl := h.eq_of_name hm hi hj hname (name_of_definitionFor? hp)
    exact ⟨hwrites, hp⟩
  · rintro ⟨hwrites, hp⟩
    exact ⟨i, hi, hwrites, hp⟩

theorem headerTells (hi : i ∈ m.uniqueDefined)
    (hlogical : (m.symbol i).kind.isLogical → ∃ x : Tristate, V i = x.letter) :
    m.HeaderTells lead (linesText (definitions headerHeads (m.definitionsOf u lead V))) i
      (if m.writes u i then some (V i) else none) := by
  have hbody := fun b => h.body?_iff (u := u) (b := b) hm hV hi (.inl rfl)
  have hmodule := fun b => h.body?_iff (u := u) (b := b) hm hV hi (.inr rfl)
  -- the macro with the symbol's own name
  have hfound : ∀ b, m.definitionFor? lead i (V i) = some (m.outerName lead i, b) →
      body? (linesText (definitions headerHeads (m.definitionsOf u lead V)))
        (m.outerName lead i) = if m.writes u i then some b else none := by
    intro b hb
    split
    · rename_i hwrites
      exact (hbody b).2 ⟨hwrites, hb⟩
    · rename_i hwrites
      exact Option.eq_none_iff_forall_ne_some.2 fun c hc => hwrites ((hbody c).1 hc).1
  unfold HeaderTells
  dsimp only
  cases hk : (m.symbol i).kind with
  | unknown => trivial
  | bool | tristate =>
    obtain ⟨x, hx⟩ := hlogical (by rw [hk]; rfl)
    simp only [truthIn, hbody, hmodule, definitionFor?, hk, hx]
    cases m.writes u i <;> cases x <;> simp [Tristate.letter]
  | string =>
    rw [hfound _ (by rw [definitionFor?, hk])]
    cases m.writes u i with
    | false => rfl
    | true => exact CSource.literal?_escape (V i)
  | int =>
    intro val hval hdecimal
    rw [hfound _ (by rw [definitionFor?, hk]), hval]
    exact CSource.number?_of_decimal hdecimal
  | hex =>
    intro val hval hhex
    split at hval
    · cases hval
      rw [hfound _ (by rw [definitionFor?, hk]), if_pos ‹_›]
      exact CSource.number?_of_hex hhex
    · cases hval

theorem settingsTell_iff : (∀ i ∈ m.uniqueDefined,
      CMake.value? (linesText (CMake.settings settingsHeads (m.settingsOf u lead V)))
        (m.outerName lead i) =
      (if m.writes u i then some (V i) else none).map fun val => (m.settingFor lead i val).2) ↔
    ∀ i ∈ m.uniqueDefined, m.writes u i → CMake.isPlain (V i).toList := by
  have hheads : ∀ l ∈ settingsHeads, '\n' ∉ l.toList ∧ CMake.line? (l ++ "\n") = some [] := by
    decide +kernel
  have hnames : ∀ p ∈ m.settingsOf u lead V, ∀ c ∈ p.1.toList, isWord c := by
    intro p hp
    obtain ⟨j, hj, -, rfl⟩ := mem_settingsOf.1 hp
    exact h.words j hj
  have hvalues : ∀ p ∈ m.settingsOf u lead V, '\n' ∉ p.2.toList := by
    intro p hp
    obtain ⟨j, hj, -, rfl⟩ := mem_settingsOf.1 hp
    unfold settingFor
    split
    · simp
    · exact (hV j hj).1
  have hlist : ∀ p ∈ m.settingsOf u lead V, p.1 ≠ "CONFIGS_LIST" := by
    intro p hp
    obtain ⟨j, hj, -, rfl⟩ := mem_settingsOf.1 hp
    exact h.list j hj
  have hunique : ∀ p ∈ m.settingsOf u lead V, ∀ q ∈ m.settingsOf u lead V, p.1 = q.1 → p = q := by
    intro p hp q hq hpq
    obtain ⟨j, hj, -, rfl⟩ := mem_settingsOf.1 hp
    obtain ⟨k, hk, -, rfl⟩ := mem_settingsOf.1 hq
    rw [hm.eq_of_outerName hj hk hpq]
  have hread := CMake.value?_settings_iff hheads hnames hvalues hlist hunique
  have hplain : ∀ i ∈ m.uniqueDefined,
      CMake.isPlain (m.settingFor lead i (V i)).2.toList = CMake.isPlain (V i).toList := by
    intro i hi
    unfold settingFor
    split
    · rename_i hn
      simp only [Bool.and_eq_true, decide_eq_true_eq] at hn
      rw [hn.2]
      exact (by decide : CMake.isPlain "".toList = CMake.isPlain "n".toList)
    · rfl
  constructor
  · intro hsame i hi hwrites
    rw [← hplain i hi]
    refine hread.1 (fun p hp => ?_) _ (mem_settingsOf.2 ⟨i, hi, hwrites, rfl⟩)
    obtain ⟨j, hj, hwrites, rfl⟩ := mem_settingsOf.1 hp
    have hj := hsame j hj
    rwa [if_pos hwrites] at hj
  · intro hsame i hi
    split
    · rename_i hwrites
      refine hread.2 (fun p hp => ?_) _ (mem_settingsOf.2 ⟨i, hi, hwrites, rfl⟩)
      obtain ⟨j, hj, hwrites, rfl⟩ := mem_settingsOf.1 hp
      rw [hplain j hj]
      exact hsame j hj hwrites
    · rename_i hwrites
      refine CMake.value?_settings_eq_none hheads hnames hvalues (h.list i hi) fun p hp hname => ?_
      obtain ⟨j, hj, hwrites', rfl⟩ := mem_settingsOf.1 hp
      exact hwrites (hm.eq_of_outerName hj hi hname ▸ hwrites')

end HasMacroNames

end Model

/-! ## Sessions -/

/-- The settings and the header that are generated in a session say of symbols what their lines in
configuration files say: the header of all symbols, where numbers are in the notation of C, and the
settings just if no text has to be escaped.  A reference `${...}` in a text is taken as it is
written. -/
theorem generated_files_agree {w : Workspace} {o : LoadOptions} {s : Session} {r : Reading}
    (hopen : openSession w o = (.ok s, r)) (hsane : s.model.ChoicesSane)
    (hnames : s.model.HasMacroNames s.reading.symbolLead) (actions : List Action)
    (hevaluates : (s.after actions).Evaluates)
    (hvalues : ∀ i ∈ s.model.uniqueDefined, ∀ val, (s.after actions).Reads (.text i) val →
      s.model.IsPlainValue i val) :
    ∃ (line : SymbolId → String) (told : SymbolId → Option String) (settings header : String),
      (∀ i ∈ s.model.uniqueDefined,
        (s.after actions).Finds (configLine s.reading.symbolLead i) (line i) ∧
        lineValue? (s.model.symbol i).kind (s.model.outerName s.reading.symbolLead i) (line i) =
          told i) ∧
      (s.after actions).Finds (settingsText s.reading.symbolLead Tool.settingsHeader) settings ∧
      (s.after actions).Finds (headerText s.reading.symbolLead headerGeneratedBy) header ∧
      ((∀ i ∈ s.model.uniqueDefined,
          CMake.value? settings (s.model.outerName s.reading.symbolLead i) =
            (told i).map fun val => if (s.model.symbol i).kind.isLogical && val = "n" then ""
              else val) ↔
        ∀ i ∈ s.model.uniqueDefined, ∀ val, told i = some val →
          CMake.isPlain val.toList = true) ∧
      ∀ i ∈ s.model.uniqueDefined,
        s.model.HeaderTells s.reading.symbolLead header i (told i) := by
  obtain ⟨hloaded, -⟩ := loaded_of_openSession hopen
  have hsound := sound_after hopen hsane actions
  obtain ⟨v, hv⟩ := exists_writable_after hopen hsane actions hevaluates
  have hplain : ∀ i ∈ s.model.uniqueDefined, s.model.IsPlainValue i (v.texts i) :=
    fun i hi => hvalues i hi _ (reads_of_outcome hsound (hv.backs (.text i)))
  have hlogical : ∀ i, (s.model.symbol i).kind.isLogical = true →
      ∃ x : Tristate, v.texts i = x.letter := fun i hl => ⟨_, hv.text_eq_letter hl⟩
  have htexts := fun i => hv.backs (.text i)
  have hfinds : ∀ {α : Type} {x : EvalM α} {a : α},
      EvalM.Gives s.model (Coherent s.model (s.after actions).values.assigned) x a →
        (s.after actions).Finds x a :=
    fun hx => runFrom_evaluating_of_gives hsound hx fun _ hv => hv
  refine ⟨_, fun i => if s.model.writes (s.after actions).values.assigned i then some (v.texts i) else none,
    _, _, fun i hi => ⟨hfinds (gives_configLine (htexts i) _), ?_⟩,
    hfinds (gives_settingsText htexts), hfinds (gives_headerText htexts), ?_,
    fun i hi => hnames.headerTells hloaded hplain hi (hlogical i)⟩
  · dsimp only
    split
    · exact lineValue?_lineFor (hnames.words i hi) (hplain i hi).1
    · exact lineValue?_empty _ _
  · refine (hnames.settingsTell_iff hloaded hplain).trans
      (forall₂_congr fun i hi => ⟨fun h val hval => ?_, fun h hwrites => h _ (if_pos hwrites)⟩)
    dsimp only at hval
    split at hval
    · rename_i hwrites
      cases hval
      exact h hwrites
    · cases hval

/-- A text with a quote is in the header as it is, and makes the settings say something else. -/
theorem generated_files_agree_quote :
    ∃ s r settings header, ∃ told : SymbolId → Option String,
      openSession mixedWorkspace {} = (.ok s, r) ∧
      (s.after quoteAndSelect).Finds (configLine "CONFIG_" 4) "CONFIG_N=\"a\\\"b\"\n" ∧
      told 4 = some "a\"b" ∧
      (s.after quoteAndSelect).Finds (settingsText "CONFIG_" Tool.settingsHeader) settings ∧
      (s.after quoteAndSelect).Finds (headerText "CONFIG_" headerGeneratedBy) header ∧
      ¬(∀ i ∈ s.model.uniqueDefined, CMake.value? settings (s.model.outerName "CONFIG_" i) =
        (told i).map fun val => if (s.model.symbol i).kind.isLogical && val = "n" then ""
          else val) ∧
      s.model.HeaderTells "CONFIG_" header 4 (some "a\"b") := by
  obtain ⟨s, r, hopen, hrun⟩ := exists_of_opensTo mixedWorkspace (fun s =>
      decide s.model.ChoicesSane && s.reading.symbolLead == "CONFIG_" &&
      s.model.uniqueDefined.all (fun i => (s.model.outerName "CONFIG_" i).toList.all isWord &&
        decide (s.model.outerName "CONFIG_" i ≠ "CONFIGS_LIST") &&
        s.model.uniqueDefined.all (fun j =>
          decide (s.model.outerName "CONFIG_" i ≠ s.model.outerName "CONFIG_" j ++ "_MODULE")) &&
        !(s.model.symbol i).kind.isNumeric &&
        (runFrom (Observation.ask (.text i)).read (s.after quoteAndSelect)).1.toOption.all
          fun v => !v.toList.contains '\n') &&
      s.model.uniqueDefined.contains 4 &&
      s.model.queries.all (fun q =>
        (runFrom (Observation.ask q).read (s.after quoteAndSelect).cleared).1.isOk) &&
      (s.model.symbol 4).kind == .string && s.model.outerName "CONFIG_" 4 == "CONFIG_N" &&
      (runFrom (evaluating (configLine "CONFIG_" 4)) (s.after quoteAndSelect)).1.toOption ==
        some "CONFIG_N=\"a\\\"b\"\n")
    (by decide +kernel)
  simp only [Bool.and_eq_true, decide_eq_true_eq, all_eq_true, beq_iff_eq, Bool.not_eq_true',
    Option.all_eq_true, contains_iff_mem, ← Bool.not_eq_true] at hrun
  obtain ⟨⟨⟨⟨⟨⟨⟨hsane, hlead⟩, hsymbols⟩, hmem⟩, hqueries⟩, hkind⟩, hname⟩, hline⟩ := hrun
  have hline := eq_ok_of_toOption hline
  have hsound := sound_after hopen hsane quoteAndSelect
  have hevaluates : (s.after quoteAndSelect).Evaluates :=
    evaluates_of_queries hsound fun q hq => exists_eq_ok_of_isOk (hqueries q hq)
  have hnames : s.model.HasMacroNames "CONFIG_" :=
    ⟨fun i hi => (hsymbols i hi).1.1.1.1, fun i hi j hj => (hsymbols i hi).1.1.2 j hj,
      fun i hi => (hsymbols i hi).1.1.1.2⟩
  obtain ⟨line, told, settings, header, hlines, hsettings, hheader, hiff, htells⟩ :=
    generated_files_agree hopen hsane (hlead ▸ hnames) quoteAndSelect hevaluates
      fun i hi val hval => ⟨(hsymbols i hi).2 val (by rw [hval]; rfl),
        fun hnumeric => absurd hnumeric (hsymbols i hi).1.2⟩
  rw [hlead] at hlines hsettings hheader hiff htells
  obtain ⟨hfound, hvalue⟩ := hlines 4 hmem
  have hsame : line 4 = "CONFIG_N=\"a\\\"b\"\n" := Except.ok.inj (hfound.symm.trans hline)
  have htold : told 4 = some "a\"b" := by
    rw [← hvalue, hsame, hkind, hname]
    decide +kernel
  refine ⟨s, r, settings, header, told, hopen, hline, htold, hsettings, hheader, fun hall => ?_,
    htold ▸ htells 4 hmem⟩
  exact absurd (hiff.1 hall 4 hmem _ htold) (by decide)

end Buildsmith.Kconfig
