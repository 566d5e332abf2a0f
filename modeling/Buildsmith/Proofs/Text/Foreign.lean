import Buildsmith.Proofs.Text.Values

/-!
# Texts that other programs read

Settings of a build system are read by CMake, and headers by a C compiler.  This is how they read the
few forms that are written for them: a command that sets a variable, and the definition of a macro
whose body is a literal.  References to variables are not looked for.

A quoted argument of CMake is what was put between the quotes just if that is plain
(`CMake.argument?_append`).  The literal of C in which quotes and backslashes are escaped is the text
that was escaped (`CSource.literal?_escape`), and a numeral in the notation of C is the number that it
writes elsewhere (`CSource.number?_of_decimal`, `CSource.number?_of_hex`).
-/

namespace Buildsmith.Text

open List
open Integer (parse? asciiDigit isMargin splitMark readUnsigned readSigned)
open Char (isDigit ofNat)

def isWord (c : Char) : Bool := c.isAlphanum || c = '_'

variable {name : List Char}

theorem takeWhile_word (hname : ∀ c ∈ name, isWord c) (rest : List Char) :
    (name ++ ' ' :: rest).takeWhile isWord = name := by
  rw [takeWhile_append_of_pos hname, takeWhile_cons_of_neg (by decide), append_nil]

theorem dropWhile_word (hname : ∀ c ∈ name, isWord c) (rest : List Char) :
    (name ++ ' ' :: rest).dropWhile isWord = ' ' :: rest := by
  rw [dropWhile_append_of_pos hname, dropWhile_cons_of_neg (by decide)]

theorem lookup_eq_some_iff {l : List (String × String)} (hl : ∀ p ∈ l, ∀ q ∈ l, p.1 = q.1 → p = q)
    {name value : String} : l.lookup name = some value ↔ (name, value) ∈ l := by
  rw [List.lookup_eq_some_iff]
  constructor
  · rintro ⟨_, _, rfl, -⟩
    simp
  · intro h
    obtain ⟨l₁, l₂, rfl, hnew⟩ := eq_append_cons_of_mem h
    refine ⟨l₁, l₂, rfl, fun p hp => bne_iff_ne.2 fun heq => hnew ?_⟩
    rwa [hl _ h p (mem_append_left _ hp) heq]

theorem mapM_eq_some {α β : Type} {f : α → Option β} {g : α → β} {xs : List α}
    (h : ∀ x ∈ xs, f x = some (g x)) : xs.mapM f = some (xs.map g) := by
  induction xs with
  | nil => rfl
  | cons x xs ih =>
    rw [mapM_cons, h x mem_cons_self, ih fun y hy => h y (mem_cons_of_mem _ hy)]
    rfl

theorem mem_intercalate {c : Char} {sep : String} {names : List String}
    (h : c ∈ (sep.intercalate names).toList) :
    c ∈ sep.toList ∨ ∃ name ∈ names, c ∈ name.toList := by
  have hmem : ∀ {cs : List Char} {css : List (List Char)}, cs ∈ css.intersperse sep.toList →
      cs = sep.toList ∨ cs ∈ css := by
    intro cs css hcs
    induction css with
    | nil => cases hcs
    | cons ds css ih =>
      cases css with
      | nil => exact .inr hcs
      | cons es css =>
        rw [intersperse_cons_cons] at hcs
        simp only [mem_cons] at hcs ih ⊢
        obtain hcs | hcs | hcs := hcs
        · exact .inr (.inl hcs)
        · exact .inl hcs
        · exact (ih hcs).imp_right .inr
  rw [String.toList_intercalate] at h
  obtain ⟨cs, hcs, hc⟩ := mem_flatten.1 h
  obtain rfl | hcs := hmem hcs
  · exact .inl hc
  · obtain ⟨name, hname, rfl⟩ := mem_map.1 hcs
    exact .inr ⟨name, hname, hc⟩

/-! ## Settings of a build system -/

namespace CMake

/-- What a character behind a backslash stands for in a quoted argument. -/
def escaped? (c : Char) : Option (List Char) :=
  if c = 't' then some ['\t']
  else if c = 'r' then some ['\r']
  else if c = 'n' then some ['\n']
  else if c = ';' then some ['\\', ';']
  else if c = '\n' then some []
  else if c.isAlphanum then none
  else some [c]

/-- The quoted argument whose opening quote has been read, and what is behind its closing quote.  A
reference `${...}` in it is not evaluated. -/
def argument? : List Char → Option (List Char × List Char)
  | [] => none
  | c :: cs =>
    if c = '"' then some ([], cs)
    else if c = '\\' then
      match cs with
      | [] => none
      | d :: ds =>
        (escaped? d).bind fun first => (argument? ds).map fun (arg, rest) => (first ++ arg, rest)
    else (argument? cs).map fun (arg, rest) => (c :: arg, rest)

/-- Whether a text has no double quotes, and has backslashes only before semicolons. -/
def isPlain : List Char → Bool
  | [] => true
  | c :: cs =>
    if c = '"' then false
    else if c = '\\' then
      match cs with
      | [] => false
      | d :: ds => d = ';' && isPlain ds
    else isPlain cs

theorem argument?_quote (cs : List Char) : argument? ('"' :: cs) = some ([], cs) := by
  unfold argument?
  rfl

theorem argument?_escape (d : Char) (ds : List Char) :
    argument? ('\\' :: d :: ds) = (escaped? d).bind fun first =>
      (argument? ds).map fun (arg, rest) => (first ++ arg, rest) := by
  rw [argument?]
  simp

variable {cs : List Char} {name : String} {c : Char}

theorem argument?_cons (hquote : c ≠ '"') (hslash : c ≠ '\\') (cs : List Char) :
    argument? (c :: cs) = (argument? cs).map fun (arg, rest) => (c :: arg, rest) := by
  rw [argument?.eq_def]
  simp [hquote, hslash]

theorem length_escaped? (h : escaped? c = some cs) : cs.length ≤ if c = ';' then 2 else 1 := by
  unfold escaped? at h
  grind

theorem length_argument? {arg rest : List Char} (h : argument? cs = some (arg, rest)) :
    arg.length + rest.length < cs.length := by
  fun_induction argument? cs generalizing arg rest with
  | case1 => cases h
  | case2 cs =>
    cases h
    simp
  | case3 => cases h
  | case4 d ds _ ih =>
    obtain ⟨first, hfirst, h⟩ := Option.bind_eq_some_iff.1 h
    obtain ⟨⟨arg', rest'⟩, harg, h⟩ := Option.map_eq_some_iff.1 h
    cases h
    have hrest := ih harg
    have hlength := length_escaped? hfirst
    simp only [length_append, length_cons]
    split at hlength <;> omega
  | case5 c cs hquote hslash ih =>
    obtain ⟨⟨arg', rest'⟩, harg, h⟩ := Option.map_eq_some_iff.1 h
    cases h
    have hrest := ih harg
    simp only [length_cons]
    omega

/-- What was put between quotes is read from there just if it is plain. -/
theorem argument?_append (cs rest : List Char) :
    argument? (cs ++ '"' :: rest) = some (cs, rest) ↔ isPlain cs := by
  fun_induction isPlain cs with
  | case1 | case2 cs => simp [argument?_quote]
  | case3 =>
    -- the backslash escapes the quote that was to close the argument
    have hquote : escaped? '"' = some ['"'] := by decide
    simp [argument?_escape, hquote]
  | case4 d ds _ ih =>
    rw [cons_append, cons_append, argument?_escape]
    by_cases hd : d = ';'
    · have hsemicolon : escaped? ';' = some ['\\', ';'] := by decide
      simp [hd, hsemicolon, ← ih]
    · refine iff_of_false (fun h => ?_) (by simp [hd])
      -- all other escapes are longer than what they stand for
      obtain ⟨first, hfirst, h⟩ := Option.bind_eq_some_iff.1 h
      obtain ⟨⟨arg, rest'⟩, harg, h⟩ := Option.map_eq_some_iff.1 h
      obtain ⟨hcs, rfl⟩ := Prod.mk.inj h
      have hlength := length_escaped? hfirst
      have hshort := length_argument? harg
      have hsame := congrArg length hcs
      simp only [hd, if_false] at hlength
      simp only [length_append, length_cons] at hshort hsame
      omega
  | case5 c cs hquote hslash ih =>
    rw [cons_append, argument?_cons hquote hslash, ← ih]
    simp [Prod.ext_iff]

/-- The quoted argument that is the last one of a command. -/
def lastArgument? (cs : List Char) : Option (List Char) :=
  match argument? cs with
  | some (arg, [')', '\n']) => some arg
  | _ => none

def command? (line : List Char) : Option (List Char × List Char) :=
  match line with
  | 's' :: 'e' :: 't' :: '(' :: cs =>
    let name := cs.takeWhile isWord
    match cs.dropWhile isWord with
    | ' ' :: '"' :: ds => (lastArgument? ds).map fun arg => (name, arg)
    | ' ' :: ds =>
      if ds.dropWhile (· ≠ ')') = [')', '\n'] then some (name, ds.takeWhile (· ≠ ')')) else none
    | _ => none
  | _ => none

/-- What a line sets: nothing if it is empty or a comment. -/
def line? (line : String) : Option (List (String × String)) :=
  if line = "\n" || line.toList.head? = some '#' then some []
  else (command? line.toList).map fun (name, value) => [(String.ofList name, String.ofList value)]

/-- The value that a file gives to a variable.  All lines have to be well formed, and the last command
for the variable counts. -/
def value? (text name : String) : Option String :=
  ((physicalLines text).mapM line?).bind fun sets => sets.flatten.reverse.lookup name

theorem lastArgument?_eq_some (cs : List Char) :
    lastArgument? (cs ++ ['"', ')', '\n']) = some cs ↔ isPlain cs := by
  rw [← argument?_append cs [')', '\n'], lastArgument?]
  split
  · rename_i arg harg
    simp [harg]
  · rename_i hother
    exact iff_of_false (by simp) fun h => hother cs h

theorem line?_command {line : String} (h : line.toList = 's' :: cs) :
    line? line = (command? ('s' :: cs)).map fun p => [(String.ofList p.1, String.ofList p.2)] := by
  have hline : line ≠ "\n" := by
    rintro rfl
    cases h
  simp [line?, h, hline]

theorem line?_setting (hname : ∀ c ∈ name.toList, isWord c) (value : String) :
    line? ("set(" ++ name ++ " \"" ++ value ++ "\")" ++ "\n") =
      (lastArgument? (value.toList ++ ['"', ')', '\n'])).map
        fun arg => [(name, String.ofList arg)] := by
  have hchars : ("set(" ++ name ++ " \"" ++ value ++ "\")" ++ "\n").toList = 's' :: 'e' :: 't' ::
      '(' :: (name.toList ++ ' ' :: '"' :: (value.toList ++ ['"', ')', '\n'])) := by
    simp
  rw [line?_command hchars]
  simp [command?, takeWhile_word hname, dropWhile_word hname, Function.comp_def]

theorem line?_list {value : String} (hname : ∀ c ∈ name.toList, isWord c)
    (hvalue : ∀ c ∈ value.toList, isWord c ∨ c = ';') :
    line? ("set(" ++ name ++ " " ++ value ++ ")" ++ "\n") = some [(name, value)] := by
  have hopen : ∀ c ∈ value.toList, decide (c ≠ ')') := by
    intro c hc
    rw [decide_eq_true_eq]
    rintro rfl
    exact absurd (hvalue _ hc) (by decide)
  have hquote : ∀ cs, value.toList ++ [')', '\n'] ≠ '"' :: cs := by
    intro cs h
    obtain ⟨-, h⟩ | ⟨ds, hds, -⟩ := append_eq_cons_iff.1 h
    · cases h
    · exact absurd (hvalue '"' (hds ▸ mem_cons_self)) (by decide)
  have hchars : ("set(" ++ name ++ " " ++ value ++ ")" ++ "\n").toList =
      's' :: 'e' :: 't' :: '(' :: (name.toList ++ ' ' :: (value.toList ++ [')', '\n'])) := by
    simp
  rw [line?_command hchars]
  simp only [command?, takeWhile_word hname, dropWhile_word hname]
  rw [takeWhile_append_of_pos hopen, dropWhile_append_of_pos hopen]
  simp

/-- The lines that give values to variables, between other lines and the list of the variables. -/
def settings (heads : List String) (ps : List (String × String)) : List String :=
  heads ++ ps.map (fun p => "set(" ++ p.1 ++ " \"" ++ p.2 ++ "\")") ++
    ["set(CONFIGS_LIST " ++ String.intercalate ";" (ps.map Prod.fst) ++ ")"]

/-- The variable of a setting with the value that is read back. -/
def stored? (p : String × String) : Option (String × String) :=
  (lastArgument? (p.2.toList ++ ['"', ')', '\n'])).map fun arg => (p.1, String.ofList arg)

theorem stored?_eq_self (p : String × String) : stored? p = some p ↔ isPlain p.2.toList := by
  rw [← lastArgument?_eq_some, stored?, Option.map_eq_some_iff]
  constructor
  · rintro ⟨arg, harg, h⟩
    rw [harg, ← (Prod.mk.inj h).2, String.toList_ofList]
  · intro h
    exact ⟨_, h, by simp⟩

section Settings

variable {heads : List String} {ps : List (String × String)}

section

variable {name : String} (hheads : ∀ l ∈ heads, '\n' ∉ l.toList ∧ line? (l ++ "\n") = some [])
  (hnames : ∀ p ∈ ps, ∀ c ∈ p.1.toList, isWord c = true) (hvalues : ∀ p ∈ ps, '\n' ∉ p.2.toList)

include hheads hnames hvalues

theorem value?_settings (hname : name ≠ "CONFIGS_LIST") :
    value? (linesText (settings heads ps)) name =
      (ps.mapM stored?).bind fun qs => qs.reverse.lookup name := by
  have hword : ∀ p ∈ ps, '\n' ∉ p.1.toList := fun p hp h => absurd (hnames p hp _ h) (by decide)
  have hlist : ∀ c ∈ (String.intercalate ";" (ps.map Prod.fst)).toList, isWord c ∨ c = ';' := by
    intro c hc
    obtain hc | ⟨n, hn, hc⟩ := mem_intercalate hc
    · exact .inr (by simpa using hc)
    · obtain ⟨p, hp, rfl⟩ := mem_map.1 hn
      exact .inl (hnames p hp c hc)
  have hbreaks : ∀ l ∈ settings heads ps, '\n' ∉ l.toList := by
    intro l hl
    simp only [settings, mem_append, mem_map, mem_singleton] at hl
    obtain (hl | ⟨p, hp, rfl⟩) | rfl := hl
    · exact (hheads l hl).1
    · simp [hword p hp, hvalues p hp]
    · have hbreak : '\n' ∉ (String.intercalate ";" (ps.map Prod.fst)).toList :=
        fun h => absurd (hlist _ h) (by decide)
      simpa using hbreak
  have hmapHeads : heads.mapM (fun l => line? (l ++ "\n")) = some (heads.map fun _ => []) :=
    mapM_eq_some fun l hl => (hheads l hl).2
  have hmapSettings :
      (ps.mapM fun p => line? ("set(" ++ p.1 ++ " \"" ++ p.2 ++ "\")" ++ "\n")) =
        (ps.mapM stored?).map (·.map fun q => [q]) := by
    clear hbreaks hlist hword
    induction ps with
    | nil => rfl
    | cons p ps ih =>
      rw [mapM_cons, mapM_cons, line?_setting (hnames p mem_cons_self),
        ih (fun q hq => hnames q (mem_cons_of_mem _ hq))
          (fun q hq => hvalues q (mem_cons_of_mem _ hq)), stored?]
      cases lastArgument? (p.2.toList ++ ['"', ')', '\n']) with
      | none => rfl
      | some arg => cases ps.mapM stored? <;> rfl
  have hmap : (settings heads ps).mapM (line? ∘ (· ++ "\n")) =
      (ps.mapM stored?).map fun qs => heads.map (fun _ => []) ++ qs.map (fun q => [q]) ++
        [[("CONFIGS_LIST", String.intercalate ";" (ps.map Prod.fst))]] := by
    have hname : ∀ c ∈ "CONFIGS_LIST".toList, isWord c := all_eq_true.1 (by decide)
    have hlast : line? ("set(CONFIGS_LIST " ++ String.intercalate ";" (ps.map Prod.fst) ++ ")" ++
        "\n") = some [("CONFIGS_LIST", String.intercalate ";" (ps.map Prod.fst))] :=
      @line?_list "CONFIGS_LIST" _ hname hlist
    rw [settings, mapM_append, mapM_append, mapM_map]
    simp only [Function.comp_def, hmapHeads, hmapSettings, mapM_cons, hlast]
    cases ps.mapM stored? <;> rfl
  rw [value?, physicalLines_linesText hbreaks, mapM_map, hmap]
  cases ps.mapM stored? with
  | none => rfl
  | some qs =>
    have hsingle : (qs.map fun q => [q]).flatten = qs := by
      rw [← flatMap_def, flatMap_singleton']
    simp [lookup_cons, beq_eq_false_iff_ne.2 hname, hsingle]

omit hheads hnames hvalues in
theorem mem_mapM_stored? {qs : List (String × String)} (h : ps.mapM stored? = some qs)
    {q : String × String} : q ∈ qs ↔ ∃ p ∈ ps, stored? p = some q := by
  induction ps generalizing qs with
  | nil =>
    cases h
    simp
  | cons p ps ih =>
    rw [mapM_cons] at h
    obtain ⟨first, hfirst, h⟩ := Option.bind_eq_some_iff.1 h
    obtain ⟨rest, hrest, h⟩ := Option.bind_eq_some_iff.1 h
    cases h
    simp [ih hrest, hfirst, eq_comm]

theorem value?_settings_iff
    (hlist : ∀ p ∈ ps, p.1 ≠ "CONFIGS_LIST") (hapart : ∀ p ∈ ps, ∀ q ∈ ps, p.1 = q.1 → p = q) :
    (∀ p ∈ ps, value? (linesText (settings heads ps)) p.1 = some p.2) ↔
      ∀ p ∈ ps, isPlain p.2.toList := by
  have hvalue := fun p hp => value?_settings hheads hnames hvalues (hlist p hp)
  have hunique : ∀ qs, ps.mapM stored? = some qs →
      ∀ q ∈ qs.reverse, ∀ q' ∈ qs.reverse, q.1 = q'.1 → q = q' := by
    intro qs hqs q hq q' hq' hname
    obtain ⟨p, hp, hstored⟩ := (mem_mapM_stored? hqs).1 (mem_reverse.1 hq)
    obtain ⟨p', hp', hstored'⟩ := (mem_mapM_stored? hqs).1 (mem_reverse.1 hq')
    have hfst : ∀ {p q}, stored? p = some q → q.1 = p.1 := by
      intro p q h
      obtain ⟨arg, -, rfl⟩ := Option.map_eq_some_iff.1 h
      rfl
    have hsame := hapart p hp p' hp' ((hfst hstored).symm.trans (hname.trans (hfst hstored')))
    exact Option.some.inj (hstored.symm.trans (hsame ▸ hstored'))
  constructor
  · intro h p hp
    have hread := h p hp
    rw [hvalue p hp] at hread
    obtain ⟨qs, hqs, hlookup⟩ := Option.bind_eq_some_iff.1 hread
    have hmem := mem_reverse.1 ((lookup_eq_some_iff (hunique qs hqs)).1 hlookup)
    obtain ⟨p', hp', hstored⟩ := (mem_mapM_stored? hqs).1 hmem
    obtain ⟨arg, -, harg⟩ := Option.map_eq_some_iff.1 hstored
    rw [hapart p' hp' p hp (Prod.mk.inj harg).1] at hstored
    exact (stored?_eq_self p).1 hstored
  · intro h p hp
    have hstored : ps.mapM stored? = some ps :=
      (mapM_eq_some fun p hp => (stored?_eq_self p).2 (h p hp)).trans (by rw [map_id'])
    rw [hvalue p hp, hstored]
    exact (lookup_eq_some_iff (hunique ps hstored)).2 (mem_reverse.2 hp)

theorem value?_settings_eq_none (hlist : name ≠ "CONFIGS_LIST") (hname : ∀ p ∈ ps, p.1 ≠ name) :
    value? (linesText (settings heads ps)) name = none := by
  rw [value?_settings hheads hnames hvalues hlist]
  cases hstored : ps.mapM stored? with
  | none => rfl
  | some qs =>
    rw [Option.bind_some, lookup_eq_none_iff]
    intro q hq
    obtain ⟨p, hp, hstored⟩ := (mem_mapM_stored? hstored).1 (mem_reverse.1 hq)
    obtain ⟨arg, -, rfl⟩ := Option.map_eq_some_iff.1 hstored
    exact bne_iff_ne.2 (hname p hp).symm

end

end Settings

end CMake

/-! ## Headers -/

namespace CSource

/-- What a character behind a backslash stands for in a literal; numbers of characters are left out. -/
def escaped? (c : Char) : Option Char :=
  [('\'', '\''), ('"', '"'), ('?', '?'), ('\\', '\\'), ('a', '\x07'), ('b', '\x08'), ('f', '\x0c'),
    ('n', '\n'), ('r', '\r'), ('t', '\t'), ('v', '\x0b')].lookup c

/-- The rest of a literal whose opening quote has been read. -/
def literalRest? : List Char → Option (List Char)
  | [] => none
  | c :: cs =>
    if c = '"' then if cs.isEmpty then some [] else none
    else if c = '\\' then
      match cs with
      | [] => none
      | d :: ds => (escaped? d).bind fun first => (literalRest? ds).map (first :: ·)
    else (literalRest? cs).map (c :: ·)

def literal? (s : String) : Option String :=
  match s.toList with
  | '"' :: cs => (literalRest? cs).map String.ofList
  | _ => none

theorem literalRest?_escapeChars (cs : List Char) :
    literalRest? (Quoted.escapeChars cs ++ ['"']) = some cs := by
  induction cs with
  | nil => rfl
  | cons c cs ih =>
    by_cases hc : c = '\\' ∨ c = '"'
    · have hescaped : escaped? c = some c := by
        obtain rfl | rfl := hc <;> decide
      rw [Quoted.escapeChars_cons_special hc]
      simp [literalRest?, hescaped, ih]
    · have hslash : c ≠ '\\' := fun h => hc (.inl h)
      have hquote : c ≠ '"' := fun h => hc (.inr h)
      rw [Quoted.escapeChars_cons_plain hc, literalRest?.eq_def]
      simp [hslash, hquote, ih]

/-- A literal in which quotes and backslashes are escaped is the text that was escaped. -/
theorem literal?_escape (s : String) : literal? ("\"" ++ Quoted.escape s ++ "\"") = some s := by
  have hchars : ("\"" ++ Quoted.escape s ++ "\"").toList =
      '"' :: (Quoted.escapeChars s.toList ++ ['"']) := by
    simp [Quoted.escape]
  simp [literal?, hchars, literalRest?_escapeChars]

/-- Whether the body of a macro is a literal or has no characters that could open one, open a comment
or join lines. -/
def isBody (body : String) : Bool :=
  (literal? body).isSome || body.toList.all fun c => c ≠ '"' && c ≠ '\\' && c ≠ '/'

/-- What a line defines: nothing if it is a comment. -/
def line? (line : String) : Option (List (String × String)) :=
  if startsWith line "/*" && endsWith line "*/\n" then some []
  else
    match line.toList with
    | '#' :: 'd' :: 'e' :: 'f' :: 'i' :: 'n' :: 'e' :: ' ' :: cs =>
      match cs.dropWhile isWord with
      | ' ' :: ds =>
        let body := String.ofList (ds.takeWhile (· ≠ '\n'))
        if isBody body then some [(String.ofList (cs.takeWhile isWord), body)] else none
      | _ => none
    | _ => none

/-- The body that a file gives to a macro.  All lines have to be well formed. -/
def body? (text name : String) : Option String :=
  ((physicalLines text).mapM line?).bind fun defs => defs.flatten.lookup name

/-- The lines that define macros, behind other lines. -/
def definitions (heads : List String) (ps : List (String × String)) : List String :=
  heads ++ ps.map fun p => "#define " ++ p.1 ++ " " ++ p.2

theorem line?_definition {name body : String} (hname : ∀ c ∈ name.toList, isWord c)
    (hbreak : '\n' ∉ body.toList) (hbody : isBody body) :
    line? ("#define " ++ name ++ " " ++ body ++ "\n") = some [(name, body)] := by
  have hchars : ("#define " ++ name ++ " " ++ body ++ "\n").toList =
      '#' :: 'd' :: 'e' :: 'f' :: 'i' :: 'n' :: 'e' :: ' ' ::
        (name.toList ++ ' ' :: (body.toList ++ ['\n'])) := by
    simp
  have hline : ∀ c ∈ body.toList, decide (c ≠ '\n') :=
    fun c hc => decide_eq_true fun h => hbreak (h ▸ hc)
  have hcomment : startsWith ("#define " ++ name ++ " " ++ body ++ "\n") "/*" = false := by
    rw [startsWith, hchars]
    rfl
  rw [line?, hcomment, hchars]
  simp only [takeWhile_word hname, dropWhile_word hname, takeWhile_append_of_pos hline]
  simp [hbody]

theorem body?_definitions {heads : List String} {ps : List (String × String)}
    (hheads : ∀ l ∈ heads, '\n' ∉ l.toList ∧ line? (l ++ "\n") = some [])
    (hnames : ∀ p ∈ ps, ∀ c ∈ p.1.toList, isWord c)
    (hbodies : ∀ p ∈ ps, '\n' ∉ p.2.toList ∧ isBody p.2) (name : String) :
    body? (linesText (definitions heads ps)) name = ps.lookup name := by
  have hword : ∀ p ∈ ps, '\n' ∉ p.1.toList := fun p hp h => absurd (hnames p hp _ h) (by decide)
  have hbreaks : ∀ l ∈ definitions heads ps, '\n' ∉ l.toList := by
    intro l hl
    simp only [definitions, mem_append, mem_map] at hl
    obtain hl | ⟨p, hp, rfl⟩ := hl
    · exact (hheads l hl).1
    · simp [hword p hp, (hbodies p hp).1]
  have hfirst : heads.mapM (line? ∘ (· ++ "\n")) = some (heads.map fun _ => []) :=
    mapM_eq_some fun l hl => (hheads l hl).2
  have hrest : ps.mapM ((line? ∘ (· ++ "\n")) ∘ fun p => "#define " ++ p.1 ++ " " ++ p.2) =
      some (ps.map fun p => [p]) :=
    mapM_eq_some fun p hp => line?_definition (hnames p hp) (hbodies p hp).1 (hbodies p hp).2
  have hsingle : (ps.map fun p => [p]).flatten = ps := by
    rw [← flatMap_def, flatMap_singleton']
  rw [body?, physicalLines_linesText hbreaks, mapM_map, definitions, mapM_append,
    mapM_map, hfirst, hrest]
  simp [hsingle]

/-! ### Numbers -/

/-- What is behind the sign of a number, if it has one. -/
def unsigned : List Char → List Char
  | '-' :: cs => cs
  | '+' :: cs => cs
  | cs => cs

def isHexDigit (c : Char) : Bool :=
  c.isDigit || ('a' ≤ c && c ≤ 'f') || ('A' ≤ c && c ≤ 'F')

/-- The number of an integer constant with or without a sign: hexadecimal behind `0x`, octal behind
another zero, and decimal otherwise. -/
def number? (s : String) : Option Int :=
  if (unsigned s.toList).all fun c => isHexDigit c || c = 'x' || c = 'X' then
    match unsigned s.toList with
    | '0' :: 'x' :: _ | '0' :: 'X' :: _ => parse? 16 s
    | '0' :: _ :: _ => parse? 8 s
    | _ => parse? 10 s
  else none

def isDecimal (cs : List Char) : Bool :=
  cs.all isDigit && (cs.head? ≠ some '0' || cs.length ≤ 1)

def isHex (s : String) : Bool :=
  match s.toList with
  | '0' :: 'x' :: cs | '0' :: 'X' :: cs => cs.all isHexDigit
  | cs => cs.all isHexDigit

variable {s : String}

/-- A decimal number is read as an integer constant. -/
theorem number?_of_decimal (hs : isDecimal (unsigned s.toList)) :
    number? s = parse? 10 s := by
  simp only [isDecimal, Bool.and_eq_true, all_eq_true, Bool.or_eq_true, decide_eq_true_eq] at hs
  have hdigits : ∀ c ∈ unsigned s.toList, (isHexDigit c || c = 'x' || c = 'X') := by
    intro c hc
    simp [isHexDigit, hs.1 c hc]
  rw [number?, if_pos (all_eq_true.2 hdigits)]
  generalize unsigned s.toList = cs at hs
  split <;> simp_all [isDigit]

theorem isHexDigit_facts {c : Char} (h : isHexDigit c) :
    (isMargin c = false ∧ asciiDigit c = c) ∧ c ≠ '_' ∧ c ≠ '-' ∧ c ≠ '+' ∧ c ≠ 'x' ∧ c ≠ 'X' := by
  have hascii : c.toNat < 128 := by
    simp only [isHexDigit, isDigit, Bool.or_eq_true, Bool.and_eq_true, decide_eq_true_eq,
      Char.le_def, ge_iff_le, UInt32.le_iff_toNat_le] at h
    have hcode : c.toNat = c.val.toNat := rfl
    rw [hcode]
    rcases h with (h | h) | h <;> exact Nat.lt_of_le_of_lt h.2 (by decide)
  have hall : ∀ n < 128, isHexDigit (ofNat n) →
      (isMargin (ofNat n) = false ∧ asciiDigit (ofNat n) = ofNat n) ∧
        ofNat n ≠ '_' ∧ ofNat n ≠ '-' ∧ ofNat n ≠ '+' ∧ ofNat n ≠ 'x' ∧
        ofNat n ≠ 'X' := by
    decide +kernel
  simpa [h] using hall c.toNat hascii

theorem parse?_mark (hs : ∀ c ∈ s.toList, isHexDigit c) :
    parse? 16 ("0x" ++ s) = parse? 16 s := by
  have hfacts := fun c hc => isHexDigit_facts (hs c hc)
  have hchars : ("0x" ++ s).toList = '0' :: 'x' :: s.toList := by simp
  have hmarked : ∀ c ∈ ("0x" ++ s).toList, isMargin c = false ∧ asciiDigit c = c := by
    simp only [hchars, mem_cons]
    rintro c (rfl | rfl | hc)
    · decide
    · decide
    · exact (hfacts c hc).1
  rw [Integer.parse?_of_plain hmarked, Integer.parse?_of_plain fun c hc => (hfacts c hc).1, hchars]
  clear hchars hmarked
  generalize s.toList = cs at hfacts
  have hbar : Integer.dropMarkUnderscore cs = cs := by
    unfold Integer.dropMarkUnderscore
    grind
  have hunmarked : ∀ b ds, splitMark cs = some (b, ds) → b ≠ 16 := by
    intro b ds h
    unfold splitMark at h
    grind
  have hplain : readUnsigned 16 cs = Integer.readMagnitude 16 cs := by
    unfold readUnsigned
    rw [if_neg (by decide)]
    split
    · rename_i b ds hsplit
      rw [if_neg (hunmarked b ds hsplit)]
    · rfl
  have hsigned : readSigned 16 cs = (readUnsigned 16 cs).map Int.ofNat := by
    unfold readSigned
    grind
  rw [hsigned, hplain]
  simp [readSigned, readUnsigned, splitMark, hbar]

/-- A hexadecimal number is read as an integer constant, once it has its mark. -/
theorem number?_of_hex (hs : isHex s) :
    number? (if !(startsWith s "0x" || startsWith s "0X") then "0x" ++ s else s) = parse? 16 s := by
  have hmarked : ∀ {t : String} {x : Char} {cs : List Char}, x = 'x' ∨ x = 'X' →
      t.toList = '0' :: x :: cs → (∀ c ∈ cs, isHexDigit c) → number? t = parse? 16 t := by
    rintro t x cs (rfl | rfl) ht hcs <;>
      · have hzero : isHexDigit '0' := by decide
        simp +contextual [number?, ht, unsigned, hcs, hzero]
  unfold isHex at hs
  split at hs
  · rename_i cs hchars
    have hmark : startsWith s "0x" := by simp [startsWith, hchars]
    rw [hmark]
    exact hmarked (.inl rfl) hchars (all_eq_true.1 hs)
  · rename_i cs hchars
    have hmark : startsWith s "0X" := by simp [startsWith, hchars]
    rw [hmark, Bool.or_true]
    exact hmarked (.inr rfl) hchars (all_eq_true.1 hs)
  · rename_i hlower hupper
    have hunmarked : (startsWith s "0x" || startsWith s "0X") = false := by
      rw [Bool.eq_false_iff]
      simp only [startsWith, ne_eq, Bool.or_eq_true, isPrefixOf_iff_prefix]
      rintro (⟨t, ht⟩ | ⟨t, ht⟩)
      · exact hlower t ht.symm
      · exact hupper t ht.symm
    rw [hunmarked, ← parse?_mark (all_eq_true.1 hs)]
    exact hmarked (.inl rfl) (by simp) (all_eq_true.1 hs)

end CSource

end Buildsmith.Text
