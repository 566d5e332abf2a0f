import Buildsmith.Proofs.Header.Growth
import Mathlib.Data.List.Forall2

/-!
# Comments and enumerators

Each documentation comment gives one item, in the order of the text.  Its recorded offset is that of
the first place with the same text, which may be in front of the comment (`comments_located`).

Enumerators are read line by line (`enumerators_exact_iff`).
-/

namespace Buildsmith.Text

variable {cs : List Char} {c : Char} {s : String}

theorem mem_dropWhile {p : Char → Bool} (h : c ∈ cs) (hc : p c = false) : c ∈ cs.dropWhile p := by
  induction cs with
  | nil => cases h
  | cons d cs ih => grind [List.dropWhile_cons]

theorem mem_trim (h : c ∈ s.toList) (hc : isBlank c = false) : c ∈ (trim s).toList := by
  simpa [trim, dropEndWhile] using mem_dropWhile (List.mem_reverse.2 (mem_dropWhile h hc)) hc

theorem getLast?_trim (h : (trim s).toList.getLast? = some c) : isBlank c = false := by
  have hhead := List.head?_dropWhile_not isBlank (s.toList.dropWhile isBlank).reverse
  simp_all [trim, dropEndWhile]

end Buildsmith.Text

namespace Buildsmith.Header

open Data
open Kconfig (bind_eq_ok)
open Fields (get? get?_put)
open Text (splitFirst StandsFirst cut? eq_of_cut? cut?_eq_none cut?_append trim isBlank)

/-! ## Comments -/

/-- The documentation comments of a text that stands at an offset, each with its own offset: the
first opening and what is up to the next closing, and the comments behind it. -/
inductive Blocks : Nat → List Char → List (Nat × String) → Prop
  | none {n cs}
    (h : ∀ p, splitFirst ['/', '*', '*'] cs = some p → splitFirst ['*', '/'] p.2 = none) :
    Blocks n cs []
  | block {n cs gap body rest rest' bs} (hgap : splitFirst ['/', '*', '*'] cs = some (gap, rest))
    (hbody : splitFirst ['*', '/'] rest = some (body, rest'))
    (h : Blocks (n + gap.length + body.length + 5) rest' bs) :
    Blocks n cs ((n + gap.length, String.ofList body) :: bs)

theorem commentBodies_none (cs : List Char) :
    commentBodies none cs =
      ((splitFirst ['/', '*', '*'] cs).map fun p => commentBodies (some []) p.2).getD [] := by
  induction cs with
  | nil => rfl
  | cons c cs ih =>
    unfold splitFirst
    split
    · rename_i hlead
      obtain ⟨rest, hrest⟩ := List.isPrefixOf_iff_prefix.1 hlead
      rw [← hrest]
      rfl
    · rename_i hlead
      rw [commentBodies, ih]
      · cases splitFirst ['/', '*', '*'] cs <;> rfl
      · rintro rest rfl rfl
        simp at hlead

theorem commentBodies_some (body cs : List Char) :
    commentBodies (some body) cs = ((splitFirst ['*', '/'] cs).map fun p =>
      String.ofList (body.reverse ++ p.1) :: commentBodies none p.2).getD [] := by
  induction cs generalizing body with
  | nil => rfl
  | cons c cs ih =>
    unfold splitFirst
    split
    · rename_i hlead
      obtain ⟨rest, hrest⟩ := List.isPrefixOf_iff_prefix.1 hlead
      rw [← hrest]
      simp [commentBodies]
    · rename_i hlead
      rw [commentBodies, ih]
      · cases splitFirst ['*', '/'] cs <;> simp
      · rintro rest rfl rfl
        simp at hlead

theorem exists_blocks (n : Nat) (cs : List Char) :
    ∃ bs, Blocks n cs bs ∧ commentBodies none cs = bs.map Prod.snd := by
  induction hlength : cs.length using Nat.strongRecOn generalizing n cs with
  | ind k ih =>
    rw [commentBodies_none]
    cases hgap : splitFirst ['/', '*', '*'] cs with
    | none => exact ⟨[], .none (by simp [hgap]), rfl⟩
    | some p =>
      rw [Option.map_some, commentBodies_some]
      cases hbody : splitFirst ['*', '/'] p.2 with
      | none => exact ⟨[], .none (by simp [hgap, hbody]), rfl⟩
      | some q =>
        have hlt : q.2.length < k := by
          have hcs := congrArg List.length (Text.splitFirst_eq_some hgap).1
          have hrest := congrArg List.length (Text.splitFirst_eq_some hbody).1
          simp at hcs hrest
          omega
        obtain ⟨bs, hbs, hbodies⟩ := ih _ hlt (n + p.1.length + q.1.length + 5) q.2 rfl
        exact ⟨_, .block hgap hbody hbs, by simp [hbodies]⟩

def blockText (body : String) : String := "/**" ++ body ++ "*/"

theorem Blocks.stands {n : Nat} {cs whole : List Char} {bs : List (Nat × String)}
    (h : Blocks n cs bs) (hcs : whole.drop n = cs) :
    ∀ b ∈ bs, (blockText b.2).toList <+: whole.drop b.1 := by
  induction h with
  | none => simp
  | @block n cs gap body rest rest' bs hgap hbody _ ih =>
    obtain ⟨hgap, -⟩ := Text.splitFirst_eq_some hgap
    obtain ⟨hbody, -⟩ := Text.splitFirst_eq_some hbody
    have hdrop : whole.drop (n + gap.length) =
        '/' :: '*' :: '*' :: (body ++ '*' :: '/' :: rest') := by
      rw [← List.drop_drop, hcs, hgap, List.drop_left, hbody]
      rfl
    refine List.forall_mem_cons.2 ⟨?_, ih ?_⟩
    · rw [hdrop]
      exact ⟨rest', by simp [blockText]⟩
    · have hfive : (body ++ '*' :: '/' :: rest').drop (body.length + 2) = rest' := by simp
      rw [Nat.add_assoc, ← List.drop_drop, hdrop]
      exact hfive

/-! ## Offsets -/

variable {item item' : Fields} {key value whole : String} {n : Nat} {named : Prop}

/-- Whether an item has an offset; if an entry has the name of that field, it is the first of
several values. -/
def HasStart (n : Nat) (named : Prop) (item : Fields) : Prop :=
  get? item "start_idx" = some (.number n) ∨
    named ∧ ∃ vs, get? item "start_idx" = some (.list (.number n :: vs))

theorem HasStart.put (h : HasStart n named item) {v : Value} (hkey : "start_idx" ≠ key) :
    HasStart n named (Fields.put key v item) := by
  rwa [HasStart, get?_put, if_neg hkey]

/-- Whether an entry with a name is kept under a key. -/
def KeptUnder (key name : String) : Prop := ∃ value parts, entryParts name value = .ok (key, parts)

/-- Whether a line begins an entry that is kept under a key. -/
def IsEntry (key line : String) : Prop :=
  Text.startsWith (Text.trim line) "@" ∧ ∃ k, entryKey (Text.trim line) = .ok k ∧ KeptUnder key k

theorem addEntry_start (hkey : KeptUnder "start_idx" key → named) (hitem : HasStart n named item)
    (h : addEntry item key value whole = .ok item') : HasStart n named item' := by
  obtain ⟨⟨k, name, v⟩, hparts, h⟩ := bind_eq_ok.1 h
  by_cases hk : k = "start_idx"
  · subst hk
    have hnamed := hkey ⟨_, _, hparts⟩
    obtain hold | ⟨-, vs, hold⟩ := hitem
    all_goals
      simp only [hold] at h
      split at h
      · cases h
        exact .inr ⟨hnamed, _, (get?_put ..).trans (if_pos rfl)⟩
      · cases h
  · have hput : ∃ v', item' = Fields.put k v' item := by
      dsimp only at h
      split at h
      · split at h <;> exact ⟨_, (Except.ok.inj h).symm⟩
      · split at h
        · split at h <;> exact ⟨_, (Except.ok.inj h).symm⟩
        · split at h
          · exact ⟨_, (Except.ok.inj h).symm⟩
          · cases h
    obtain ⟨v', rfl⟩ := hput
    exact hitem.put (Ne.symm hk)

theorem readEntries_start {lines values : List String} {key? : Option String}
    (hlines : ∀ line ∈ lines, IsEntry "start_idx" line → named)
    (hkey : ∀ k, key? = some k → KeptUnder "start_idx" k → named) (hitem : HasStart n named item)
    (h : readEntries whole key? values item lines = .ok item') : HasStart n named item' := by
  induction lines generalizing key? values item with
  | nil =>
    cases key? with
    | none => exact Except.ok.inj h ▸ hitem
    | some k => exact addEntry_start (hkey k rfl) hitem h
  | cons line lines ih =>
    obtain ⟨hline, hlines⟩ := List.forall_mem_cons.1 hlines
    unfold readEntries at h
    dsimp only at h
    split at h
    · rename_i hat
      cases key? with
      | none =>
        obtain ⟨_, ⟨⟩, h⟩ := bind_eq_ok.1 h
        obtain ⟨next, hnext, h⟩ := bind_eq_ok.1 h
        exact ih hlines (fun k hk h => hline ⟨hat, k, Option.some.inj hk ▸ hnext, h⟩) hitem h
      | some k =>
        obtain ⟨item₁, hitem₁, h⟩ := bind_eq_ok.1 h
        obtain ⟨next, hnext, h⟩ := bind_eq_ok.1 h
        exact ih hlines (fun k hk h => hline ⟨hat, k, Option.some.inj hk ▸ hnext, h⟩)
          (addEntry_start (hkey k rfl) hitem hitem₁) h
    · exact ih hlines hkey hitem h

theorem addHelpText_start (hitem : HasStart n named item) (h : addHelpText item = .ok item') :
    HasStart n named item' := by
  obtain ⟨doc, -, h⟩ := bind_eq_ok.1 h
  cases h
  refine HasStart.put ?_ (by decide)
  split
  · exact hitem.put (by decide)
  · exact hitem

def HasEntry (key body : String) : Prop :=
  ∃ n, Text.find? (commentText body) "@" = some n ∧
    ∃ line ∈ Text.splitOn (Text.dropFirst n (commentText body)) "\n", IsEntry key line

theorem readComment_start {code body : String} {withHelp : Bool}
    (hfind : Text.find? code (blockText body) = some n)
    (h : readComment code body withHelp = .ok item) :
    Text.find? (commentText body) "@" = none ∧ get? item "start_idx" = none ∨
      HasStart n (HasEntry "start_idx" body) item := by
  unfold readComment at h
  rw [show "/**" ++ body ++ "*/" = blockText body from rfl, hfind] at h
  dsimp only at h
  split at h
  · rename_i hnone
    cases h
    exact .inl ⟨hnone, rfl⟩
  · rename_i k hk
    right
    have hread : ∀ item₀ item₁, HasStart n (HasEntry "start_idx" body) item₀ →
        readEntries (Text.dropFirst k (commentText body)) none [] item₀
          (Text.splitOn (Text.dropFirst k (commentText body)) "\n") = .ok item₁ →
        (if withHelp then addHelpText item₁ else pure item₁) = .ok item →
        HasStart n (HasEntry "start_idx" body) item := by
      intro item₀ item₁ hstart hentries hhelp
      have hstart := readEntries_start (fun line hline h => ⟨k, hk, line, hline, h⟩) nofun
        hstart hentries
      split at hhelp
      · exact addHelpText_start hstart hhelp
      · exact Except.ok.inj hhelp ▸ hstart
    split at h
    · rename_i hzero
      obtain ⟨item₁, hitem₁, h⟩ := bind_eq_ok.1 h
      refine hread [("start_idx", .number n)] item₁ (.inl rfl) ?_ h
      have hdrop : Text.dropFirst k (commentText body) = commentText body := by
        simp [Text.dropFirst, hzero]
      rw [hdrop]
      exact hitem₁
    · obtain ⟨item₁, hitem₁, h⟩ := bind_eq_ok.1 h
      refine hread _ item₁ ?_ hitem₁ h
      exact .inl rfl

/-- Each comment gives one item, in order.  The offset in it is that of the first place with the
text of the comment; this is where the comment begins unless the text is also in front of it. -/
theorem comments_located (code : String) (withHelp : Bool) :
    ∃ bs, Blocks 0 code.toList bs ∧
      readComments code withHelp = bs.mapM (fun b => readComment code b.2 withHelp) ∧
      ∀ b ∈ bs, ∃ n ≤ b.1, StandsFirst (blockText b.2).toList code.toList n ∧
        ∀ item, readComment code b.2 withHelp = .ok item →
          Text.find? (commentText b.2) "@" = none ∧ get? item "start_idx" = none ∨
            HasStart n (HasEntry "start_idx" b.2) item := by
  obtain ⟨bs, hblocks, hbodies⟩ := exists_blocks 0 code.toList
  refine ⟨bs, hblocks, ?_, fun b hb => ?_⟩
  · rw [readComments, hbodies, List.mapM_map]
    simp only [Function.comp_def]
  · have hstands := hblocks.stands rfl b hb
    obtain ⟨n, hfind, hfirst⟩ := Text.find?_of_prefix hstands
    exact ⟨n, hfirst.2 _ hstands, hfirst, fun item => readComment_start hfind⟩

/-! ## Enumerators -/

variable {line head body name : String} {lines : List String}

/-- Whether a text has no comment. -/
def IsBare (s : String) : Prop := ¬"//".toList <:+: s.toList ∧ ¬"/*".toList <:+: s.toList

theorem IsBare.of_infix {s t : String} (h : IsBare s) (ht : t.toList <:+: s.toList) : IsBare t :=
  ⟨fun h' => h.1 (h'.trans ht), fun h' => h.2 (h'.trans ht)⟩

/-- The enumerator of a line: what is in front of its first comma; the rest is a comment on it. -/
def lineEnumerator (line : String) : Enumerator :=
  let parts := (cut? line ",").getD (line, "")
  enumeratorOf parts.1 (trim parts.2)

theorem startsWith_eq_false {s t : String} (h : ¬t.toList <:+: s.toList) :
    Text.startsWith s t = false :=
  Bool.eq_false_iff.2 fun h' => h (List.isPrefixOf_iff_prefix.1 h').isInfix

theorem cutBefore?_eq_none {s t : String} (h : ¬t.toList <:+: s.toList) :
    cutBefore? s t = none := by
  have hfind : Text.find? s t = none := by
    rw [Text.find?, Option.map_eq_none_iff]
    refine Option.eq_none_iff_forall_ne_some.2 fun p hp => h ?_
    rw [(Text.splitFirst_eq_some hp).1]
    exact ⟨p.1, p.2, by simp⟩
  rw [cutBefore?, hfind]

theorem isInfix_trim (s : String) : (trim s).toList <:+: s.toList := by
  simp only [trim, Text.dropEndWhile]
  refine .trans ?_ (List.dropWhile_suffix isBlank).isInfix
  exact (List.reverse_suffix.1 (by simpa using List.dropWhile_suffix isBlank)).isInfix

theorem readRemark_eq (h : IsBare value) : readRemark name value = .finished name (trim value) := by
  have hbare := h.of_infix (isInfix_trim value)
  simp [readRemark, startsWith_eq_false hbare.2, startsWith_eq_false hbare.1]

theorem readEnumeratorLine_eq (h : IsBare line) :
    readEnumeratorLine line = .finished ((cut? line ",").getD (line, "")).1
      (trim ((cut? line ",").getD (line, "")).2) := by
  have hbare : IsBare ((cut? line ",").getD (line, "")).1 ∧
      IsBare ((cut? line ",").getD (line, "")).2 := by
    cases hcut : cut? line "," with
    | none => exact ⟨h, by simp [IsBare]⟩
    | some p =>
      rw [eq_of_cut? hcut] at h
      exact ⟨h.of_infix ⟨[], ("," ++ p.2).toList, by simp⟩,
        h.of_infix ⟨(p.1 ++ ",").toList, [], by simp⟩⟩
  unfold readEnumeratorLine
  generalize (cut? line ",").getD (line, "") = p at hbare ⊢
  dsimp only
  split
  · exact readRemark_eq hbare.2
  · rename_i hempty
    have hnil : p.2 = "" := by simpa using hempty
    rw [cutBefore?_eq_none hbare.1.2, cutBefore?_eq_none hbare.1.1, hnil]
    rfl

def textLines (lines : List String) : List String := (lines.map trim).filter (!·.isEmpty)

theorem readEnumerators_eq (h : ∀ line ∈ lines, IsBare line) :
    readEnumerators none lines = (textLines lines).map lineEnumerator := by
  induction lines with
  | nil => rfl
  | cons line lines ih =>
    obtain ⟨hline, hlines⟩ := List.forall_mem_cons.1 h
    have hline := hline.of_infix (isInfix_trim line)
    unfold readEnumerators
    dsimp only
    rw [readEnumeratorLine_eq hline, startsWith_eq_false hline.1]
    by_cases hempty : (trim line).isEmpty <;> simp [hempty, textLines, ih hlines, lineEnumerator]

/-- Whether a line holds an enumerator and nothing else but a comma. -/
def Holds (line : String) (e : String × String) : Prop :=
  ∃ core, (line = core ∨ line = core ++ ",") ∧ (trim core = e.1 ∧ e.2 = "" ∨
    ∃ a b, core = a ++ "=" ++ b ∧ trim a = e.1 ∧ trim b = e.2)

theorem not_mem_of_trim {s t : String} {c : Char} (h : trim s = t) (hc : c ∉ t.toList)
    (hblank : isBlank c = false) : c ∉ s.toList :=
  fun hs => hc (h ▸ Text.mem_trim hs hblank)

theorem enumeratorOf_eq_iff {core : String} {e : String × String} (hname : '=' ∉ e.1.toList) :
    enumeratorOf core "" = ⟨e.1, e.2, ""⟩ ↔ trim core = e.1 ∧ e.2 = "" ∨
      ∃ a b, core = a ++ "=" ++ b ∧ trim a = e.1 ∧ trim b = e.2 := by
  unfold enumeratorOf
  constructor
  · intro h
    split at h
    · rename_i a b hcut
      obtain ⟨ha, hb, -⟩ := Enumerator.mk.inj h
      exact .inr ⟨a, b, eq_of_cut? hcut, ha, hb⟩
    · obtain ⟨hcore, hvalue, -⟩ := Enumerator.mk.inj h
      exact .inl ⟨hcore, hvalue.symm⟩
  · rintro (⟨hcore, hvalue⟩ | ⟨a, b, rfl, ha, hb⟩)
    · rw [cut?_eq_none "=" rfl (not_mem_of_trim hcore hname (by decide)), hcore, hvalue]
    · rw [cut?_append "=" (Text.followsFirst_singleton (not_mem_of_trim ha hname (by decide)))]
      simp [ha, hb]

theorem enumeratorOf_comment (declared comment : String) :
    (enumeratorOf declared comment).comment = comment := by
  unfold enumeratorOf
  split <;> rfl

theorem lineEnumerator_eq_iff {e : String × String}
    (hline : ∀ c ∈ line.toList.getLast?, isBlank c = false)
    (hname : ',' ∉ e.1.toList ∧ '=' ∉ e.1.toList) (hvalue : ',' ∉ e.2.toList) :
    lineEnumerator line = ⟨e.1, e.2, ""⟩ ↔ Holds line e := by
  unfold lineEnumerator Holds
  constructor
  · intro h
    cases hcut : cut? line "," with
    | none =>
      rw [hcut] at h
      exact ⟨line, .inl rfl, (enumeratorOf_eq_iff hname.2).1 h⟩
    | some p =>
      have heq := eq_of_cut? hcut
      have hnil : p.2 = "" := by
        have hcomment : trim p.2 = "" := by
          simpa [hcut, enumeratorOf_comment] using congrArg Enumerator.comment h
        refine String.toList_eq_nil_iff.1 (List.getLast?_eq_none_iff.1 ?_)
        refine Option.eq_none_iff_forall_ne_some.2 fun c hc => ?_
        have hmem := Text.mem_trim (List.mem_of_getLast? hc)
          (hline c (by simp [heq, List.getLast?_cons, hc]))
        simp [hcomment] at hmem
      simp only [hcut, Option.getD_some, hnil] at h
      exact ⟨p.1, .inr (by rw [heq, hnil]; simp), (enumeratorOf_eq_iff hname.2).1 h⟩
  · rintro ⟨core, hcore, h⟩
    have hcomma : ',' ∉ core.toList := by
      obtain ⟨hcore, -⟩ | ⟨a, b, rfl, ha, hb⟩ := h
      · exact not_mem_of_trim hcore hname.1 (by decide)
      · simp [not_mem_of_trim ha hname.1 (by decide), not_mem_of_trim hb hvalue (by decide)]
    have hparts : (cut? line ",").getD (line, "") = (core, "") := by
      obtain rfl | rfl := hcore
      · rw [cut?_eq_none "," rfl hcomma, Option.getD_none]
      · have hcut := cut?_append (b := "") "," (Text.followsFirst_singleton hcomma)
        rw [String.append_empty] at hcut
        rw [hcut, Option.getD_some]
    rw [hparts]
    exact (enumeratorOf_eq_iff hname.2).2 h

/-- Enumerators are read as they are exactly if each is on a line of its own: what is behind the
first comma of a line is taken for a comment. -/
theorem enumerators_exact_iff {es : List (String × String)} (hopening : '\x7b' ∉ body.toList)
    (hbare : ∀ line ∈ Text.splitOn body "\n", IsBare line)
    (hes : ∀ e ∈ es, ',' ∉ e.1.toList ∧ '=' ∉ e.1.toList ∧ ',' ∉ e.2.toList) :
    enumeratorsOf (head ++ "\x7b" ++ (body ++ "\x7d")) = es.map (fun e => ⟨e.1, e.2, ""⟩) ↔
      List.Forall₂ Holds (textLines (Text.splitOn body "\n")) es := by
  have hlast := Text.cutLast?_append (a := body) (b := "") "\x7d"
    (Text.followsFirst_singleton (c := '\x7d') (by simp))
  rw [String.append_empty] at hlast
  rw [enumeratorsOf, Text.cutLast?_append "\x7b"
    (Text.followsFirst_singleton (c := '\x7b') (by simpa using hopening))]
  simp only [Option.map_some, Option.getD_some, hlast]
  rw [readEnumerators_eq hbare]
  have hlines : ∀ line ∈ textLines (Text.splitOn body "\n"), ∀ c ∈ line.toList.getLast?,
      isBlank c = false := by
    intro line hline c hc
    obtain ⟨l, -, rfl⟩ := List.mem_map.1 (List.mem_filter.1 hline).1
    exact Text.getLast?_trim hc
  generalize textLines (Text.splitOn body "\n") = lines at hlines
  induction lines generalizing es with
  | nil => cases es <;> simp
  | cons line lines ih =>
    cases es with
    | nil => simp
    | cons e es =>
      obtain ⟨hline, hlines⟩ := List.forall_mem_cons.1 hlines
      obtain ⟨he, hes⟩ := List.forall_mem_cons.1 hes
      simp [lineEnumerator_eq_iff hline ⟨he.1, he.2.1⟩ he.2.2, ih hes hlines]

theorem enumerators_exact_lines :
    enumeratorsOf "enum Kind \x7b\n  CAT,\n  DOG = 2\n\x7d" = [⟨"CAT", "", ""⟩, ⟨"DOG", "2", ""⟩] ∧
      List.Forall₂ Holds (textLines (Text.splitOn "\n  CAT,\n  DOG = 2\n" "\n"))
        [("CAT", ""), ("DOG", "2")] := by
  have hread : enumeratorsOf "enum Kind \x7b\n  CAT,\n  DOG = 2\n\x7d" =
      [⟨"CAT", "", ""⟩, ⟨"DOG", "2", ""⟩] := by decide +kernel
  exact ⟨hread, (@enumerators_exact_iff "enum Kind " "\n  CAT,\n  DOG = 2\n" _ (by decide +kernel)
    (by simp only [IsBare]; decide +kernel) (by decide +kernel)).1 hread⟩

end Buildsmith.Header
