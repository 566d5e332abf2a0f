import Buildsmith.Markdown.Module
import Buildsmith.Proofs.Session.Preservation
import Buildsmith.Proofs.Text.Finding

/-!
# Anchors of headings

No two headings of a page have the same anchor, if no name in it has a hyphen (`anchors_nodup`).
Without hyphens an anchor tells its title and its number, and the numbers of a title grow, in
whatever case it is written.
-/

namespace Buildsmith.Markdown

open Data List Except
open Header (Result)
open Kconfig (bind_eq_ok)
open Text (lower)
open Text.Integer (natText)

def IsPlain (name : String) : Prop := '-' ∉ name.toList

def Block.IsPlain : Block → Prop
  | heading _ title => Markdown.IsPlain title
  | text _ => True

variable {a : Uses} {bs : List Block} {key title title' x : String} {n n' : Nat}

/-! ## Numbers -/

theorem uses_countUse (k k' : String) (a : Uses) :
    uses (countUse k a) k' = uses a k' + if k = k' then 1 else 0 := by
  unfold uses
  induction a with
  | nil => by_cases hk : k = k' <;> simp [countUse, hk]
  | cons u a ih =>
    unfold countUse
    by_cases hu : u.1 = k
    · by_cases hk : k = k' <;> simp [hu, hk]
    · by_cases hk : u.1 = k'
      · have hne : k ≠ k' := fun h => hu (hk.trans h.symm)
        simp [hk, hne, hne.symm]
      · simp [hu, hk, ih]

/-- An anchor tells its title and its number. -/
theorem anchorText_inj (ht : IsPlain title) (ht' : IsPlain title')
    (h : anchorText title n = anchorText title' n') : title = title' ∧ n = n' := by
  let tail (n : Nat) : List Char := if n = 1 then [] else '-' :: Nat.toDigits 10 n
  have hlist : ∀ t n, (anchorText t n).toList = t.toList ++ tail n := by
    intro t n
    by_cases hn : n = 1 <;> simp [anchorText, tail, hn, natText]
  have hlead : ∀ t n, IsPlain t → (t.toList ++ tail n).takeWhile (· ≠ '-') = t.toList := by
    intro t n ht
    have hall : ∀ c ∈ t.toList, decide (c ≠ '-') :=
      fun c hc => decide_eq_true fun h => ht (h ▸ hc)
    rw [takeWhile_append_of_pos hall]
    by_cases hn : n = 1 <;> simp [tail, hn]
  have hchars := congrArg String.toList h
  rw [hlist, hlist] at hchars
  have htitle := congrArg (takeWhile (· ≠ '-')) hchars
  rw [hlead _ _ ht, hlead _ _ ht'] at htitle
  rw [htitle] at hchars
  refine ⟨String.toList_injective htitle, ?_⟩
  by_cases hn : n = 1 <;> by_cases hn' : n' = 1 <;> simp [tail, hn, hn'] at hchars ⊢
  have hvalue := congrArg (Nat.ofDigitChars 10 · 0) hchars
  simpa [Nat.ofDigitChars_ten_toDigits] using hvalue

/-! ## Anchors -/

def anchors (ps : List Piece) : List String := ps.filterMap Piece.anchor?

theorem exists_of_mem_anchors (hbs : ∀ b ∈ bs, b.IsPlain) (hx : x ∈ anchors (numbered a bs)) :
    ∃ title n, IsPlain title ∧ uses a (lower title) < n ∧ x = anchorText title n := by
  induction bs generalizing a with
  | nil => cases hx
  | cons b bs ih =>
    obtain ⟨hb, hrest⟩ := forall_mem_cons.1 hbs
    cases b with
    | text s => exact ih hrest hx
    | heading mark title =>
      obtain rfl | hx := mem_cons.1 hx
      · exact ⟨title, _, hb, by simp [uses_countUse], rfl⟩
      · obtain ⟨title', n, htitle, hn, rfl⟩ := ih hrest hx
        rw [uses_countUse] at hn
        exact ⟨title', n, htitle, by omega, rfl⟩

theorem nodup_anchors (hbs : ∀ b ∈ bs, b.IsPlain) : (anchors (numbered a bs)).Nodup := by
  induction bs generalizing a with
  | nil => exact nodup_nil
  | cons b bs ih =>
    obtain ⟨hb, hrest⟩ := forall_mem_cons.1 hbs
    cases b with
    | text s => exact ih hrest
    | heading mark title =>
      refine nodup_cons.2 ⟨fun hmem => ?_, ih hrest⟩
      -- a later heading with this title has a larger number
      obtain ⟨title', n, htitle, hn, hsame⟩ := exists_of_mem_anchors hrest hmem
      obtain ⟨rfl, rfl⟩ := anchorText_inj hb htitle hsame
      exact lt_irrefl _ hn

/-! ## Titles -/

/-- Whether all titles in a part of a page are without hyphens. -/
def GivesPlain (r : Result (List Block)) : Prop := ∀ bs, r = .ok bs → ∀ b ∈ bs, b.IsPlain

variable {mark : String} {item : Value}

theorem givesPlain_under (hkey : IsPlain key) (text : Result String) :
    GivesPlain (under mark key text) := by
  intro bs h
  obtain ⟨s, -, h⟩ := bind_eq_ok.1 h
  obtain rfl := ok.inj h
  have hchars : (escapeName key).toList = Text.replaceFrom ['_'] ['\\', '_'] 0 key.toList := by
    simp [escapeName, Text.replace]
  have hplain : IsPlain (escapeName key) := by
    rw [IsPlain, hchars, Text.replaceFrom_singleton, mem_flatMap]
    rintro ⟨c, hc, hin⟩
    split at hin
    · simp at hin
    · exact hkey (mem_singleton.1 hin ▸ hc)
  simpa [Block.IsPlain] using hplain

theorem givesPlain_gather {α : Type} {f : α → Result (List Block)} {xs : List α}
    (hf : ∀ x ∈ xs, GivesPlain (f x)) : GivesPlain (gather f xs) := by
  induction xs with
  | nil =>
    intro bs h
    obtain rfl := ok.inj h
    simp
  | cons x xs ih =>
    obtain ⟨hx, hf⟩ := forall_mem_cons.1 hf
    intro bs h
    obtain ⟨first, hfirst, h⟩ := bind_eq_ok.1 h
    obtain ⟨rest, hrest, h⟩ := bind_eq_ok.1 h
    obtain rfl := ok.inj h
    exact forall_mem_append.2 ⟨hx first hfirst, ih hf rest hrest⟩

theorem givesPlain_eachMember {kind : String} {f : String → Value → Result (List Block)}
    {items : Fields} (hf : ∀ i ∈ items, isOfKind kind i.2 = .ok true → GivesPlain (f i.1 i.2)) :
    GivesPlain (eachMember kind f items) := by
  refine givesPlain_gather fun i hi bs h => ?_
  obtain ⟨has, hkind, h⟩ := bind_eq_ok.1 h
  cases has with
  | true => exact hf i hi hkind bs h
  | false =>
    obtain rfl := ok.inj h
    simp

theorem givesPlain_withOverloads (hkey : IsPlain key) (text : Value → Result String) :
    GivesPlain (withOverloads mark key text item) := by
  intro bs h
  obtain ⟨first, hfirst, h⟩ := bind_eq_ok.1 h
  obtain ⟨has, -, h⟩ := bind_eq_ok.1 h
  have hplain := givesPlain_under hkey _ first hfirst
  cases has with
  | false => exact ok.inj h ▸ hplain
  | true =>
    obtain ⟨overload, -, h⟩ := bind_eq_ok.1 h
    obtain ⟨os, -, h⟩ := bind_eq_ok.1 h
    obtain ⟨rest, hrest, h⟩ := bind_eq_ok.1 h
    obtain rfl := ok.inj h
    refine forall_mem_append.2 ⟨hplain, givesPlain_gather (fun o _ => ?_) rest hrest⟩
    have hnumber : '-' ∉ (natText (o.2 + 1)).toList := fun hin =>
      absurd (Text.Integer.isDigit_of_mem_natText hin) (by decide)
    exact givesPlain_under (by simpa [overloadTitle, IsPlain, hnumber] using hkey) _

/-- Whether neither the members of a module nor those of its classes have hyphens in their names. -/
def HasPlainNames (item : Value) : Prop :=
  ∀ ms, members item = .ok ms → ∀ i ∈ ms, IsPlain i.1 ∧
    (isOfKind "class" i.2 = .ok true → ∀ ns, members i.2 = .ok ns → ∀ j ∈ ns, IsPlain j.1)

theorem givesPlain_page {parents : List String} {name start join : String}
    (hitem : HasPlainNames item) : GivesPlain (page parents name start join item) := by
  intro bs h
  obtain ⟨brief, -, h⟩ := bind_eq_ok.1 h
  obtain ⟨ms, hms, h⟩ := bind_eq_ok.1 h
  obtain ⟨modules, -, h⟩ := bind_eq_ok.1 h
  obtain ⟨enums, henums, h⟩ := bind_eq_ok.1 h
  obtain ⟨vars, hvars, h⟩ := bind_eq_ok.1 h
  obtain ⟨functions, hfunctions, h⟩ := bind_eq_ok.1 h
  obtain ⟨classes, hclasses, h⟩ := bind_eq_ok.1 h
  obtain rfl := ok.inj h
  have hplain := hitem ms hms
  have henums := givesPlain_eachMember (fun i hi _ => givesPlain_under (hplain i hi).1 _) _ henums
  have hvars := givesPlain_eachMember (fun i hi _ => givesPlain_under (hplain i hi).1 _) _ hvars
  have hfunctions :=
    givesPlain_eachMember (fun i hi _ => givesPlain_withOverloads (hplain i hi).1 _) _ hfunctions
  have hclasses : ∀ b ∈ classes, b.IsPlain := by
    refine givesPlain_eachMember (fun i hi hkind bs h => ?_) _ hclasses
    obtain ⟨first, hfirst, h⟩ := bind_eq_ok.1 h
    obtain ⟨ns, hns, h⟩ := bind_eq_ok.1 h
    obtain ⟨inner, hinner, h⟩ := bind_eq_ok.1 h
    obtain rfl := ok.inj h
    have hinside := (hplain i hi).2 hkind ns hns
    exact forall_mem_append.2 ⟨givesPlain_under (hplain i hi).1 _ first hfirst,
      givesPlain_gather (fun j hj => givesPlain_withOverloads (hinside j hj) _) inner hinner⟩
  have hopening : ∀ title, IsPlain title →
      ∀ b ∈ [Block.text "\n\n", .heading "##" title], b.IsPlain := by
    simp [Block.IsPlain]
  simp only [forall_mem_append]
  refine ⟨⟨⟨⟨⟨⟨⟨⟨?_, hopening _ ?_⟩, henums⟩, hopening _ ?_⟩, hvars⟩, hopening _ ?_⟩, hfunctions⟩,
    hopening _ ?_⟩, hclasses⟩
  all_goals simp [Block.IsPlain, IsPlain]

/-- All anchors of a page are different. -/
theorem anchors_nodup {parents : List String} {name start join text : String}
    (hitem : HasPlainNames item) (h : moduleText parents name start join item = .ok text) :
    ∃ bs, page parents name start join item = .ok bs ∧
      text = String.join ((numbered [] bs).map Piece.render) ∧ (anchors (numbered [] bs)).Nodup := by
  obtain ⟨bs, hbs, h⟩ := bind_eq_ok.1 h
  exact ⟨bs, hbs, (Except.ok.inj h).symm, nodup_anchors (givesPlain_page hitem bs hbs)⟩

/-- Two variables whose names differ in case. -/
def sampleModule : Value :=
  let led : Value := .record [("type", .text "var"), ("doc", .record []), ("value", .null),
    ("readonly", .flag true), ("def", .text "int led;")]
  .record [("doc", .text ""), ("members", .record [("Led", led), ("led", led)])]

theorem anchors_nodup_led : HasPlainNames sampleModule ∧
    ∃ text bs, moduleText [] "board" "" "." sampleModule = .ok text ∧
      page [] "board" "" "." sampleModule = .ok bs ∧
      anchors (numbered [] bs) =
        ["Module", "Enum", "Variable", "Led", "led-2", "Function", "Class"] ∧
      (anchors (numbered [] bs)).Nodup := by
  have hplain : HasPlainNames sampleModule := by
    intro ms h
    obtain rfl := Except.ok.inj h
    simp only [List.forall_mem_cons]
    exact ⟨⟨by simp [IsPlain], nofun⟩, ⟨by simp [IsPlain], nofun⟩, by simp⟩
  have hok : (moduleText [] "board" "" "." sampleModule).isOk = true := by decide +kernel
  have hanchors :
      (page [] "board" "" "." sampleModule).toOption.map (fun bs => anchors (numbered [] bs)) =
        some ["Module", "Enum", "Variable", "Led", "led-2", "Function", "Class"] := by decide +kernel
  cases htext : moduleText [] "board" "" "." sampleModule with
  | error e =>
    rw [htext] at hok
    cases hok
  | ok text =>
    obtain ⟨bs, hbs, -, hnodup⟩ := anchors_nodup hplain htext
    rw [hbs] at hanchors
    exact ⟨hplain, text, bs, rfl, hbs, Option.some.inj hanchors, hnodup⟩

end Buildsmith.Markdown
