import Buildsmith.Proofs.FileTree.Writing
import Buildsmith.Proofs.Text.Values
import Buildsmith.Tool.Build

/-!
# Settings survive being saved

Settings are written one a line and read back with their kinds, unless a text holds an equals sign
or a number has more digits than can be written (`saved_settings_load`).
-/

namespace Buildsmith

open List Text.Integer Text

/-! ## Numbers -/

namespace Text.Integer

variable {c : Char} {cs : List Char} {n : Int} {s : String}

theorem digit_cases (h : c.isDigit) : (isMargin c = false ∧ asciiDigit c = c) ∧
    isBlank c = false ∧ c ∉ ['_', '+', '-', 'x', 'X', 'o', 'O', 'b', 'B', '"', 'y', 'n', '='] ∧
    digitValue? c = some (c.toNat - '0'.toNat) ∧ c.toNat - '0'.toNat < 10 := by
  obtain ⟨k, hk, rfl⟩ : ∃ k < 10, c = Char.ofNat (48 + k) := by
    simp only [Char.isDigit, Bool.and_eq_true, decide_eq_true_eq, ge_iff_le] at h
    have hle : 48 ≤ c.toNat ∧ c.toNat ≤ 57 := h
    exact ⟨c.toNat - 48, by omega, by rw [Nat.add_sub_cancel' hle.1, Char.ofNat_toNat]⟩
  revert k
  decide

theorem readDigits_of_digits (hcs : ∀ c ∈ cs, c.isDigit) (v k : Nat) :
    readDigits 10 v k cs = some (Nat.ofDigitChars 10 cs v, k + cs.length) := by
  induction cs generalizing v k with
  | nil => rfl
  | cons c cs ih =>
    rw [forall_mem_cons] at hcs
    obtain ⟨-, -, hc, hvalue, hlt⟩ := digit_cases hcs.1
    unfold readDigits
    rw [if_neg (by simp_all), hvalue, Nat.ofDigitChars_cons, Nat.mul_comm]
    simp only [hlt, if_true, ih hcs.2, length_cons]
    rw [Nat.add_assoc, Nat.add_comm 1]

theorem readUnsigned_of_digits (hcs : ∀ c ∈ cs, c.isDigit) (hne : cs ≠ [])
    (h : cs.length ≤ maxDecimalDigits) : readUnsigned 10 cs = some (Nat.ofDigitChars 10 cs 0) := by
  have hread := readDigits_of_digits hcs 0 0
  have hmark : splitMark cs = none := by
    unfold splitMark
    split <;> simp_all
  cases cs with
  | nil => exact absurd rfl hne
  | cons c cs =>
    have hc : c ≠ '_' := fun hc => by simp_all
    simpa [readUnsigned, hmark, readMagnitude, hc, hread] using h

theorem toList_text (n : Int) :
    (text n).toList = (if n < 0 then ['-'] else []) ++ (natText n.natAbs).toList := by
  unfold text
  split <;> simp

theorem mem_text (h : c ∈ (text n).toList) : (isMargin c = false ∧ asciiDigit c = c) ∧
    isBlank c = false ∧ c ∉ ['"', 'y', 'n', 'x', '='] := by
  obtain rfl | hc : c = '-' ∨ c.isDigit := by
    rw [toList_text] at h
    grind [isDigit_of_mem_natText]
  · decide
  · have hcases := digit_cases hc
    simp_all

theorem text?_eq_some : text? n = some s ↔
    (Nat.toDigits 10 n.natAbs).length ≤ maxDecimalDigits ∧ text n = s := by
  simp [text?]

/-- A number that has been written is read back. -/
theorem parse?_text? (h : text? n = some s) : parse? 10 s = some n := by
  obtain ⟨hlength, rfl⟩ := text?_eq_some.1 h
  have hchars : (natText n.natAbs).toList = Nat.toDigits 10 n.natAbs := String.toList_ofList
  have hdigits : ∀ c ∈ (natText n.natAbs).toList, c.isDigit := fun _ => isDigit_of_mem_natText
  rw [parse?_of_plain fun c hc => (mem_text hc).1, toList_text]
  rw [hchars] at hdigits ⊢
  have hread := readUnsigned_of_digits hdigits Nat.toDigits_ne_nil hlength
  rw [Nat.ofDigitChars_ten_toDigits] at hread
  split
  · rw [singleton_append, readSigned, hread]
    exact congrArg some (show -(n.natAbs : Int) = n by omega)
  · unfold readSigned
    rw [nil_append]
    split
    · simp_all
    · simp_all
    · rw [hread]
      exact congrArg some (Int.natAbs_of_nonneg (by omega))

end Text.Integer

namespace Project

open Data

/-- Whether a text can name a setting, as every identifier can. -/
def IsName (s : String) : Prop := s ≠ "" ∧ ∀ c ∈ s.toList, isBlank c = false ∧ c ≠ '=' ∧ c ≠ '#'

def IsLine (s : String) : Prop := ∀ c ∈ s.toList, c ≠ '\n' ∧ c ≠ '\r'

/-- Whether a value is a truth value, a number or a text without line breaks. -/
def IsSetting : Value → Prop
  | .flag _ | .number _ => True
  | .text s => IsLine s
  | _ => False

structure AreSettings (m : Fields) : Prop where
  nodup : (m.map Prod.fst).Nodup
  fields : ∀ f ∈ m, IsName f.1 ∧ IsSetting f.2

/-- Whether a setting is read back: numbers have at most 4300 digits, texts have no equals sign. -/
def Lasts : Value → Prop
  | .number n => (text? n).isSome
  | .text s => '=' ∉ s.toList
  | _ => True

variable {k t : String} {v : Value} {m acc : Fields}

/-! ## One setting -/

theorem settingValue_of_text? {n : Int} (h : text? n = some t) : settingValue t = .number n := by
  have hparse := parse?_text? h
  obtain ⟨-, rfl⟩ := text?_eq_some.1 h
  have hlead : ∀ (s : String) (c : Char), c ∈ s.toList → c ∈ ['"', 'y', 'n', 'x', '='] →
      startsWith (text n) s = false ∧ text n ≠ s := by
    intro s c hc hin
    constructor
    · rw [Bool.eq_false_iff, startsWith, Ne, isPrefixOf_iff_prefix]
      exact fun hlead => (mem_text (hlead.subset hc)).2.2 hin
    · rintro rfl
      exact (mem_text hc).2.2 hin
  simp [settingValue, hlead "\"" '"', hlead "0x" 'x', hlead "y" 'y', hlead "n" 'n', hparse]

/-- What the text of a setting is like. -/
theorem settingText_eq_ok (hv : IsSetting v) (h : settingText v = .ok t) :
    settingValue t = v ∧ IsLine t ∧ ('=' ∉ t.toList ↔ Lasts v) ∧
      ∃ c, t.toList.getLast? = some c ∧ isBlank c = false := by
  cases v with
  | flag b =>
    cases h
    cases b <;> exact ⟨rfl, by simp [IsLine], by simp [Lasts], _, rfl, rfl⟩
  | number n =>
    cases hn : text? n with
    | none => simp [settingText, hn] at h
    | some s =>
      obtain rfl : s = t := by simpa [settingText, hn] using h
      have hvalue := settingValue_of_text? hn
      obtain ⟨-, rfl⟩ := text?_eq_some.1 hn
      have hne : (text n).toList ≠ [] := by
        simp [toList_text, natText]
      refine ⟨hvalue, fun c hc => ?_, ?_, _, getLast?_eq_some_getLast hne,
        (mem_text (getLast_mem hne)).2.1⟩
      · constructor <;> rintro rfl <;> exact absurd (mem_text hc).2.1 (by decide)
      · simpa [Lasts, hn] using fun hc => (mem_text hc).2.2 (by simp)
  | text s =>
    cases h
    have hvalue : settingValue ("\"" ++ s ++ "\"") = .text s := by
      simp [settingValue, startsWith, endsWith, slice, placeIn]
    have hline : IsLine s := hv
    refine ⟨hvalue, ?_, by simp [Lasts], '"', by simp [getLast?_cons], by decide⟩
    simpa [IsLine, or_imp, forall_and] using hline
  | null | real _ | list _ | record _ => cases hv

theorem isLine_setting (hk : IsName k) (hv : IsSetting v) (h : settingText v = .ok t) :
    IsLine (k ++ "=" ++ t) := by
  intro c hc
  simp only [String.toList_append, mem_append] at hc
  obtain (hc | hc) | hc := hc
  · constructor <;> rintro rfl <;> exact absurd (hk.2 _ hc).1 (by decide)
  · obtain rfl : c = '=' := by simpa using hc
    decide
  · exact (settingText_eq_ok hv h).2.1 c hc

theorem readSettingLines_line (acc : Fields) (hk : IsName k) (hv : IsSetting v)
    (h : settingText v = .ok t) (rest : List String) :
    readSettingLines acc ((k ++ "=" ++ t) :: rest) = if '=' ∈ t.toList then .error (.tooMany 2)
      else readSettingLines (Fields.put k v acc) rest := by
  obtain ⟨hvalue, -, -, c, hc, hblank⟩ := settingText_eq_ok hv h
  obtain ⟨d, ds, hds⟩ := exists_cons_of_ne_nil (l := k.toList) (by simpa using hk.1)
  obtain ⟨hd, -, hhash⟩ := hk.2 d (by simp [hds])
  have htrim : trim (k ++ "=" ++ t) = k ++ "=" ++ t := by
    have hfront : (k ++ "=" ++ t).toList.dropWhile isBlank = (k ++ "=" ++ t).toList := by
      simp [hds, hd]
    rw [trim, hfront, dropEndWhile_eq_self, String.ofList_toList]
    simp [getLast?_cons, hc, hblank]
  have hhead : startsWith (k ++ "=" ++ t) "#" = false := by
    simp [startsWith, isPrefixOf, hds, hhash.symm]
  have hempty : (k ++ "=" ++ t).isEmpty = false := by simp
  have hequals : "=".toList = ['='] := rfl
  have hsplit : splitOn (k ++ "=" ++ t) "=" = k :: splitOn t "=" := by
    rw [splitOn_split hequals, splitOn_of_not_mem hequals fun hin => (hk.2 _ hin).2.1 rfl]
    rfl
  simp only [readSettingLines, htrim, hempty, hhead, Bool.or_self, Bool.false_eq_true, if_false,
    hsplit]
  split_ifs with hin
  · obtain ⟨a, b, hab⟩ := append_of_mem hin
    obtain rfl : t = String.ofList a ++ "=" ++ String.ofList b :=
      String.toList_injective (by simp [hab])
    obtain ⟨x, xs, hx⟩ := exists_cons_of_ne_nil (splitOn_ne_nil (String.ofList a) "=")
    obtain ⟨y, ys, hy⟩ := exists_cons_of_ne_nil (splitOn_ne_nil (String.ofList b) "=")
    rw [splitOn_split hequals, hx, hy]
    simp
  · simp only [splitOn_of_not_mem hequals hin, hvalue]

/-! ## All settings -/

theorem put_of_fresh (h : ∀ g ∈ acc, g.1 ≠ k) : Fields.put k v acc = acc ++ [(k, v)] := by
  induction acc with
  | nil => rfl
  | cons g acc ih =>
    rw [forall_mem_cons] at h
    simp [Fields.put, h.1, ih h.2]

/-- Settings that have been written are read back exactly if each of them is. -/
theorem read_written (hm : ∀ f ∈ m, IsName f.1 ∧ IsSetting f.2)
    (hfault : (writeSettings m).2 = none) (hnodup : ((acc ++ m).map Prod.fst).Nodup) :
    readSettingLines acc (splitOn (writeSettings m).1 "\n") = .ok (acc ++ m) ↔
      ∀ f ∈ m, Lasts f.2 := by
  induction m generalizing acc with
  | nil =>
    have hsplit : splitOn (writeSettings []).1 "\n" = [""] := rfl
    have htrim : trim "" = "" := rfl
    simp [hsplit, readSettingLines, htrim]
  | cons f m ih =>
    obtain ⟨k, v⟩ := f
    obtain ⟨⟨hk, hv⟩, hm⟩ := forall_mem_cons.1 hm
    cases ht : settingText v with
    | error e => simp [writeSettings, ht] at hfault
    | ok t =>
      obtain ⟨-, -, hlasts, -⟩ := settingText_eq_ok hv ht
      have hline := isLine_setting hk hv ht
      have hfresh : ∀ g ∈ acc, g.1 ≠ k := fun g hg heq => by
        rw [map_append, nodup_append] at hnodup
        exact hnodup.2.2 _ (mem_map_of_mem hg) k (by simp) heq
      simp only [writeSettings, ht] at hfault ⊢
      rw [splitOn_split (c := '\n') rfl,
        splitOn_of_not_mem (c := '\n') rfl fun hin => (hline _ hin).1 rfl, singleton_append,
        readSettingLines_line acc hk hv ht, forall_mem_cons, ← hlasts]
      split_ifs with hin
      · simp [hin]
      · rw [append_cons] at hnodup ⊢
        rw [put_of_fresh hfresh, ih hm hfault hnodup]
        simp [hin]

theorem writeSettings_fault (h : ∀ f ∈ m, Lasts f.2) : (writeSettings m).2 = none := by
  induction m with
  | nil => rfl
  | cons f m ih =>
    rw [forall_mem_cons] at h
    obtain ⟨t, ht⟩ : ∃ t, settingText f.2 = .ok t := by
      cases hv : f.2 with
      | number n =>
        rw [hv] at h
        obtain ⟨t, ht⟩ := Option.isSome_iff_exists.1 h.1
        exact ⟨t, by simp [settingText, ht]⟩
      | _ => exact ⟨_, rfl⟩
    simp [writeSettings, ht, ih h.2]

theorem return_not_mem_writeSettings (hm : ∀ f ∈ m, IsName f.1 ∧ IsSetting f.2) :
    '\r' ∉ (writeSettings m).1.toList := by
  induction m with
  | nil => simp [writeSettings]
  | cons f m ih =>
    obtain ⟨⟨hk, hv⟩, hm⟩ := forall_mem_cons.1 hm
    cases ht : settingText f.2 with
    | error e => simp [writeSettings, ht]
    | ok t =>
      simp only [writeSettings, ht]
      rw [String.toList_append, String.toList_append, mem_append, mem_append]
      rintro ((hin | hin) | hin)
      · exact (isLine_setting hk hv ht _ hin).2 rfl
      · simp at hin
      · exact ih hm hin

end Project

namespace Tool

open Data Project Publish
open Kconfig (runFrom runFrom_bind runFrom_bind_ok runFrom_get runFrom_pure runFrom_set)

theorem runFrom_readText {w : Workspace} {path text : String} (h : w.read path = .ok text.toUTF8)
    (hreturn : '\r' ∉ text.toList) : runFrom (readText path) w = (.ok text, w) := by
  have hdecode := decodeFile_encode? (e := .utf8) (s := text) rfl
  simp only [readText, runFrom_bind, runFrom_get, h, hdecode]
  simp [Text.DecodedFile.unified, unifyNewlines_eq_self hreturn]

/-- Settings that are saved are loaded again exactly if no text holds an equals sign and no number
is too long. -/
theorem saved_settings_load {w w' : Workspace} {m : Fields} (hm : AreSettings m)
    (hw : w.write settingsFile (Project.writeSettings m).1.toUTF8 = .ok w') :
    runFrom (storeSettings m) w = (.ok (), w') ∧ runFrom loadSettings w' = (.ok m, w') ↔
      ∀ f ∈ m, Lasts f.2 := by
  have hstore : runFrom (storeSettings m) w = (.ok (), w') ↔ (Project.writeSettings m).2 = none := by
    obtain ⟨files, hfiles, rfl⟩ := Workspace.write_eq_ok_iff.1 hw
    have hwrite : runFrom (writeText settingsFile (Project.writeSettings m).1) w =
        (.ok (), { w with files := files }) := by
      simp only [writeText, onFiles, runFrom_bind, runFrom_get, hfiles, runFrom_set]
    rw [storeSettings, runFrom_bind_ok hwrite]
    cases (Project.writeSettings m).2 <;> simp
  have hload : runFrom loadSettings w' = (.ok m, w') ↔
      readSettings (Project.writeSettings m).1 = .ok m := by
    have hread := Workspace.read_write hw
    obtain ⟨place, hplace, hfile⟩ := FileTree.read_eq_ok_iff.1 hread
    have hcheck : runFrom (pathExists settingsFile) w' = (.ok true, w') := by
      simp only [pathExists, runFrom_bind, runFrom_get, runFrom_pure]
      simp [Workspace.pathExists, FileTree.pathExists, FileTree.find?, hplace, hfile]
    rw [loadSettings, runFrom_bind_ok hcheck]
    simp only [Bool.not_true, Bool.false_eq_true, if_false]
    rw [runFrom_bind_ok (runFrom_readText hread (return_not_mem_writeSettings hm.fields))]
    cases readSettings (Project.writeSettings m).1 <;> simp [onData]
  have hsame (hfault : (Project.writeSettings m).2 = none) :
      readSettings (Project.writeSettings m).1 = .ok m ↔ ∀ f ∈ m, Lasts f.2 :=
    read_written hm.fields hfault hm.nodup
  rw [hstore, hload]
  exact ⟨fun h => (hsame h.1).1 h.2,
    fun h => ⟨writeSettings_fault h, (hsame (writeSettings_fault h)).2 h⟩⟩

theorem saved_settings_load_equation :
    let m : Fields := [("N", .number (-7)), ("K", .text "a=b")]
    AreSettings m ∧ ∃ w',
      Workspace.write {} settingsFile (Project.writeSettings m).1.toUTF8 = .ok w' ∧
      ¬(runFrom (storeSettings m) {} = (.ok (), w') ∧ runFrom loadSettings w' = (.ok m, w')) := by
  intro m
  have hm : AreSettings m := ⟨by decide, by simp [m, IsName, IsSetting, IsLine, isBlank]⟩
  refine ⟨hm, _, rfl, fun h => ?_⟩
  simpa [Lasts] using (saved_settings_load hm rfl).1 h ("K", .text "a=b") (by simp [m])

end Tool

end Buildsmith
