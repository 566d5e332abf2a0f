import Buildsmith.Proofs.Text.Finding
import Buildsmith.Text.Encoding
import Mathlib.Data.Nat.Digits.Defs

/-!
# Texts of values

A text that has been encoded is decoded again as it was (`decodeFile_encode?`), and a text made of
lines is cut into these lines (`physicalLines_lines`).  A text that is written between double quotes
is read back (`Quoted.literalBody?_quoted`, `Quoted.unescape_escape`).  A decimal number that has
been read can be written (`Integer.isSome_text?_of_parse?`).
-/

namespace Buildsmith.Text

open List

/-! ## Encoding -/

theorem toList_loop (bytes : ByteArray) (i : Nat) (acc : List UInt8) :
    ByteArray.toList.loop bytes i acc = acc.reverse ++ bytes.data.toList.drop i := by
  induction hn : bytes.size - i generalizing i acc with
  | zero =>
    have hge : bytes.data.toList.length ≤ i := by
      have hsize : bytes.data.toList.length = bytes.size := rfl
      omega
    rw [ByteArray.toList.loop, if_neg (by omega), drop_eq_nil_of_le hge, append_nil]
  | succ n ih =>
    have hlt : i < bytes.size := by omega
    have hlt' : i < bytes.data.toList.length := hlt
    rw [ByteArray.toList.loop, ih (i + 1) _ (by omega), drop_eq_getElem_cons hlt']
    simp [ByteArray.get!, hlt]

theorem toList_eq (bytes : ByteArray) : bytes.toList = bytes.data.toList := by
  rw [ByteArray.toList, toList_loop, reverse_nil, nil_append, drop_zero]

variable {bytes : ByteArray} {p : Char → Bool} {cs : List Char} {e : Encoding} {s : String}

theorem decode_encode? (h : encode? e s = some bytes) : decode e bytes = .ok s := by
  have hnarrow : ∀ n ≤ 256, s.toList.all (fun c => c.toNat < n) →
      (s.toList.map fun c => UInt8.ofNat c.toNat).map (fun b => Char.ofNat b.toNat) = s.toList := by
    intro n hn hall
    rw [map_map]
    refine (map_congr_left fun c hc => ?_).trans (map_id' _)
    have hlt : c.toNat < n := of_decide_eq_true (List.all_eq_true.1 hall c hc)
    rw [Function.comp_apply, UInt8.toNat_ofNat_of_lt' (Nat.lt_of_lt_of_le hlt hn), Char.ofNat_toNat]
  cases e with
  | utf8 =>
    cases h
    have hread : String.fromUTF8? s.toUTF8 = some s := dif_pos s.isValidUTF8
    simp only [decode, hread]
  | latin1 =>
    simp only [encode?] at h
    split at h
    · rename_i hall
      cases h
      simp only [decode, toList_eq, hnarrow 256 le_rfl hall, String.ofList_toList]
    · cases h
  | ascii =>
    simp only [encode?] at h
    split at h
    · rename_i hall
      cases h
      have hascii : nonAscii? (s.toList.map fun c => UInt8.ofNat c.toNat) = none := by
        rw [nonAscii?, List.findIdx?_eq_none_iff]
        intro b hb
        obtain ⟨c, hc, rfl⟩ := List.mem_map.1 hb
        have hlt : c.toNat < 128 := of_decide_eq_true (List.all_eq_true.1 hall c hc)
        have hsmall : (UInt8.ofNat c.toNat).toNat < 128 := by
          rwa [UInt8.toNat_ofNat_of_lt' (Nat.lt_trans hlt (by decide))]
        simpa [UInt8.le_iff_toNat_le] using hsmall
      simp only [decode, toList_eq, hascii, hnarrow 128 (by omega) hall, String.ofList_toList]
    · cases h

theorem decodeFile_encode? (h : encode? e s = some bytes) : decodeFile e bytes = ⟨s, none⟩ := by
  rw [decodeFile, decode_encode? h]

/-! ## Lines -/

theorem unifyNewlines_eq_self (h : '\r' ∉ cs) : unifyNewlines cs = cs := by
  induction cs with
  | nil => rfl
  | cons c cs ih =>
    have hc : c ≠ '\r' := fun hc => h (hc ▸ mem_cons_self)
    rw [unifyNewlines, ih fun hcs => h (mem_cons_of_mem _ hcs)]
    · rintro _ rfl
      exact absurd rfl hc
    · exact hc

def linesText (ls : List String) : String := String.join (ls.map (· ++ "\n"))

theorem toList_linesText (ls : List String) :
    (linesText ls).toList = ls.flatMap fun l => l.toList ++ ['\n'] := by
  simp [linesText, flatMap_map]

theorem linesText_append (ls ls' : List String) :
    linesText (ls ++ ls') = linesText ls ++ linesText ls' := by
  apply String.toList_injective
  rw [String.toList_append, toList_linesText, toList_linesText, toList_linesText, flatMap_append]

theorem physicalLinesFrom_append {line l : List Char} (hl : '\n' ∉ l) (cs : List Char) :
    physicalLinesFrom line (l ++ '\n' :: cs) =
      String.ofList (line.reverse ++ l ++ ['\n']) :: physicalLinesFrom [] cs := by
  induction l generalizing line with
  | nil => simp [physicalLinesFrom]
  | cons c l ih =>
    have hc : c ≠ '\n' := fun hc => hl (hc ▸ mem_cons_self)
    rw [cons_append, physicalLinesFrom, if_neg hc, ih fun h => hl (mem_cons_of_mem _ h)]
    simp

theorem physicalLines_linesText {ls : List String} (h : ∀ l ∈ ls, '\n' ∉ l.toList) :
    physicalLines (linesText ls) = ls.map (· ++ "\n") := by
  rw [physicalLines, toList_linesText]
  induction ls with
  | nil => rfl
  | cons l ls ih =>
    rw [flatMap_cons, append_assoc, singleton_append, physicalLinesFrom_append (h l mem_cons_self),
      ih fun l' hl' => h l' (mem_cons_of_mem _ hl')]
    simp [String.ofList_append]

/-! ## Trimming -/

theorem dropEndWhile_concat {c : Char} (hc : p c) (cs : List Char) :
    dropEndWhile p (cs ++ [c]) = dropEndWhile p cs := by
  simp [dropEndWhile, hc]

theorem dropEndWhile_eq_self (h : ∀ c ∈ cs.getLast?, p c = false) : dropEndWhile p cs = cs := by
  rw [dropEndWhile]
  cases hcs : cs.reverse with
  | nil => simpa using hcs.symm
  | cons c rest =>
    have hlast : cs.getLast? = some c := by rw [List.getLast?_eq_head?_reverse, hcs]; rfl
    rw [dropWhile_cons_of_neg (by simp [h c (by simp [hlast])]), ← hcs, reverse_reverse]

theorem trimEnd_line (l : String) : trimEnd (l ++ "\n") = trimEnd l := by
  have hfeed : isBlank '\n' := by decide
  rw [trimEnd, String.toList_append]
  exact congrArg String.ofList (dropEndWhile_concat hfeed _)

theorem trimEnd_eq_self {l : String} (h : ∀ c ∈ l.toList.getLast?, isBlank c = false) :
    trimEnd l = l := by
  rw [trimEnd, dropEndWhile_eq_self h, String.ofList_toList]

/-! ## Quoted text -/

namespace Quoted

variable {c : Char}

theorem escapeChars_cons_special (hc : c = '\\' ∨ c = '"') (cs : List Char) :
    escapeChars (c :: cs) = '\\' :: c :: escapeChars cs := by
  rw [escapeChars, if_pos (by simpa using hc)]

theorem escapeChars_cons_plain (hc : ¬(c = '\\' ∨ c = '"')) (cs : List Char) :
    escapeChars (c :: cs) = c :: escapeChars cs := by
  rw [escapeChars, if_neg (by simpa using hc)]

theorem unescapeChars_cons_plain (hc : c ≠ '\\') (cs : List Char) :
    unescapeChars (c :: cs) = c :: unescapeChars cs := by
  cases cs with
  | nil => rfl
  | cons d cs => simp [unescapeChars, hc]

theorem unescapeChars_escapeChars (cs : List Char) : unescapeChars (escapeChars cs) = cs := by
  induction cs with
  | nil => rfl
  | cons c cs ih =>
    by_cases hc : c = '\\' ∨ c = '"'
    · have hbreak : c ≠ '\n' := by
        rintro rfl
        simp at hc
      rw [escapeChars_cons_special hc]
      simp [unescapeChars, hbreak, ih]
    · have hplain : c ≠ '\\' := fun h => hc (.inl h)
      rw [escapeChars_cons_plain hc, unescapeChars_cons_plain hplain, ih]

/-- What is written between double quotes is read back. -/
theorem unescape_escape (s : String) : unescape (escape s) = s := by
  simp [unescape, escape, unescapeChars_escapeChars]

theorem mem_escapeChars {cs : List Char} (h : c ∈ escapeChars cs) : c = '\\' ∨ c ∈ cs := by
  induction cs with
  | nil => cases h
  | cons d cs ih =>
    by_cases hd : d = '\\' ∨ d = '"'
    · rw [escapeChars_cons_special hd] at h
      grind
    · rw [escapeChars_cons_plain hd] at h
      grind

theorem bodyChars_cons_plain (hc : ¬(c = '\\' ∨ c = '"')) (cs : List Char) :
    bodyChars (c :: cs) = (bodyChars cs).map (c :: ·) := by
  rw [bodyChars.eq_5]
  · rintro rfl
    exact hc (.inr rfl)
  · rintro rfl -
    exact hc (.inl rfl)
  · rintro d ds rfl -
    exact hc (.inl rfl)

theorem bodyChars_escapeChars (cs rest : List Char) :
    bodyChars (escapeChars cs ++ '"' :: rest) = some (escapeChars cs) := by
  induction cs with
  | nil => rfl
  | cons c cs ih =>
    by_cases hc : c = '\\' ∨ c = '"'
    · have hbreak : c ≠ '\n' := by
        rintro rfl
        simp at hc
      rw [escapeChars_cons_special hc]
      simp [bodyChars, hbreak, ih]
    · rw [escapeChars_cons_plain hc, List.cons_append, bodyChars_cons_plain hc, ih]
      rfl

theorem literalBody?_append (s t : String) :
    literalBody? ("\"" ++ escape s ++ "\"" ++ t) = some (escape s) := by
  rw [literalBody?]
  simp [bodyChars_escapeChars, escape]

/-- The contents of a text in double quotes are found. -/
theorem literalBody?_quoted (s : String) :
    literalBody? ("\"" ++ escape s ++ "\"") = some (escape s) := by
  simpa using literalBody?_append s ""

/-- Backslashes are doubled before the double quotes get theirs. -/
theorem escape_eq_replace (s : String) :
    escape s = replace (replace s "\\" "\\\\") "\"" "\\\"" := by
  apply String.toList_injective
  simp only [escape, replace]
  simp [replaceFrom_singleton]
  induction s.toList with
  | nil => rfl
  | cons c cs ih =>
    by_cases hc : c = '\\' ∨ c = '"'
    · rw [escapeChars_cons_special hc]
      obtain rfl | rfl := hc <;> simp [ih]
    · rw [escapeChars_cons_plain hc]
      rw [not_or] at hc
      simp [ih, Ne.symm hc.1, Ne.symm hc.2]

/-- A text that is quoted is found again, whatever follows it. -/
theorem quoted_decodes (s t : String) :
    literalBody? ("\"" ++ escape s ++ "\"" ++ t) = some (escape s) ∧ unescape (escape s) = s ∧
      escape s = replace (replace s "\\" "\\\\") "\"" "\\\"" :=
  ⟨literalBody?_append s t, unescape_escape s, escape_eq_replace s⟩

end Quoted

/-! ## Decimal numbers -/

namespace Integer

variable {cs : List Char} {n : Nat} {s : String}

/-- A text without margins whose digits are plain ones is read as it is. -/
theorem parse?_of_plain (h : ∀ c ∈ s.toList, isMargin c = false ∧ asciiDigit c = c) (base : Nat) :
    parse? base s = readSigned base s.toList := by
  have hfront : s.toList.dropWhile isMargin = s.toList := by
    generalize s.toList = cs at h
    cases cs with
    | nil => rfl
    | cons c cs => rw [dropWhile_cons_of_neg (by simp [h c])]
  rw [parse?, hfront, dropEndWhile_eq_self fun c hc => (h c (mem_of_getLast? hc)).1,
    (map_congr_left fun c hc => (h c hc).2).trans (map_id' _)]

theorem readDigits_lt {value : Nat} (hvalue : value < 10 ^ n) {result count : Nat}
    (h : readDigits 10 value n cs = some (result, count)) : result < 10 ^ count := by
  have hstep : ∀ {value n v : Nat}, value < 10 ^ n → v < 10 → value * 10 + v < 10 ^ (n + 1) := by
    intro value n v hvalue hv
    rw [Nat.pow_succ]
    omega
  fun_induction readDigits 10 value n cs with
  | case1 value n =>
    cases h
    exact hvalue
  | case2 => cases h
  | case3 value n d ds v _ hv ih => exact ih (hstep hvalue hv) h
  | case4 | case5 => cases h
  | case6 value n c cs _ v _ hv ih => exact ih (hstep hvalue hv) h
  | case7 | case8 => cases h

theorem readMagnitude_lt (h : readMagnitude 10 cs = some n) : n < 10 ^ maxDecimalDigits := by
  unfold readMagnitude at h
  split at h
  · cases h
  · split at h
    · cases h
    · split at h
      · rename_i value count hdigits
        have hlt : value < 10 ^ count := readDigits_lt (by simp) hdigits
        simp only [decide_true, Bool.true_and] at h
        split at h
        · cases h
        · rename_i hcount
          have hle : count ≤ maxDecimalDigits := by simpa using hcount
          cases h
          exact lt_of_lt_of_le hlt (Nat.pow_le_pow_right (by norm_num) hle)
      · cases h

theorem readUnsigned_lt (h : readUnsigned 10 cs = some n) : n < 10 ^ maxDecimalDigits := by
  simp only [readUnsigned] at h
  split at h
  · cases ‹10 = 0›
  · split at h
    · split at h <;> exact readMagnitude_lt h
    · exact readMagnitude_lt h

theorem natAbs_lt_of_parse? {n : Int} (h : parse? 10 s = some n) :
    n.natAbs < 10 ^ maxDecimalDigits := by
  unfold parse? at h
  generalize (dropEndWhile isMargin (s.toList.dropWhile isMargin)).map asciiDigit = cs at h
  have hread : ∃ ds k, readUnsigned 10 ds = some k ∧ n.natAbs = k := by
    unfold readSigned at h
    split at h
    · simp only [Option.bind_eq_bind, Option.map_eq_some_iff, Option.bind_eq_some_iff] at h
      obtain ⟨_, ⟨k, hk, ⟨⟩⟩, rfl⟩ := h
      exact ⟨_, k, hk, by simp⟩
    all_goals
      obtain ⟨k, hk, rfl⟩ := Option.map_eq_some_iff.1 h
      exact ⟨_, k, hk, by simp⟩
  obtain ⟨ds, k, hk, hn⟩ := hread
  rw [hn]
  exact readUnsigned_lt hk

/-- A decimal number that has been read can be written. -/
theorem isSome_text?_of_parse? {n : Int} (h : parse? 10 s = some n) : (text? n).isSome := by
  have hlength : (Nat.toDigits 10 n.natAbs).length ≤ maxDecimalDigits :=
    Nat.toDigits_length 10 _ _ (by decide) (natAbs_lt_of_parse? h)
  simp [text?, Nat.not_lt.2 hlength]

end Integer

end Buildsmith.Text
