import Buildsmith.Kconfig.Lexer
import Buildsmith.Proofs.Text.Finding

/-!
# Texts in quotes

A text without dollar signs and backslashes is read by finding the next quote.  The scan that expands
calls and escapes, and then the environment, would give the same text and end at the same place
(`plain_text_read_alike`), so that all texts are read as by the scan (`readText_eq_readExpandedText`).
-/

namespace Buildsmith.Kconfig

open List Text

theorem expandVariablesFrom_of_not_mem {cs : List Char} (h : '$' ∉ cs)
    (value : String → Option String) : expandVariablesFrom value 0 cs = cs := by
  induction cs with
  | nil => rfl
  | cons c cs ih =>
    rw [mem_cons, not_or] at h
    rw [expandVariablesFrom, if_neg (Ne.symm h.1), ih h.2]

theorem expandEnvironment_of_not_mem {s : String} (h : '$' ∉ s.toList) (w : Workspace) :
    expandEnvironment w s = s := by
  have hrelease : ¬"$UNAME_RELEASE".toList <:+: s.toList := fun hin => h (hin.subset (by simp))
  rw [expandEnvironment, replace_eq_intercalate (by decide), splitOn_of_not_infix hrelease,
    String.intercalate_singleton, expandVariables, expandVariablesFrom_of_not_mem h,
    String.ofList_toList]

variable {quote : Char} {cs : List Char}

/-- The scan for calls and escapes, where there are none, finds the next quote. -/
theorem readQuotedText_of_plain (hdollar : '$' ∉ cs) (hslash : '\\' ∉ cs) {fuel : Nat}
    (hfuel : cs.length < fuel) (acc : List Char) :
    readQuotedText quote fuel acc cs = (readPlainText quote cs).elim (fail .unterminatedString)
      fun p => pure (acc.reverse ++ p.1, p.2) := by
  induction cs generalizing fuel acc with
  | nil => cases fuel <;> rfl
  | cons c cs ih =>
    rw [mem_cons, not_or] at hdollar hslash
    obtain ⟨fuel, rfl⟩ := Nat.exists_eq_succ_of_ne_zero (Nat.ne_of_gt (Nat.zero_lt_of_lt hfuel))
    -- a character that starts neither a call nor an escape is taken, unless it is the quote
    have hscan : readQuotedText quote (fuel + 1) acc (c :: cs) =
        if c = quote then pure (acc.reverse, cs) else readQuotedText quote fuel (c :: acc) cs := by
      rw [readQuotedText]
      · rintro rfl
        exact hslash.1 rfl
      · rintro _ rfl
        exact absurd rfl hdollar.1
    rw [hscan, readPlainText, splitFirst]
    by_cases hc : c = quote
    · simp [hc]
    · rw [if_neg hc, ih hdollar.2 hslash.2 (Nat.lt_of_succ_lt_succ hfuel)]
      simp [Ne.symm hc, readPlainText, Option.elim_map, Function.comp_def]

/-- Reads a text with its calls and escapes, then expands the environment in it. -/
def readExpandedText (quote : Char) (cs : List Char) : ReadM (String × List Char) := do
  let p ← readQuotedText quote (cs.length + 1) [] cs
  return (expandEnvironment (← get).workspace (String.ofList p.1), p.2)

theorem readExpandedText_of_plain (hdollar : '$' ∉ cs) (hslash : '\\' ∉ cs) :
    readExpandedText quote cs = (readPlainText quote cs).elim (fail .unterminatedString)
      fun p => pure (String.ofList p.1, p.2) := by
  rw [readExpandedText, readQuotedText_of_plain hdollar hslash (Nat.lt_succ_self _)]
  cases hplain : readPlainText quote cs with
  | none => rfl
  | some p =>
    have hbody : '$' ∉ (String.ofList p.1).toList := by
      rw [(splitFirst_eq_some hplain).1] at hdollar
      simpa using fun h => hdollar (mem_append_left _ h)
    simp only [Option.elim_some, reverse_nil, nil_append, pure_bind,
      expandEnvironment_of_not_mem hbody]
    rfl

/-- Every text is read as by the scan for calls and escapes. -/
theorem readText_eq_readExpandedText (quote : Char) (cs : List Char) :
    readText quote cs = readExpandedText quote cs := by
  rw [readText]
  split
  · rfl
  · rename_i hplain
    obtain ⟨hdollar, hslash⟩ : '$' ∉ cs ∧ '\\' ∉ cs := by simpa using hplain
    rw [readExpandedText_of_plain hdollar hslash]
    cases readPlainText quote cs <;> rfl

theorem singleton_prefix_drop {n : Nat} : [quote] <+: cs.drop n ↔ cs[n]? = some quote := by
  rw [← head?_drop]
  cases cs.drop n <;> simp [cons_prefix_cons, eq_comm]

/-- Behind a quote on a line without dollar signs and backslashes, finding the next quote and the
scan with its expansions give the text up to that quote and the line behind it.  If there is none,
both report an unterminated text. -/
theorem plain_text_read_alike {chars : List Char} (hdollar : '$' ∉ chars) (hslash : '\\' ∉ chars)
    (i : Nat) (quote : Char) :
    readText quote (chars.drop (i + 1)) = readExpandedText quote (chars.drop (i + 1)) ∧
    ((∃ j, i < j ∧ chars[j]? = some quote ∧ (∀ k, i < k → chars[k]? = some quote → j ≤ k) ∧
        readPlainText quote (chars.drop (i + 1)) =
          some ((chars.take j).drop (i + 1), chars.drop (j + 1)) ∧
        readExpandedText quote (chars.drop (i + 1)) =
          pure (String.ofList ((chars.take j).drop (i + 1)), chars.drop (j + 1))) ∨
      (∀ k, i < k → chars[k]? ≠ some quote) ∧ readPlainText quote (chars.drop (i + 1)) = none ∧
        readExpandedText quote (chars.drop (i + 1)) = fail .unterminatedString) := by
  have hexpanded : readExpandedText quote (chars.drop (i + 1)) = _ := readExpandedText_of_plain
    (fun h => hdollar (mem_of_mem_drop h)) fun h => hslash (mem_of_mem_drop h)
  have hstands : ∀ k, i < k → chars[k]? = some quote →
      [quote] <+: (chars.drop (i + 1)).drop (k - (i + 1)) := by
    intro k hk hquote
    rw [singleton_prefix_drop, getElem?_drop, Nat.add_sub_cancel' hk, hquote]
  refine ⟨readText_eq_readExpandedText _ _, ?_⟩
  rw [hexpanded]
  cases hplain : readPlainText quote (chars.drop (i + 1)) with
  | none =>
    refine .inr ⟨fun k hk hquote => ?_, rfl, rfl⟩
    obtain ⟨p, hp⟩ := exists_splitFirst (hstands k hk hquote)
    cases hplain.symm.trans hp
  | some p =>
    obtain ⟨hrest, hclose, hleast⟩ := splitFirst_eq_some hplain
    rw [singleton_prefix_drop, getElem?_drop] at hclose
    have hbody : (chars.take (i + 1 + p.1.length)).drop (i + 1) = p.1 := by
      rw [drop_take, hrest]
      simp
    have hbehind : chars.drop (i + 1 + p.1.length + 1) = p.2 := by
      rw [Nat.add_assoc, ← drop_drop, hrest]
      simp
    refine .inl ⟨i + 1 + p.1.length, by omega, hclose, fun k hk hquote => ?_, ?_⟩
    · have hle := hleast _ (hstands k hk hquote)
      omega
    · rw [hbody, hbehind]
      exact ⟨rfl, rfl⟩

def mixedLine : List Char := "default \"it's\" if X = 'a\"b'".toList

theorem plain_text_read_alike_mixed : '$' ∉ mixedLine ∧ '\\' ∉ mixedLine ∧
    readText '"' (mixedLine.drop 9) = readExpandedText '"' (mixedLine.drop 9) ∧
    readExpandedText '"' (mixedLine.drop 9) = pure ("it's", " if X = 'a\"b'".toList) := by
  have hdollar : '$' ∉ mixedLine := by decide
  have hslash : '\\' ∉ mixedLine := by decide
  have hplain : readPlainText '"' (mixedLine.drop 9) =
      some ("it's".toList, " if X = 'a\"b'".toList) := by decide
  obtain ⟨hsame, ⟨j, -, -, -, hfound, hread⟩ | ⟨-, hnone, -⟩⟩ :=
    plain_text_read_alike hdollar hslash 8 '"'
  · obtain ⟨hbody, hrest⟩ := Prod.mk.inj (Option.some.inj (hfound.symm.trans hplain))
    rw [hbody, hrest, String.ofList_toList] at hread
    exact ⟨hdollar, hslash, hsame, hread⟩
  · cases hplain.symm.trans hnone

end Buildsmith.Kconfig
