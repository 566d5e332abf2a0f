import Buildsmith.Proofs.Description.Walk
import Buildsmith.Proofs.Session.Lines

/-!
# What a configuration file tells

The full configuration file is written while the menu is walked: a line for each symbol when it is
met first, and headings between them.  Read as statements, the text tells what the lines of the
symbols tell, in the order of their definitions (`Composes.configText`).
-/

namespace Buildsmith.Kconfig

open Menu List

def Entry.title (e : Entry) : String := (e.prompt.map Prod.fst).getD ""

/-- The title of a menu or a comment fits on a line, and does not begin like the name of a symbol in
a configuration file. -/
def Entry.HasPlainTitle (e : Entry) : Prop :=
  e.subject = .menu ∨ e.subject = .comment →
    '\n' ∉ e.title.toList ∧ '\r' ∉ e.title.toList ∧ ¬"CONFIG_".toList <+: e.title.toList

instance (e : Entry) : Decidable e.HasPlainTitle := by
  unfold Entry.HasPlainTitle
  infer_instance

/-- In the states with a property the lines of symbols are given, and tell what is given; conditions
have values. -/
structure Session.Composes (S : Session) (I : Values → Prop) (line : SymbolId → String)
    (told : SymbolId → List (SymbolId × String)) : Prop where
  standard : S.HasStandardLead
  lines : ∀ i ∈ S.model.uniqueDefined, EvalM.Gives S.model I (configLine "CONFIG_" i) (line i)
  tells : ∀ i ∈ S.model.uniqueDefined, S.Tells (line i) (told i)
  conditions : ∀ e, ∃ x, EvalM.Gives S.model I (exprValue e) x
  titles : ∀ k ∈ S.model.allEntries, (S.model.entry k).HasPlainTitle

/-- What has been written tells what the lines of the symbols tell that have been met. -/
def Draft.Tells (d : Draft) (S : Session) (told : SymbolId → List (SymbolId × String)) : Prop :=
  S.Tells d.text (d.seen.reverse.flatMap told)

def metThrough (met : List SymbolId) (is : List SymbolId) : List SymbolId :=
  is.foldl (fun seen x => if seen.contains x then seen else x :: seen) met

theorem Draft.Tells.add {d : Draft} {S : Session} {told : SymbolId → List (SymbolId × String)}
    (hd : d.Tells S told) {s : String} (hs : S.Tells s []) : (d.add s).Tells S told := by
  have hall := Session.Tells.append hd hs
  rwa [append_nil] at hall

/-- The computation gives a draft that tells what the lines of the symbols tell that are met. -/
def Session.Drafts (S : Session) (I : Values → Prop) (told : SymbolId → List (SymbolId × String))
    (x : EvalM Draft) (met : List SymbolId) : Prop :=
  ∃ d, EvalM.Gives S.model I x d ∧ d.Tells S told ∧ d.seen = met

namespace Session.Drafts

variable {S : Session} {I : Values → Prop} {told : SymbolId → List (SymbolId × String)}
  {met met' : List SymbolId}

theorem pure {d : Draft} (hd : d.Tells S told) : S.Drafts I told (Pure.pure d) d.seen :=
  ⟨d, .pure d, hd, rfl⟩

theorem giving {α : Type} {x : EvalM α} {a : α} (hx : EvalM.Gives S.model I x a)
    {f : α → EvalM Draft} (hf : S.Drafts I told (f a) met) : S.Drafts I told (x >>= f) met := by
  obtain ⟨d, hd, hrest⟩ := hf
  exact ⟨d, hx.bind hd, hrest⟩

theorem read_bind {f : Model → EvalM Draft} (hf : S.Drafts I told (f S.model) met) :
    S.Drafts I told (read >>= f) met :=
  giving (fun v hv => ⟨v, rfl, hv⟩) hf

theorem bind {x : EvalM Draft} {f : Draft → EvalM Draft} (hx : S.Drafts I told x met)
    (hf : ∀ d : Draft, d.Tells S told → d.seen = met → S.Drafts I told (f d) met') :
    S.Drafts I told (x >>= f) met' := by
  obtain ⟨d, hd, htells, hseen⟩ := hx
  exact giving hd (hf d htells hseen)

end Session.Drafts

namespace Session.Composes

variable {S : Session} {I : Values → Prop} {line : SymbolId → String}
  {told : SymbolId → List (SymbolId × String)} {d : Draft} {k : EntryId}
  (h : S.Composes I line told) (hd : d.Tells S told)

section

include h hd

theorem draftLine {i : SymbolId} (hi : i ∈ S.model.uniqueDefined) :
    S.Drafts I told
      (do
        let line ← configLine "CONFIG_" i
        if line.isEmpty then return { d with seen := i :: d.seen }
        let d := if d.afterEnd then
            { Draft.add { d with seen := i :: d.seen } "\n" with afterEnd := false }
          else { d with seen := i :: d.seen }
        return d.add line) (i :: d.seen) := by
  have hall : ∀ text, S.Tells text (d.seen.reverse.flatMap told) →
      S.Tells (text ++ line i) ((i :: d.seen).reverse.flatMap told) := by
    intro text htext
    rw [reverse_cons, flatMap_append, flatMap_singleton]
    exact htext.append (h.tells i hi)
  refine .giving (h.lines i hi) ?_
  by_cases hempty : (line i).isEmpty
  · rw [if_pos hempty]
    have htold := hall d.text hd
    rw [String.isEmpty_iff.1 hempty, String.append_empty] at htold
    exact .pure htold
  · rw [if_neg hempty]
    cases hend : d.afterEnd with
    | false => exact .pure (hall d.text hd)
    | true =>
      have hblank : S.Tells "\n" [] :=
        h.standard.tells_other (l := "") (by decide) (by decide) (by decide) (by decide)
      exact .pure (hall (d.text ++ "\n") (hd.add hblank))

theorem draftHeading (hk : k ∈ S.model.allEntries)
    (hsubject : (S.model.entry k).subject = .menu ∨ (S.model.entry k).subject = .comment)
    (shown : Bool) :
    S.Drafts I told
      (if shown then
        pure { d.add ("\n#\n# " ++ (S.model.entry k).title ++ "\n#\n") with afterEnd := false }
      else pure d) d.seen := by
  obtain ⟨hfeed, hreturn, htitle⟩ := h.titles k hk hsubject
  cases shown with
  | false => exact .pure hd
  | true => exact .pure (hd.add (h.standard.tells_heading hfeed hreturn htitle))

theorem draftEntry (hm : S.model.Loaded) (hk : k ∈ S.model.allEntries) :
    S.Drafts I told (Kconfig.draftEntry "CONFIG_" d k)
      (metThrough d.seen (S.model.symbolsOf [k])) := by
  obtain ⟨dep, hdep⟩ := h.conditions (S.model.entry k).dep
  obtain ⟨vis, hvis⟩ := h.conditions (S.model.entry k).visibility
  have hmet : (S.model.entry k).subject.symbol? = none →
      metThrough d.seen (S.model.symbolsOf [k]) = d.seen :=
    fun hnone => by simp [Model.symbolsOf, hnone, metThrough]
  refine .read_bind ?_
  cases hsubject : (S.model.entry k).subject with
  | symbol i =>
    have hi : i ∈ S.model.uniqueDefined :=
      hm.finished.mem_uniqueDefined.2 (hm.wellFormed.symbolSubjects k i hsubject)
    have hone : S.model.symbolsOf [k] = [i] := by simp [Model.symbolsOf, hsubject, Subject.symbol?]
    rw [hone, metThrough, foldl_cons]
    simp only [hsubject]
    by_cases hseen : d.seen.contains i
    · rw [if_pos hseen, if_pos hseen]
      exact .pure hd
    · rw [if_neg hseen, if_neg hseen]
      exact h.draftLine hd hi
  | menu =>
    rw [hmet (by rw [hsubject]; rfl)]
    simp only [hsubject]
    refine .giving hdep ?_
    split
    · exact .pure hd
    · exact .giving hvis (h.draftHeading hd hk (.inl hsubject) _)
  | comment =>
    rw [hmet (by rw [hsubject]; rfl)]
    simp only [hsubject]
    refine .giving hdep ?_
    split
    · exact .pure hd
    · exact h.draftHeading hd hk (.inr hsubject) true
  | choice c =>
    rw [hmet (by rw [hsubject]; rfl)]
    simp only [hsubject]
    refine .giving hdep ?_
    split <;> exact .pure hd

theorem draftEnd (hk : k ∈ S.model.allEntries) : S.Drafts I told (Kconfig.draftEnd d k) d.seen := by
  refine .read_bind ?_
  by_cases hmenu : (S.model.entry k).subject = .menu
  · obtain ⟨hfeed, hreturn, -⟩ := h.titles k hk (.inl hmenu)
    obtain ⟨dep, hdep⟩ := h.conditions (S.model.entry k).dep
    obtain ⟨vis, hvis⟩ := h.conditions (S.model.entry k).visibility
    simp only [hmenu]
    refine .giving hdep ?_
    split
    · refine .giving hvis ?_
      split
      · exact .pure (hd.add (h.standard.tells_end hfeed hreturn))
      · exact .pure hd
    · exact .pure hd
  · simp only [hmenu]
    exact .pure hd

end

theorem metThrough_append (met is js : List SymbolId) :
    metThrough met (is ++ js) = metThrough (metThrough met is) js :=
  foldl_append

theorem symbolsOf_append (m : Model) (ks ls : List EntryId) :
    m.symbolsOf (ks ++ ls) = m.symbolsOf ks ++ m.symbolsOf ls :=
  filterMap_append

mutual

theorem draft (h : S.Composes I line told) (hm : S.model.Loaded) (x : Menu)
    (hx : ∀ k ∈ x.ids, k ∈ S.model.allEntries) {d : Draft} (hd : d.Tells S told) :
    S.Drafts I told (draft "CONFIG_" d x) (metThrough d.seen (S.model.symbolsOf x.ids)) := by
  match x with
  | .entry k [] =>
    have hk : k ∈ S.model.allEntries := hx k (by simp [ids])
    rw [Menu.draft]
    exact h.draftEntry hd hm hk
  | .entry k (y :: ys) =>
    have hk : k ∈ S.model.allEntries := hx k (by simp [ids])
    rw [Menu.draft]
    · refine (h.draftEntry hd hm hk).bind fun d₁ hd₁ hseen₁ => ?_
      refine (draftAll h hm (y :: ys) (fun j hj => hx j ?_) hd₁).bind fun d₂ hd₂ hseen₂ => ?_
      · rw [ids]
        exact mem_cons_of_mem k hj
      · have hend := h.draftEnd hd₂ hk
        rw [hseen₂, hseen₁, ← metThrough_append, ← symbolsOf_append] at hend
        exact hend
    · exact nofun

theorem draftAll (h : S.Composes I line told) (hm : S.model.Loaded) (xs : List Menu)
    (hxs : ∀ k ∈ idsAll xs, k ∈ S.model.allEntries) {d : Draft} (hd : d.Tells S told) :
    S.Drafts I told (draftAll "CONFIG_" d xs)
      (metThrough d.seen (S.model.symbolsOf (idsAll xs))) := by
  match xs with
  | [] =>
    rw [Menu.draftAll]
    exact .pure hd
  | x :: xs =>
    rw [Menu.draftAll]
    rw [idsAll] at hxs ⊢
    refine (draft h hm x (fun k hk => hxs k (mem_append_left _ hk)) hd).bind
      fun d₁ hd₁ hseen₁ => ?_
    have hrest := draftAll h hm xs (fun k hk => hxs k (mem_append_right _ hk)) hd₁
    rwa [hseen₁, ← metThrough_append, ← symbolsOf_append] at hrest

end

/-- The full configuration file tells what the lines of all defined symbols tell, below a header that
tells nothing. -/
theorem configText (h : S.Composes I line told) (hm : S.model.Loaded)
    (htop : (S.model.entry Model.top).subject = .menu) {header : String}
    (hheader : S.Tells header []) :
    ∃ text, EvalM.Gives S.model I (Kconfig.configText "CONFIG_" header) text ∧
      S.Tells text (S.model.uniqueDefined.flatMap told) := by
  have hstart : Draft.Tells { text := header } S told := hheader
  have hids : idsAll S.model.menu = S.model.allEntries := by
    rw [hm.finished.menu, hm.finished.allEntries_eq]
  obtain ⟨d, hd, htells, hseen⟩ := h.draftAll hm S.model.menu (fun k hk => hids ▸ hk) hstart
  have hmet : d.seen.reverse = S.model.uniqueDefined := by
    rw [hseen, hids, hm.finished.symbolsOf_allEntries htop, hm.finished.uniqueDefined]
    rfl
  rw [Draft.Tells, hmet] at htells
  exact ⟨d.text, .read_bind (hd.bind (.pure _)), htells⟩

end Session.Composes

end Buildsmith.Kconfig
