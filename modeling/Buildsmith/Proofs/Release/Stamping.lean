import Buildsmith.Proofs.Text.Finding
import Buildsmith.Release.Stamp

/-!
# Stamps are replaced, and say which revision was built

A stamp is looked for between the first start mark and the last end mark, and its text is removed
wherever it occurs.  Where the marks stand once and the text of the old stamp occurs nowhere else,
nothing but the stamp changes (`update_between_marks`).  The description of a revision is taken apart
at its hyphens, those of the tag included (`revision_decoded_iff`).
-/

namespace Buildsmith.Release

open Text Integer

variable {start stop pre body post : String}

/-- Whether the marks of a stamp are found where they are meant to be: no start mark begins before,
and no end mark begins before or ends behind. -/
structure Framed (start stop pre post : String) : Prop where
  first : FollowsFirst start.toList pre.toList
  next : FollowsFirst stop.toList (pre ++ start).toList
  last : FollowsFirst stop.toList.reverse post.toList.reverse

/-- Whether a text occurs only between two others, read from left to right. -/
structure OccursOnce (a body b : String) : Prop where
  before : FollowsFirst body.toList a.toList
  behind : ¬body.toList <:+: b.toList

/-- The stamp is what is between the marks. -/
theorem stamped?_of_framed (h : Framed start stop pre post) (body : String) :
    stamped? start stop (pre ++ start ++ (body ++ stop ++ post)) = some body := by
  simp [stamped?, cut?_append start h.first, cutLast?_append stop h.last]

theorem clearStamp_of_framed (h : Framed start stop pre post)
    (hbody : body = "" ∨ OccursOnce (pre ++ start) body (stop ++ post)) :
    clearStamp start stop (pre ++ start ++ (body ++ stop ++ post)) =
      pre ++ start ++ (stop ++ post) := by
  rw [clearStamp, stamped?_of_framed h]
  rcases hbody with rfl | hbody
  · simp [replace]
  · obtain ⟨x, xs, hcons⟩ := hbody.before.exists_cons
    have hne : body ≠ "" := by
      rintro rfl
      cases hcons
    have hcontent : pre ++ start ++ (body ++ stop ++ post) = pre ++ start ++ body ++ (stop ++ post) := by
      simp only [String.append_assoc]
    rw [hcontent]
    simp [replace_eq_intercalate hne, splitOn_append body hbody.before, splitOn_of_not_infix hbody.behind]

theorem fillStamp_of_framed (h : Framed start stop pre post) (info : String) :
    fillStamp stop info (pre ++ start ++ (stop ++ post)) =
      pre ++ start ++ (info ++ stop ++ post) := by
  have hpost : ¬stop.toList <:+: post.toList := by
    intro hin
    exact h.last (List.reverse_infix.2 hin |>.trans (List.prefix_append _ _).isInfix)
  rw [← String.append_assoc, fillStamp, splitOn_append stop h.next, splitOn_of_not_infix hpost]
  simp [String.append_assoc]

/-- Where the marks of a stamp stand once, and its text occurs nowhere else, only the stamp is
replaced. -/
theorem update_between_marks (f : StampFormat) (info : String)
    (hmarks : Framed f.startMark f.endMark pre post)
    (hbody : body = "" ∨ OccursOnce (pre ++ f.startMark) body (f.endMark ++ post)) :
    clearStamp f.startMark f.endMark (pre ++ f.startMark ++ (body ++ f.endMark ++ post)) =
        pre ++ f.startMark ++ (f.endMark ++ post) ∧
      f.update info (pre ++ f.startMark ++ (body ++ f.endMark ++ post)) =
        pre ++ f.startMark ++ (info ++ f.endMark ++ post) := by
  have hclear := clearStamp_of_framed hmarks hbody
  exact ⟨hclear, by rw [StampFormat.update, hclear, fillStamp_of_framed hmarks]⟩

theorem update_between_marks_makefile :
    StampFormat.makefile.update "\nB=2\n"
        ("A=1\n" ++ StampFormat.makefile.startMark ++
          ("\nB=1\n" ++ StampFormat.makefile.endMark ++ "C=1\n")) =
      "A=1\n" ++ StampFormat.makefile.startMark ++
        ("\nB=2\n" ++ StampFormat.makefile.endMark ++ "C=1\n") :=
  (update_between_marks .makefile _ ⟨by decide, by decide, by decide⟩
    (.inr ⟨by decide, by decide⟩)).2

/-! ## Descriptions of revisions -/

variable {tag hash : String}

/-- The description of a revision: the last tag, the commits since, the commit and whether there are
uncommitted changes. -/
def described (tag : String) (commits : Nat) (hash : String) (isDirty : Bool) : String :=
  tag ++ "-" ++ natText commits ++ "-g" ++ hash ++ if isDirty then "-dirty" else ""

/-- Whether a revision tells a commit, and whether there are changes. -/
def Revision.Tells (r : Revision) (hash : String) (isDirty : Bool) : Prop :=
  r.commit = "g" ++ hash ∧ r.isDirty = isDirty

theorem splitOn_described (tag : String) (commits : Nat) (hhash : '-' ∉ hash.toList)
    (isDirty : Bool) : splitOn (described tag commits hash isDirty) "-" = splitOn tag "-" ++
      ([natText commits, "g" ++ hash] ++ if isDirty then ["dirty"] else []) := by
  have hsep : "-".toList = ['-'] := by decide
  have hnumber : '-' ∉ (natText commits).toList :=
    fun h => absurd (isDigit_of_mem_natText h) (by decide)
  have hcommit : '-' ∉ ("g" ++ hash).toList := by simpa using hhash
  have hparts : described tag commits hash isDirty = tag ++ "-" ++ (natText commits ++ "-" ++
        if isDirty then "g" ++ hash ++ "-" ++ "dirty" else "g" ++ hash) := by
    apply String.toList_injective
    cases isDirty <;> simp [described]
  rw [hparts, splitOn_split hsep, splitOn_split hsep, splitOn_of_not_mem hsep hnumber]
  cases isDirty with
  | false => simp [splitOn_of_not_mem hsep hcommit]
  | true =>
    rw [if_pos rfl, splitOn_split hsep, splitOn_of_not_mem hsep hcommit]
    rfl

theorem exists_splitOn_of_mem (h : '-' ∈ tag.toList) :
    ∃ a b ps, splitOn tag "-" = a :: b :: ps := by
  obtain ⟨a, b, hab⟩ := List.append_of_mem h
  obtain rfl : tag = String.ofList a ++ "-" ++ String.ofList b :=
    String.toList_injective (by simpa using hab)
  rw [splitOn_split (c := '-') rfl]
  obtain ⟨x, xs, hx⟩ := List.exists_cons_of_ne_nil (splitOn_ne_nil (String.ofList a) "-")
  obtain ⟨y, ys, hy⟩ := List.exists_cons_of_ne_nil (splitOn_ne_nil (String.ofList b) "-")
  rw [hx, hy]
  cases xs with
  | nil | cons => exact ⟨_, _, _, rfl⟩

theorem StampFormat.dirtyLine_inj {f : StampFormat} {width : Nat} {a b : String} {d e : Bool}
    (h : a ++ f.dirtyLine width d = b ++ f.dirtyLine width e) : a = b ∧ d = e := by
  cases d <;> cases e
  case false.false | true.true => exact ⟨(String.append_left_inj _).1 h, rfl⟩
  all_goals
    have hends := congrArg (·.toList.reverse) h
    cases f <;> simp [dirtyLine, line] at hends

/-- What is written tells the commit and the changes of a revision. -/
theorem StampFormat.revisionText_eq_iff (f : StampFormat) (r : Revision) (commit : String)
    (isDirty : Bool) : f.revisionText r = f.revisionText { r with commit, isDirty } ↔
      r.commit = commit ∧ r.isDirty = isDirty := by
  constructor
  · intro h
    obtain ⟨hlines, hdirty⟩ := dirtyLine_inj h
    have hline := (String.append_right_inj _).1 hlines
    refine ⟨?_, hdirty⟩
    cases f <;> simpa [line] using hline
  · rintro ⟨rfl, rfl⟩
    rfl

/-- The commit and the changes are told from a description, and written into a stamp of any format,
exactly if the tag has no hyphen, or its third and fourth parts happen to say the same. -/
theorem revision_decoded_iff (tag : String) (commits : Nat) (hhash : '-' ∉ hash.toList)
    (isDirty : Bool) :
    ((Revision.ofDescription (described tag commits hash isDirty)).Tells hash isDirty ↔
      '-' ∉ tag.toList ∨ ((splitOn tag "-")[2]? = some ("g" ++ hash) ∧
        decide ((splitOn tag "-")[3]? = some "dirty") = isDirty)) ∧
    ∀ f : StampFormat, let r := Revision.ofDescription (described tag commits hash isDirty)
      f.revisionText r = f.revisionText { r with commit := "g" ++ hash, isDirty } ↔
        r.Tells hash isDirty := by
  refine ⟨?_, fun f => f.revisionText_eq_iff _ _ _⟩
  rw [Revision.Tells, Revision.ofDescription, splitOn_described tag commits hhash]
  have hdirty : "g" ++ hash ≠ "dirty" := by
    intro h
    simpa using congrArg (·.toList.head?) h
  have hnumber : ∀ x ∈ ["g" ++ hash, "dirty"], natText commits ≠ x := by
    intro x hx h
    have hdigit : ∀ c ∈ x.toList, c.isDigit := fun c hc => isDigit_of_mem_natText (h ▸ hc)
    obtain rfl | rfl : x = "g" ++ hash ∨ x = "dirty" := by simpa using hx
    · exact absurd (hdigit 'g' (by simp)) (by decide)
    · exact absurd (hdigit 'd' (by simp)) (by decide)
  by_cases htag : '-' ∈ tag.toList
  · obtain ⟨a, b, ps, hps⟩ := exists_splitOn_of_mem htag
    rw [hps]
    rcases ps with - | ⟨c, - | ⟨d, ps⟩⟩
    · simp [Revision.ofParts, htag, hnumber]
    · simp [Revision.ofParts, htag, hnumber]
    · simp [Revision.ofParts, htag]
  · rw [splitOn_of_not_mem rfl htag]
    cases isDirty with
    | false => simp [Revision.ofParts, htag, hdirty]
    | true => simp [Revision.ofParts, htag]

theorem revision_decoded_tags : '-' ∉ "abc".toList ∧
    (Revision.ofDescription (described "v1.0" 5 "abc" true)).Tells "abc" true ∧
    ¬(Revision.ofDescription (described "v1.0-rc1" 5 "abc" true)).Tells "abc" true := by
  have hhash : '-' ∉ "abc".toList := by decide
  refine ⟨hhash, (revision_decoded_iff "v1.0" 5 hhash true).1.2 (.inl (by decide)), ?_⟩
  exact mt (revision_decoded_iff "v1.0-rc1" 5 hhash true).1.1 (by decide)

end Buildsmith.Release
