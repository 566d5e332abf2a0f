import Buildsmith.FileTree.Basic
import Buildsmith.Proofs.Session.Preservation
import Buildsmith.Proofs.Text.Finding
import Mathlib.Data.Bool.Basic

/-!
# Reading what was written

A file that has been written is read back with the bytes that were written (`FileTree.read_write`).
Writing makes and removes no directory, so that the path leads to the same place afterwards.
-/

namespace Buildsmith

open String Buildsmith.Path
open Kconfig (bind_eq_ok)

/-! ## The last part of a path -/

namespace Path

structure EndsIn (path name : String) : Prop where
  last : (Text.splitOn path "/").getLast? = some name
  ne_empty : name ≠ ""
  ne_dot : name ≠ "."
  ne_dots : name ≠ ".."

variable {path name dir : String}

theorem components_append_slash (a b : String) :
    components (a ++ "/" ++ b) = components a ++ components b := by
  rw [components, Text.splitOn_split (c := '/') rfl, List.filter_append]
  rfl

/-- What holds no slash is added to the last part of a path. -/
theorem exists_splitOn_append (path : String) : ∃ ps p, ∀ ending : String, '/' ∉ ending.toList →
    Text.splitOn (path ++ ending) "/" = ps ++ [p ++ ending] := by
  obtain ⟨ps, p, hps⟩ := Text.exists_piecesFrom_append '/' [] path.toList
  refine ⟨ps.map ofList, ofList p, fun ending hslash => ?_⟩
  rw [Text.splitOn_singleton (c := '/') rfl, toList_append, hps _ hslash]
  simp

theorem isAbsolute_append (hpath : path ≠ "") (s : String) :
    isAbsolute (path ++ s) = isAbsolute path := by
  have hne : path.toList ≠ [] := by simpa using hpath
  unfold isAbsolute
  rw [toList_append, List.head?_append, Option.or_of_isSome (by simpa using hne)]

namespace EndsIn

theorem path_ne_empty (h : EndsIn path name) : path ≠ "" := by
  rintro rfl
  exact h.ne_empty (Option.some.inj (h.last.symm.trans (by decide)))

theorem exists_components (h : EndsIn path name) : ∃ cs, components path = cs ++ [name] ∧
    ∀ ending : String, '/' ∉ ending.toList → name ++ ending ≠ "." →
      components (path ++ ending) = cs ++ [name ++ ending] := by
  obtain ⟨ps, p, hps⟩ := exists_splitOn_append path
  have hsplit := hps "" (by simp)
  rw [append_empty] at hsplit
  obtain rfl : p = name := by simpa [hsplit] using h.last
  refine ⟨ps.filter fun c => c ≠ "" && c ≠ ".", ?_, fun ending hslash hdot => ?_⟩
  · simp [components, hsplit, h.ne_empty, h.ne_dot]
  · simp [components, hps ending hslash, h.ne_empty, hdot]

theorem append_slash (hslash : '/' ∉ name.toList) (hempty : name ≠ "") (hdot : name ≠ ".")
    (hdots : name ≠ "..") (dir : String) : EndsIn (dir ++ "/" ++ name) name := by
  refine ⟨?_, hempty, hdot, hdots⟩
  rw [Text.splitOn_split (c := '/') rfl, Text.splitOn_of_not_mem rfl hslash]
  simp

end EndsIn

theorem exists_endsIn_append {ending : String} (hslash : '/' ∉ ending.toList) {c : Char}
    (hend : ending.toList.getLast? = some c) (hc : c ≠ '.') (path : String) :
    ∃ name, EndsIn (path ++ ending) (name ++ ending) := by
  obtain ⟨ps, p, hps⟩ := exists_splitOn_append path
  have hne : ∀ s : String, s.toList.getLast? ≠ some c → p ++ ending ≠ s := by
    rintro s hs rfl
    apply hs
    rw [toList_append, List.getLast?_append, hend]
    rfl
  refine ⟨p, by simp [hps ending hslash], hne _ ?_, hne _ ?_, hne _ ?_⟩
  · simp
  · simpa using hc.symm
  · simpa using hc.symm

theorem exists_join (hdir : dir ≠ "") (hname : isAbsolute name = false) :
    ∃ d, join dir name = d ++ "/" ++ name ∧ components d = components dir ∧
      isAbsolute (join dir name) = isAbsolute dir := by
  have hempty : dir.isEmpty = false := by simpa using hdir
  unfold join
  rw [if_neg (by simp [hname]), hempty, Bool.false_or]
  by_cases hslash : (dir.toList.getLast? == some '/')
  · obtain ⟨cs, hcs⟩ := List.getLast?_eq_some_iff.1 (beq_iff_eq.1 hslash)
    have hcut : dir = ofList cs ++ "/" := by
      apply toList_injective
      simp [hcs]
    have hcomponents := components_append_slash (ofList cs) ""
    rw [if_pos hslash]
    refine ⟨ofList cs, by rw [← hcut], ?_, isAbsolute_append hdir name⟩
    rw [append_empty, ← hcut] at hcomponents
    rw [hcomponents]
    exact (List.append_nil _).symm
  · rw [if_neg hslash]
    exact ⟨dir, rfl, rfl, by rw [append_assoc, isAbsolute_append hdir]⟩

end Path

namespace FileTree

variable {t t' : FileTree} {cwd p q place : List String} {e : FileEntry} {path name : String}
  {bytes : ByteArray}

/-! ## Entries -/

theorem map_find?_replace (es : List (List String × FileEntry)) :
    ((es.map fun x => if x.1 == p then (p, e) else x).find? fun x => x.1 == q).map Prod.snd =
      if q = p then (es.find? fun x => x.1 == p).map fun _ => e
      else (es.find? fun x => x.1 == q).map Prod.snd := by
  induction es with
  | nil => simp
  | cons x es ih => grind

theorem get?_put (hp : p ≠ []) : (t.put p e).get? q = if q = p then some e else t.get? q := by
  by_cases hq : q = []
  · simp [get?, hq, hp.symm]
  simp only [get?, put, List.isEmpty_iff, hq, if_false]
  cases hany : t.entries.any fun x => x.1 == p with
  | false =>
    rw [if_neg Bool.false_ne_true, List.find?_append]
    grind
  | true =>
    obtain ⟨x, hx⟩ := Option.isSome_iff_exists.1 ((List.find?_isSome ..).2 (List.any_eq_true.1 hany))
    rw [if_pos rfl, map_find?_replace, hx]
    rfl

theorem ne_nil_of_isDirAt (hp : t.isDirAt p = false) : p ≠ [] := by
  rintro rfl
  cases hp

theorem isDirAt_put (hp : t.isDirAt p = false) (q : List String) :
    (t.put p (.file bytes)).isDirAt q = t.isDirAt q := by
  unfold isDirAt
  rw [get?_put (ne_nil_of_isDirAt hp)]
  split_ifs with hq
  · unfold isDirAt at hp
    rw [hq]
    exact hp.symm
  · rfl

/-- What stood below the source of a move is gone from there. -/
theorem get?_move {src dst : List String} (hsrc : src ≠ []) (hdst : ¬dst <+: q) :
    (t.move src dst).get? q = if src.isPrefixOf q then none else t.get? q := by
  by_cases hq : q = []
  · cases src with
    | nil => exact absurd rfl hsrc
    | cons => simp [get?, hq]
  simp only [get?, move, erase, List.isEmpty_iff, hq, if_false]
  induction t.entries with
  | nil => simp
  | cons x es ih =>
    by_cases hx : dst.isPrefixOf x.1
    · have hne : x.1 ≠ q := fun h => hdst (List.isPrefixOf_iff_prefix.1 (h ▸ hx))
      rw [List.filter_cons_of_neg (by simp [hx]), List.find?_cons_of_neg (by simpa using hne)]
      exact ih
    · have hne : dst ++ x.1.drop src.length ≠ q := fun h => hdst ⟨_, h⟩
      rw [List.filter_cons_of_pos (by simp [hx]), List.map_cons]
      grind

/-! ## Following paths -/

/-- Components lead to the same place as long as the directories stay through which they lead. -/
theorem follow_mono {here cs : List String}
    (h : ∀ q ds, t.isDirAt q → t.follow q ds = .ok place → t'.isDirAt q)
    (hplace : t.follow here cs = .ok place) : t'.follow here cs = .ok place := by
  induction cs generalizing here with
  | nil => exact hplace
  | cons c cs ih =>
    cases hdir : t.isDirAt here with
    | false =>
      rw [follow, hdir] at hplace
      cases hplace
    | true =>
      have hdir' := h here _ hdir hplace
      rw [follow, hdir] at hplace
      rw [follow, hdir']
      split_ifs at hplace ⊢
      · exact ih hplace
      · exact ih hplace

theorem follow_append {here cs : List String} {c : String} (hc : c ≠ "..") :
    t.follow here (cs ++ [c]) = .ok place ↔
      ∃ p, t.follow here cs = .ok p ∧ t.isDirAt p ∧ c.utf8ByteSize ≤ 255 ∧ place = p ++ [c] := by
  induction cs generalizing here with
  | nil =>
    rw [List.nil_append]
    grind [follow]
  | cons d cs ih =>
    rw [List.cons_append, follow, follow]
    split_ifs <;> simp_all

/-- A path does not lead out of what is no directory. -/
theorem prefix_of_follow {here cs : List String} (hq : t.isDirAt q = false) (hhere : q <+: here)
    (h : t.follow here cs = .ok place) : q <+: place := by
  induction cs generalizing here with
  | nil => exact Except.ok.inj h ▸ hhere
  | cons c cs ih =>
    rw [follow] at h
    split_ifs at h with hdir
    · refine ih ?_ h
      obtain ⟨more, rfl⟩ := hhere
      have hmore : more ≠ [] := by
        rintro rfl
        simp [hq] at hdir
      exact ⟨more.dropLast, (List.dropLast_append_of_ne_nil hmore).symm⟩
    · exact ih (hhere.trans (List.prefix_append ..)) h

theorem resolve_eq_ok_iff (hname : Path.EndsIn path name) : t.resolve cwd path = .ok place ↔
      path.toList.contains (Char.ofNat 0) = false ∧
        t.follow (if isAbsolute path then [] else cwd) (components path) = .ok place := by
  have hempty : path.isEmpty = false := by simpa using hname.path_ne_empty
  unfold resolve
  simp only [hname.last, Option.getD_some, hname.ne_empty, hname.ne_dot, hname.ne_dots]
  cases t.follow (if isAbsolute path then [] else cwd) (components path) <;>
    split_ifs <;> simp_all

theorem follow_of_resolve (h : t.resolve cwd path = .ok place) :
    t.follow (if isAbsolute path then [] else cwd) (components path) = .ok place := by
  unfold resolve at h
  dsimp only at h
  generalize (if isAbsolute path then [] else cwd) = start at h ⊢
  cases hfound : t.follow start (components path) with
  | error cause =>
    rw [hfound] at h
    split_ifs at h
  | ok p =>
    rw [hfound] at h
    dsimp only at h
    have hp : p = place := by
      split_ifs at h
      · split at h
        · exact Except.ok.inj h
        · cases h
        · exact Except.ok.inj h
      · split at h
        · exact Except.ok.inj h
        · cases h
        · cases h
      · exact Except.ok.inj h
    rw [hp]

theorem resolve_mono (hdirs : ∀ q, t.isDirAt q → t'.isDirAt q) (hname : Path.EndsIn path name)
    (h : t.resolve cwd path = .ok place) : t'.resolve cwd path = .ok place := by
  obtain ⟨hnul, hfollow⟩ := (resolve_eq_ok_iff hname).1 h
  exact (resolve_eq_ok_iff hname).2 ⟨hnul, follow_mono (fun q _ hq _ => hdirs q hq) hfollow⟩

theorem exists_place_of_resolve (hname : Path.EndsIn path name) (h : t.resolve cwd path = .ok place) :
    ∃ p, place = p ++ [name] ∧ t.isDirAt p := by
  obtain ⟨cs, hcs, -⟩ := hname.exists_components
  have hfollow := follow_of_resolve h
  rw [hcs] at hfollow
  obtain ⟨p, -, hdir, -, hp⟩ := (follow_append hname.ne_dots).1 hfollow
  exact ⟨p, hp, hdir⟩

/-! ## Reading and writing -/

/-- A file is written at a place that is no directory, by a path that ends in a name. -/
theorem write_eq_ok_iff : t.write cwd path bytes = .ok t' ↔
      ∃ place name, Path.EndsIn path name ∧ t.resolve cwd path = .ok place ∧
        t.isDirAt place = false ∧ t' = t.put place (.file bytes) := by
  constructor
  · intro h
    obtain ⟨place, hplace, h⟩ := bind_eq_ok.1 h
    obtain ⟨ps, last, hsplit⟩ := exists_splitOn_append path
    have hlast : (Text.splitOn path "/").getLast? = some last := by
      simpa using congrArg List.getLast? (hsplit "" (by simp))
    have hnamed : last ≠ "" ∧ last ≠ "." ∧ last ≠ ".." := by
      have hresolve := hplace
      simp only [resolve] at hresolve
      grind
    refine ⟨place, last, ⟨hlast, hnamed.1, hnamed.2.1, hnamed.2.2⟩, hplace, ?_⟩
    unfold isDirAt
    split at h <;> grind
  · rintro ⟨place, name, hname, hplace, hdir, rfl⟩
    obtain ⟨p, rfl, hp⟩ := exists_place_of_resolve hname hplace
    unfold isDirAt at hdir
    simp only [write, bind, Except.bind, hname.last, Option.getD_some, hname.ne_empty]
    split at hdir <;> grind

theorem read_eq_ok_iff : t.read cwd path = .ok bytes ↔
      ∃ place, t.resolve cwd path = .ok place ∧ t.get? place = some (.file bytes) := by
  rw [read, bind_eq_ok]
  refine exists_congr fun place => and_congr_right fun _ => ?_
  split <;> simp_all

theorem read_write (h : t.write cwd path bytes = .ok t') : t'.read cwd path = .ok bytes := by
  obtain ⟨place, name, hname, hplace, hdir, rfl⟩ := write_eq_ok_iff.1 h
  refine read_eq_ok_iff.2 ⟨place, ?_, by rw [get?_put (ne_nil_of_isDirAt hdir), if_pos rfl]⟩
  exact resolve_mono (fun q hq => (isDirAt_put hdir q).trans hq) hname hplace

/-- Where a file could be written it can be written once the one that was there is put aside. -/
theorem exists_write_of_rename {t₁ : FileTree} (hwrite : t.write cwd path bytes = .ok t₁)
    (hrename : t.rename cwd path (path ++ ".old") = .ok t') (bytes' : ByteArray) :
    ∃ t₂, t'.write cwd path bytes' = .ok t₂ := by
  obtain ⟨place, name, hname, hplace, hdir, -⟩ := write_eq_ok_iff.1 hwrite
  suffices h : t'.resolve cwd path = .ok place ∧ t'.isDirAt place = false from
    ⟨_, write_eq_ok_iff.2 ⟨place, name, hname, h.1, h.2, rfl⟩⟩
  obtain ⟨hnul, hfollow⟩ := (resolve_eq_ok_iff hname).1 hplace
  obtain ⟨cs, hcs, hold⟩ := hname.exists_components
  have hended : ∀ s : String, s.toList.length ≤ 3 → name ++ ".old" ≠ s := by
    rintro s hs rfl
    simp at hs
  rw [hcs] at hfollow
  obtain ⟨p, hp, hpdir, hsize, rfl⟩ := (follow_append hname.ne_dots).1 hfollow
  obtain ⟨_, hsame, hrename⟩ := bind_eq_ok.1 hrename
  obtain ⟨target, htarget, hrename⟩ := bind_eq_ok.1 hrename
  cases hplace.symm.trans hsame
  have hfollow' := follow_of_resolve htarget
  rw [isAbsolute_append hname.path_ne_empty, hold ".old" (by decide) (hended _ (by decide)),
    follow_append (hended _ (by decide))] at hfollow'
  have hbeyond : ∀ c : String, ¬(p ++ [c]) <+: p := fun c h => absurd h.length_le (by simp)
  have hmoved : t' = t ∨
      t' = t.move (p ++ [name]) (p ++ [name ++ ".old"]) ∧ t.isDirAt (p ++ [name ++ ".old"]) = false := by
    unfold isDirAt at hdir ⊢
    simp only [bind, Except.bind] at hrename
    grind
  rcases hmoved with rfl | ⟨rfl, htdir⟩
  · exact ⟨hplace, hdir⟩
  have hne : ¬(p ++ [name ++ ".old"]) <+: p ++ [name] := by
    intro h
    have heq := h.eq_of_length (by simp)
    have hlength := congrArg (fun l : List String => l.getLast?.map length) heq
    simp at hlength
  have hkept : ∀ q ds, t.isDirAt q → t.follow q ds = .ok p →
      (t.move (p ++ [name]) (p ++ [name ++ ".old"])).isDirAt q := by
    intro q ds hq hds
    have hout : ∀ c, t.isDirAt (p ++ [c]) = false → ¬(p ++ [c]) <+: q :=
      fun c hc hq => hbeyond c (prefix_of_follow hc hq hds)
    rw [isDirAt, get?_move (by simp) (hout _ htdir), if_neg (by simpa using hout _ hdir)]
    exact hq
  refine ⟨(resolve_eq_ok_iff hname).2 ⟨hnul, ?_⟩, ?_⟩
  · rw [hcs]
    exact (follow_append hname.ne_dots).2 ⟨p, follow_mono hkept hp, hkept p [] hpdir rfl, hsize, rfl⟩
  · rw [isDirAt, get?_move (by simp) hne, if_pos (by simp)]

end FileTree

namespace Workspace

variable {w w' : Workspace} {path : String} {bytes : ByteArray}

theorem write_eq_ok_iff : w.write path bytes = .ok w' ↔
      ∃ files, w.files.write w.cwd path bytes = .ok files ∧ w' = { w with files := files } := by
  unfold Workspace.write
  cases w.files.write w.cwd path bytes <;> simp [Except.map, eq_comm]

theorem read_write (h : w.write path bytes = .ok w') : w'.read path = .ok bytes := by
  obtain ⟨files, hfiles, rfl⟩ := write_eq_ok_iff.1 h
  exact FileTree.read_write hfiles

end Workspace

namespace FileTree

variable {t t' : FileTree} {cwd place : List String} {path name : String} {bytes : ByteArray}

/-!
## What is altered

Making directories and writing a file leaves all directories and all other files as they are
(`FileTree.Alters`).  A path that ends in the name of a file leads to the same place as long as no
directory is removed, so that files which are made one after the other can all be found in the end.
-/

/-- Whether directories stay, and files differ at some places only. -/
structure Alters (places : List String → Prop) (t t' : FileTree) : Prop where
  dirs : ∀ q, t.isDirAt q = true → t'.isDirAt q = true
  files : ∀ q, ¬places q → ∀ bytes, t'.get? q = some (.file bytes) ↔ t.get? q = some (.file bytes)

namespace Alters

variable {t'' : FileTree} {places places' : List String → Prop}

theorem refl (places : List String → Prop) (t : FileTree) : Alters places t t :=
  ⟨fun _ h => h, fun _ _ _ => Iff.rfl⟩

theorem trans (h : Alters places t t') (h' : Alters places t' t'') : Alters places t t'' :=
  ⟨fun q hq => h'.dirs q (h.dirs q hq),
    fun q hq bytes => (h'.files q hq bytes).trans (h.files q hq bytes)⟩

theorem mono (h : Alters places t t') (hplaces : ∀ q, places q → places' q) : Alters places' t t' :=
  ⟨h.dirs, fun q hq => h.files q fun hold => hq (hplaces q hold)⟩

theorem put_file (hdir : t.isDirAt place = false) :
    Alters (· = place) t (t.put place (.file bytes)) := by
  refine ⟨fun q hq => (isDirAt_put hdir q).trans hq, fun q hq _ => ?_⟩
  rw [get?_put (ne_nil_of_isDirAt hdir), if_neg hq]

theorem write (h : t.write cwd path bytes = .ok t') :
    ∃ place, t.resolve cwd path = .ok place ∧ Alters (· = place) t t' ∧
      t'.get? place = some (.file bytes) := by
  obtain ⟨place, -, -, hplace, hdir, rfl⟩ := write_eq_ok_iff.1 h
  refine ⟨place, hplace, put_file hdir, ?_⟩
  rw [get?_put (ne_nil_of_isDirAt hdir), if_pos rfl]

theorem makeDir (h : t.makeDir cwd path = .ok t') :
    ∃ place, t.resolve cwd path = .ok place ∧ place ≠ [] ∧ t' = t.put place .directory ∧
      Alters (fun _ => False) t t' := by
  obtain ⟨place, hplace, h⟩ := bind_eq_ok.1 h
  cases hfound : t.get? place with
  | some e =>
    rw [hfound] at h
    cases h
  | none =>
    simp only [hfound] at h
    split_ifs at h
    cases h
    have hne : place ≠ [] := by
      rintro rfl
      cases hfound
    refine ⟨place, hplace, hne, rfl, fun q hq => ?_, fun q _ bytes => ?_⟩
    · unfold isDirAt at hq ⊢
      rw [get?_put hne]
      split_ifs
      · rfl
      · exact hq
    · rw [get?_put hne]
      split_ifs with hq
      · simp [hq, hfound]
      · rfl

theorem read (h : Alters (fun _ => False) t t') (hname : Path.EndsIn path name)
    (hread : t.read cwd path = .ok bytes) : t'.read cwd path = .ok bytes := by
  obtain ⟨place, hplace, hfile⟩ := read_eq_ok_iff.1 hread
  exact read_eq_ok_iff.2
    ⟨place, resolve_mono h.dirs hname hplace, (h.files place not_false _).2 hfile⟩

theorem makeDirsFrom {fuel : Nat} (h : t.makeDirsFrom cwd fuel path = .ok t') :
    Alters (fun _ => False) t t' := by
  induction fuel generalizing path t' with
  | zero => cases h
  | succ fuel ih =>
    rw [FileTree.makeDirsFrom] at h
    dsimp only at h
    generalize (if (baseName path).isEmpty then
      (dirName (dirName path), baseName (dirName path))
      else (dirName path, baseName path)) = parts at h
    have hlast : ∀ t₁ : FileTree, Alters (fun _ => False) t t₁ →
        (if (!parts.1.isEmpty && decide (parts.2 = ".") && t₁.pathExists cwd parts.1) then
          .ok t₁ else t₁.makeDir cwd path) = .ok t' → Alters (fun _ => False) t t' := by
      intro t₁ h₁ h
      split_ifs at h
      · cases h
        exact h₁
      · obtain ⟨_, -, -, -, h₂⟩ := makeDir h
        exact h₁.trans h₂
    split_ifs at h with hparent
    · cases hmade : t.makeDirsFrom cwd fuel parts.1 with
      | ok t₁ =>
        rw [hmade] at h
        exact hlast t₁ (ih hmade) h
      | error f =>
        rw [hmade] at h
        cases f with
        | nulInPath => cases h
        | failed cause p =>
          cases cause with
          | «exists» => exact hlast t (refl _ t) h
          | _ => cases h
    · exact hlast t (refl _ t) h

theorem makeDirs (h : t.makeDirs cwd path = .ok t') : Alters (fun _ => False) t t' :=
  makeDirsFrom h

end Alters

end FileTree

end Buildsmith
