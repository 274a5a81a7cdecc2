import HandlerWeave.Proofs.FileTree.Sizes
import HandlerWeave.Proofs.Project.Plans

/-!
What a run builds. It leaves a tree that stands as files do where there are no links, and what it
makes a directory of has a path that the system takes: nothing on the way to an absolute path is
longer than that path.
-/
namespace HandlerWeave

namespace Path

variable {absolute : Bool} {path parent s : String} {rest all : List String}

theorem trimEnd_suffix (absolute : Bool) (all : List String) : trimEnd absolute all <:+ all := by
  induction all with
  | nil => exact List.suffix_rfl
  | cons s rest ih =>
      rw [trimEnd]
      split
      · exact ih.trans (List.suffix_cons s rest)
      · exact List.suffix_rfl

theorem trimEnd_ne_empty (h : trimEnd absolute all = s :: rest) : s ≠ "" := by
  induction all with
  | nil => cases h
  | cons first all ih =>
      rw [trimEnd] at h
      split at h
      · exact ih h
      next hmeaningful =>
        cases h
        exact fun hempty => hmeaningful (.inl hempty)

theorem segments_of_absolute (h : isAbsolute path = true) :
    ∃ rest, segments path = "" :: rest := by
  rw [isAbsolute, beq_iff_eq] at h
  obtain ⟨rest, hrest⟩ := List.head?_eq_some_iff.1 h
  rw [segments, hrest, splitSlash, if_pos rfl]
  exact ⟨_, rfl⟩

/-- The directory of an absolute path has one. -/
theorem isAbsolute_parent (h : isAbsolute path = true) (hparent : parent? path = some parent) :
    isAbsolute parent = true := by
  obtain ⟨rest, hsegments⟩ := segments_of_absolute h
  unfold parent? at hparent
  rw [h] at hparent
  dsimp only at hparent
  split at hparent
  · cases hparent
  next last before htrim =>
  split at hparent
  · cases hparent
    rfl
  next kept hkept =>
  cases hparent
  have hsuffix : trimEnd true before <:+ rest.reverse ++ [""] := by
    have hbefore : before <:+ (segments path).reverse :=
      (List.suffix_cons last before).trans (htrim ▸ trimEnd_suffix true _)
    rw [hsegments, List.reverse_cons] at hbefore
    exact (trimEnd_suffix true before).trans hbefore
  obtain hnil | ⟨names, hnames, -⟩ := List.suffix_concat_iff.1 hsuffix
  · exact absurd hnil hkept
  cases hreverse : names.reverse with
  | nil =>
      rw [List.reverse_eq_nil_iff] at hreverse
      rw [hreverse] at hnames
      exact absurd rfl (trimEnd_ne_empty hnames)
  | cons first more =>
      rw [hnames, List.reverse_concat, hreverse, String.intercalate_cons_cons, isAbsolute]
      simp

end Path

namespace FileTree

theorem isAbsolute_dropSlashes {path : String} (h : Path.isAbsolute path = true) :
    Path.isAbsolute (dropSlashes path) = true := by
  unfold dropSlashes
  split
  · exact h
  next hne =>
    generalize hkept : path.toList.reverse.dropWhile (· == '/') = kept at hne
    obtain ⟨c, cs, hcs⟩ := List.exists_cons_of_ne_nil
      fun hnil => hne (List.reverse_eq_nil_iff.1 hnil)
    have hprefix : kept.reverse <+: path.toList := by
      have hsuffix := List.dropWhile_suffix (l := path.toList.reverse) (· == '/')
      rw [hkept] at hsuffix
      simpa using List.reverse_prefix.2 hsuffix
    rw [hcs] at hprefix ⊢
    obtain ⟨more, hmore⟩ := hprefix
    rw [Path.isAbsolute, ← hmore] at h
    simpa [Path.isAbsolute] using h

/-- An absolute path leads to a place with a path that the system takes. -/
theorem Reachable.of_absolute {tree : FileTree} {path : String} {followLast : Bool}
    {target : Target} (hfree : tree.LinkFree) (habsolute : Path.isAbsolute path = true)
    (h : tree.lookup followLast path = .ok target) : Reachable target.place where
  names := lookup_fileNames hfree h
  size_le := (size_le_of_lookup hfree habsolute h).trans (lookup_iff.1 h).1.2.2

/-- Files still stand as they do where there are no links, and new directories can be reached. -/
def Builds (a b : FileTree) : Prop :=
  a.Plain → b.Plain ∧ ∀ place, b.node? place = some .directory →
    a.node? place = some .directory ∨ Reachable place

instance : IsPreorder FileTree Builds where
  refl _ h := ⟨h, fun _ => .inl⟩
  trans a b c hab hbc ha := by
    obtain ⟨hb, hdirectories⟩ := hab ha
    obtain ⟨hc, hdirectories'⟩ := hbc hb
    refine ⟨hc, fun place hplace => ?_⟩
    obtain hold | hreach := hdirectories' place hplace
    · exact hdirectories place hold
    · exact .inr hreach

namespace Builds

variable {a b : FileTree} {path text : String}

theorem makeDirectory (habsolute : Path.isAbsolute path = true)
    (h : a.makeDirectory path = .ok b) : Builds a b := by
  intro ha
  refine ⟨ha.makeDirectory h, fun place hplace => ?_⟩
  unfold FileTree.makeDirectory add at h
  split at h
  · cases h
  next spot hlookup =>
    cases h
    rw [node?_set] at hplace
    split at hplace
    next heq =>
      rw [heq.1]
      exact .inr (.of_absolute ha.linkFree (isAbsolute_dropSlashes habsolute) hlookup)
    · exact .inl hplace
  · cases h

theorem remove (h : a.remove path = .ok b) : Builds a b := by
  intro ha
  refine ⟨ha.remove h, fun place hplace => ?_⟩
  obtain ⟨spot, node, -, -, rfl⟩ := remove_eq h
  rw [node?_erase] at hplace
  split at hplace
  · cases hplace
  · exact .inl hplace

theorem write (h : a.write path text = .ok b) : Builds a b := by
  intro ha
  refine ⟨ha.write h, fun place hplace => ?_⟩
  obtain ⟨target, -, -, rfl⟩ := write_eq h
  exact .inl (ways_set_file.directory place hplace)

end Builds

end FileTree

namespace Project

open FileTree

/-- A plan with an absolute output builds, whether it can be carried out or not. -/
theorem execute_builds {p : Plan} (habsolute : Path.isAbsolute p.output = true) :
    Respects Builds p.execute := by
  have hmake : Respects Builds (makeOutput p.output) :=
    makeOutput_respects (makeDirectories_respects (P := fun path => Path.isAbsolute path = true)
      Path.isAbsolute_parent .makeDirectory _ habsolute)
  have hwrites : Respects Builds (writes p.output p.artifacts.files) :=
    writes_respects .write _ _
  exact .bind (.bind hmake fun _ => .bind (purge_respects .remove _) fun _ => .bind hwrites fun _ =>
    .pure _) fun _ => change_respects .write

end Project

end HandlerWeave
