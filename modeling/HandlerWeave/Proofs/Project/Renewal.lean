import HandlerWeave.Proofs.Discovery.Listings
import HandlerWeave.Proofs.Project.Purge

/-!
A tree and a later one. Directories have been added where nothing was, and files have come and gone
as scripts right in the outputs only. Every other file is found by each path that led to it.
-/
namespace HandlerWeave.FileTree

open Project (IsScript)

variable {tree before after : FileTree} {o place : Place} {path : String} {followLast : Bool}
  {node : Node}

/-- What stands in a tree is found by the path of its place, if that is not too long. -/
theorem Plain.lookup_path (h : tree.Plain) (hreach : Reachable place)
    (hnode : tree.node? place = some node) :
    tree.lookup followLast (Place.path place) = .ok (.present place node) := by
  cases node with
  | directory => exact lookup_directory hreach (h.passable hnode)
  | link target => exact absurd hnode (h.linkFree _ _)
  | file contents =>
      have hhold : tree.CanHold place := fun _ hother =>
        ⟨_, Option.some.inj (hother.symm.trans hnode)⟩
      obtain rfl | ⟨front, name, rfl⟩ := List.eq_nil_or_concat' place
      · exact absurd rfl hhold.ne_root
      have hdirectory := h.inside front name (by rw [hnode]; rfl)
      rw [lookup_entry hreach (h.passable hdirectory) hhold, Target.at, hnode]

theorem Plain.isFile_path (h : tree.Plain) (hplain : ∀ name ∈ place, PlainName name) :
    tree.isFile (Place.path place) = true ↔
      Reachable place ∧ ∃ contents, tree.node? place = some (.file contents) := by
  rw [Project.isFile_iff]
  constructor
  · rintro ⟨q, contents, hlookup⟩
    obtain rfl : q = place := (Spells.of_path hplain).place_of_lookup h.linkFree hlookup
    exact ⟨.of_lookup h.linkFree hplain hlookup, contents, (lookup_sound hlookup).2⟩
  · rintro ⟨hreach, contents, hnode⟩
    exact ⟨place, contents, h.lookup_path hreach hnode⟩

/-- From the first tree to the second, files have come and gone as scripts in `o` only. The names of
new ones do not start with a point. -/
structure Renews (o : Place) (before after : FileTree) : Prop where
  plain : before.Plain
  plain' : after.Plain
  ways : Ways before after
  directories : ∀ place, after.node? place = some .directory →
    before.node? place = some .directory ∨ before.node? place = none ∧ Reachable place
  kept : ∀ place old, before.node? place = some (.file old) → ¬ IsScript o place →
    ∃ contents, after.node? place = some (.file contents)
  added : ∀ place contents, after.node? place = some (.file contents) →
    (∃ old, before.node? place = some (.file old)) ∨
      before.node? place = none ∧ ∃ name, place = o ++ [name] ∧ name.toList.head? ≠ some '.'

namespace Renews

variable (h : Renews o before after)

include h

/-- A path leads as before to a file that is no script in the outputs. -/
theorem lookup_file {old : ByteArray}
    (hlookup : before.lookup followLast path = .ok (.present place (.file old)))
    (hscript : ¬ IsScript o place) :
    ∃ contents, after.node? place = some (.file contents) ∧
      after.lookup followLast path = .ok (.present place (.file contents)) := by
  obtain ⟨contents, hnode⟩ := h.kept place old (lookup_sound hlookup).2 hscript
  have hafter := lookup_at_of_ways h.ways hlookup fun _ node hother =>
    ⟨contents, Option.some.inj (hother.symm.trans hnode)⟩
  rw [Target.place, Target.at, hnode] at hafter
  exact ⟨contents, hnode, hafter⟩

theorem isDirectory (hdirectory : before.isDirectory path = true) :
    after.isDirectory path = true := by
  unfold FileTree.isDirectory at hdirectory ⊢
  split at hdirectory
  next place hlookup =>
    rw [lookup_of_ways h.ways hlookup (h.ways.directory _ (lookup_sound hlookup).2)]
  · cases hdirectory

/-- What has gone was a script in the outputs. -/
theorem gone (hsome : (before.node? place).isSome) (hnone : after.node? place = none) :
    IsScript o place := by
  obtain ⟨node, hnode⟩ := Option.isSome_iff_exists.1 hsome
  cases node with
  | link target => exact absurd hnode (h.plain.linkFree _ _)
  | directory => cases (h.ways.directory _ hnode).symm.trans hnone
  | file old =>
      by_contra hscript
      obtain ⟨contents, hafter⟩ := h.kept place old hnode hscript
      cases hafter.symm.trans hnone

/-- What has come and is found as a file is in the outputs. -/
theorem new (hnone : before.node? place = none) (hplain : ∀ name ∈ place, PlainName name)
    (hfile : after.isFile (Place.path place) = true) : ∃ name, place = o ++ [name] := by
  obtain ⟨-, contents, hnode⟩ := (h.plain'.isFile_path hplain).1 hfile
  obtain ⟨old, hold⟩ | ⟨-, name, hplace, -⟩ := h.added place contents hnode
  · cases hold.symm.trans hnone
  · exact ⟨name, hplace⟩

/-- What is there before and after is a file in both trees or in none. -/
theorem isFile_path (hsome : (before.node? place).isSome) (hsome' : (after.node? place).isSome) :
    before.isFile (Place.path place) = after.isFile (Place.path place) := by
  have hplain : ∀ name ∈ place, PlainName name := fun name hname =>
    (h.plain.named place hsome name hname).toPlainName
  rw [Bool.eq_iff_iff, h.plain.isFile_path hplain, h.plain'.isFile_path hplain]
  refine and_congr_right fun _ => ⟨?_, ?_⟩
  · rintro ⟨old, hold⟩
    obtain ⟨node, hnode⟩ := Option.isSome_iff_exists.1 hsome'
    cases node with
    | file contents => exact ⟨contents, hnode⟩
    | link target => exact absurd hnode (h.plain'.linkFree _ _)
    | directory =>
        obtain hbefore | ⟨hbefore, -⟩ := h.directories place hnode
        · cases hbefore.symm.trans hold
        · cases hbefore.symm.trans hold
  · rintro ⟨contents, hnode⟩
    obtain hold | ⟨hnone, -⟩ := h.added place contents hnode
    · exact hold
    · rw [hnone] at hsome
      cases hsome

end Renews

end HandlerWeave.FileTree
