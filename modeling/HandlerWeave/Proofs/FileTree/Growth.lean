import HandlerWeave.Proofs.FileTree.Entries
import HandlerWeave.Proofs.FileTree.Programs

/-!
Making directories. All that comes of it are directories where nothing was, whether all of them can
be made or not.
-/
namespace HandlerWeave.FileTree

variable {a b c : FileTree} {place : Place} {path : String}

/-- There are more directories, in places that were free, and nothing else has changed. -/
def Grows (a b : FileTree) : Prop :=
  ∀ place, b.node? place = a.node? place ∨
    a.node? place = none ∧ b.node? place = some .directory ∧ ∀ name ∈ place, PlainName name

instance : IsPreorder FileTree Grows where
  refl _ _ := .inl rfl
  trans a b c hab hbc place := by
    obtain heq | ⟨hnone, hdirectory, hplain⟩ := hbc place
    · rw [heq]
      exact hab place
    · refine .inr ⟨?_, hdirectory, hplain⟩
      obtain heq | ⟨hfree, -⟩ := hab place
      · rw [← heq, hnone]
      · exact hfree

theorem makeDirectory_grows (h : a.makeDirectory path = .ok b) : Grows a b := by
  unfold makeDirectory add at h
  split at h
  · cases h
  next spot hlookup =>
    cases h
    intro place
    rw [node?_set]
    split
    next hplace =>
      rw [hplace.1]
      exact .inr ⟨lookup_sound hlookup, rfl, (lookup_passed hlookup).2⟩
    · exact .inl rfl
  · cases h

theorem makeAll_grows (path : String) : Respects Grows (makeAll path) :=
  makeDirectories_respects (P := fun _ => True) (fun _ _ => trivial)
    (fun _ => makeDirectory_grows) _ trivial

namespace Grows

theorem node (h : Grows a b) {node : Node} (hnode : a.node? place = some node) :
    b.node? place = some node := by
  obtain heq | ⟨hnone, -⟩ := h place
  · rw [heq, hnode]
  · rw [hnone] at hnode
    cases hnode

theorem ways (h : Grows a b) : Ways a b where
  directory _ := h.node
  link _ _ := h.node

/-- What is no directory was there before. -/
theorem old (h : Grows a b) {node : Node} (hnode : b.node? place = some node)
    (hne : node ≠ .directory) : a.node? place = some node := by
  obtain heq | ⟨-, hdirectory, -⟩ := h place
  · rw [← heq, hnode]
  · rw [hdirectory] at hnode
    exact absurd (Option.some.inj hnode).symm hne

theorem linkFree (h : Grows a b) (ha : a.LinkFree) : b.LinkFree := fun place target hnode =>
  ha place target (h.old hnode (by simp))

theorem named (h : Grows a b) (ha : a.Named PlainName) : b.Named PlainName := by
  intro place hplace
  obtain heq | ⟨-, -, hplain⟩ := h place
  · exact ha place (heq ▸ hplace)
  · exact hplain

end Grows

/-- A directory that is there need not be made. -/
theorem makeAll_present {path : String} {place : Place} {node : Node}
    (hplain : tree.lookup false (dropSlashes path) = .ok (.present place node))
    (hpath : tree.lookup true path = .ok (.present place .directory)) :
    makeAll path tree = (.ok (), tree) := by
  have hne : path.isEmpty = false := by simpa using (lookup_iff.1 hpath).1.2.1
  have hadd : tree.makeDirectory path = .error .alreadyExists := by
    rw [makeDirectory, add, hplain]
  have hdirectory : tree.isDirectory path = true := by rw [isDirectory, hpath]
  rw [makeAll, makeDirectories, hne]
  simp only [Bool.false_eq_true, if_false]
  rw [tryCatch_run, Action.change, hadd]
  change Action.unlessDirectory path .alreadyExists tree = _
  rw [Action.unlessDirectory, bind_run]
  change (if !tree.isDirectory path then _ else _ : Action Unit) tree = _
  rw [hdirectory]
  rfl

end HandlerWeave.FileTree
