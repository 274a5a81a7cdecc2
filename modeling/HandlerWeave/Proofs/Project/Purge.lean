import HandlerWeave.Proofs.FileTree.Growth
import HandlerWeave.Proofs.Project.Outputs

/-!
Removing the generated files of earlier runs. Nothing goes but what is named as a script directly
inside the output, and where all goes well no path to such a name leads to a file any more.
-/
namespace HandlerWeave.Project

open FileTree

/-- The place of a name directly inside the output that ends as those of generated files do. -/
def IsScript (o place : Place) : Prop :=
  ∃ name, place = o ++ [name] ∧ Path.hasExtension name "ts" = true

/-- Such a place, with a path that is not too long for the system. -/
def Removable (output : String) (o place : Place) : Prop :=
  ∃ name, place = o ++ [name] ∧ Path.hasExtension name "ts" = true ∧
    (Path.join output name).utf8ByteSize ≤ pathLimit

theorem Removable.isScript {output : String} {o place : Place} (h : Removable output o place) :
    IsScript o place := by
  obtain ⟨name, hplace, hextension, -⟩ := h
  exact ⟨name, hplace, hextension⟩

/-- Some scripts are gone, no directory among them, and nothing else has changed. -/
def Cleared (output : String) (o : Place) (a b : FileTree) : Prop :=
  ∀ place, b.node? place = a.node? place ∨
    Removable output o place ∧ a.node? place ≠ some .directory ∧ b.node? place = none

variable {a b c made mid tree after : FileTree} {o place : Place} {output name : String}
  {outcome : Except RunError Unit}

instance : IsPreorder FileTree (Cleared output o) where
  refl _ _ := .inl rfl
  trans a b c hab hbc place := by
    obtain heq | ⟨hplace, hnode, hnone⟩ := hbc place
    · rw [heq]
      exact hab place
    · obtain heq | ⟨-, hnode, -⟩ := hab place
      · exact .inr ⟨hplace, heq ▸ hnode, hnone⟩
      · exact .inr ⟨hplace, hnode, hnone⟩

namespace Cleared

theorem node (h : Cleared output o a b) {node : Node} (hnode : b.node? place = some node) :
    a.node? place = some node := by
  obtain heq | ⟨-, -, hnone⟩ := h place
  · rw [← heq, hnode]
  · rw [hnone] at hnode
    cases hnode

theorem free (h : Cleared output o a b) (hnode : a.node? place = none) :
    b.node? place = none := by
  obtain heq | ⟨-, -, hnone⟩ := h place
  · rw [heq, hnode]
  · exact hnone

theorem kept (h : Cleared output o a b) (hplace : ¬ Removable output o place) :
    b.node? place = a.node? place := (h place).resolve_right fun hgone => hplace hgone.1

theorem directory (h : Cleared output o a b) (hnode : a.node? place = some .directory) :
    b.node? place = some .directory := by
  obtain heq | ⟨-, hne, -⟩ := h place
  · rw [heq, hnode]
  · exact absurd hnode hne

theorem ways (h : Cleared output o a b) : Ways b a where
  directory _ := h.node
  link _ _ := h.node

theorem linkFree (h : Cleared output o a b) (ha : a.LinkFree) : b.LinkFree :=
  fun place target hnode => ha place target (h.node hnode)

theorem ways_of_linkFree (h : Cleared output o a b) (ha : a.LinkFree) : Ways a b where
  directory _ := h.directory
  link place target hnode := absurd hnode (ha place target)

theorem erase (hplace : Removable output o place) (hnode : a.node? place ≠ some .directory) :
    Cleared output o a (a.erase place) := by
  intro other
  rw [node?_erase]
  split
  next heq => exact .inr ⟨heq.1 ▸ hplace, heq.1 ▸ hnode, rfl⟩
  · exact .inl rfl

/-- A path that still leads somewhere led there before. -/
theorem lookup (h : Cleared output o a b) {path : String} {followLast : Bool} {node : Node}
    (hlookup : b.lookup followLast path = .ok (.present place node)) :
    a.lookup followLast path = .ok (.present place node) :=
  lookup_of_ways h.ways hlookup (h.node (lookup_sound hlookup).2)

end Cleared

theorem isFile_iff {path : String} :
    tree.isFile path = true ↔
      ∃ place contents, tree.lookup true path = .ok (.present place (.file contents)) := by
  unfold isFile
  split
  next place contents h => simp [h]
  next h =>
    simp only [Bool.false_eq_true, false_iff, not_exists]
    exact fun place contents heq => h place contents heq

theorem Cleared.isFile (h : Cleared output o a b) {path : String} (hfile : b.isFile path = true) :
    a.isFile path = true := by
  obtain ⟨place, contents, hlookup⟩ := isFile_iff.1 hfile
  exact isFile_iff.2 ⟨place, contents, h.lookup hlookup⟩

/-- The loop over the names in the output. -/
def purgeNames (output : String) (names : List String) : RunM PUnit :=
  forIn names PUnit.unit fun name _ => do
    purgeName output name
    return .yield PUnit.unit

theorem purgeName_run (output name : String) (tree : FileTree) :
    purgeName output name tree =
      if isStale tree output name then
        change (Path.join output name) (·.remove (Path.join output name)) tree
      else (.ok (), tree) := by
  rw [purgeName, bind_run]
  change (if isStale tree output name then _ else _ : RunM Unit) tree = _
  split <;> rfl

section

variable (hout : made.lookup true output = .ok (.present o .directory))

include hout

theorem output_ne_empty : output ≠ "" := (lookup_iff.1 hout).1.2.1

/-- The path of a name in the output leads to that name in the output, whatever has been removed. -/
theorem Cleared.lookup_join (h : Cleared output o made mid) (hname : PlainName name)
    {followLast : Bool} {target : Target}
    (hlookup : mid.lookup followLast (Path.join output name) = .ok target) :
    mid.lookup true output = .ok (.present o .directory) ∧
      (target.place = o ++ [name] ∨
        followLast = true ∧ ∃ link, mid.node? (o ++ [name]) = some (.link link)) := by
  obtain ⟨o', hout', hplace⟩ := FileTree.lookup_join hname (output_ne_empty hout) hlookup
  have heq := (h.lookup hout').symm.trans hout
  cases heq
  exact ⟨hout', hplace⟩

theorem Cleared.isFile_join (h : Cleared output o made mid) (hname : PlainName name)
    (hnone : mid.node? (o ++ [name]) = none) : mid.isFile (Path.join output name) = false := by
  rw [Bool.eq_false_iff]
  intro hfile
  obtain ⟨place, contents, hlookup⟩ := isFile_iff.1 hfile
  obtain ⟨-, hplace | ⟨-, link, hlink⟩⟩ := h.lookup_join hout hname hlookup
  · have hnode := (lookup_sound hlookup).2
    rw [Target.place] at hplace
    rw [hplace, hnone] at hnode
    cases hnode
  · rw [hnone] at hlink
    cases hlink

/-- A file to be removed goes, and what is not removed is none or has another ending. -/
theorem purgeName_clears (h : Cleared output o made mid) (hname : PlainName name)
    (hrun : purgeName output name mid = (outcome, after)) :
    Cleared output o mid after ∧ (outcome = .ok () → Path.hasExtension name "ts" = true →
      after.isFile (Path.join output name) = false) := by
  rw [purgeName_run] at hrun
  split at hrun
  next hstale =>
    simp only [isStale, Bool.and_eq_true] at hstale
    unfold change at hrun
    split at hrun
    next removed hremove =>
      cases hrun
      obtain ⟨place, node, hlookup, hne, rfl⟩ := remove_eq hremove
      obtain ⟨-, hplace | ⟨hfollow, -⟩⟩ := h.lookup_join hout hname hlookup
      · have hplace : place = o ++ [name] := hplace
        have hnode : mid.node? place ≠ some .directory := by
          rw [(lookup_sound hlookup).2]
          exact fun heq => hne (Option.some.inj heq)
        have hclears : Cleared output o mid (mid.erase place) :=
          .erase ⟨name, hplace, hstale.2, (lookup_iff.1 hlookup).1.2.2⟩ hnode
        refine ⟨hclears, fun _ _ => (trans_of _ h hclears).isFile_join hout hname ?_⟩
        rw [node?_erase, if_pos ⟨hplace.symm, by simp⟩]
      · cases hfollow
    · cases hrun
      exact ⟨refl_of _ _, nofun⟩
  next hstale =>
    cases hrun
    refine ⟨refl_of _ _, fun _ hextension => ?_⟩
    simpa [isStale, hextension] using hstale

theorem purgeNames_clears {names : List String} (h : Cleared output o made mid)
    (hnames : ∀ name ∈ names, PlainName name) {outcome : Except RunError PUnit}
    (hrun : purgeNames output names mid = (outcome, after)) :
    Cleared output o mid after ∧ (outcome = .ok PUnit.unit → ∀ name ∈ names,
      Path.hasExtension name "ts" = true → after.isFile (Path.join output name) = false) := by
  induction names generalizing mid with
  | nil =>
      cases hrun
      exact ⟨refl_of _ _, by simp⟩
  | cons name names ih =>
      obtain ⟨hname, hnames⟩ := List.forall_mem_cons.1 hnames
      rw [purgeNames, List.forIn_cons] at hrun
      obtain ⟨e, hfirst, rfl⟩ | ⟨step, next, hfirst, hrun⟩ := bind_cases hrun
      case inl =>
        obtain ⟨_, hname', _⟩ | ⟨_, _, _, hyield⟩ := bind_cases hfirst
        · exact ⟨(purgeName_clears hout h hname hname').1, nofun⟩
        · cases hyield
      case inr =>
        obtain ⟨_, _, heq⟩ | ⟨_, _, hname', hyield⟩ := bind_cases hfirst
        · cases heq
        cases hyield
        obtain ⟨hclears, hgone⟩ := purgeName_clears hout h hname hname'
        obtain ⟨hlater, hrest⟩ := ih (trans_of _ h hclears) hnames hrun
        refine ⟨trans_of _ hclears hlater, fun hok => ?_⟩
        refine List.forall_mem_cons.2 ⟨fun hextension => ?_, hrest hok⟩
        rw [Bool.eq_false_iff]
        intro hfile
        rw [hlater.isFile hfile] at hgone
        cases hgone rfl hextension

theorem purge_run :
    purge output made = (purgeNames output (made.names o) >>= fun _ => pure ()) made := by
  have hlist : made.list output = .ok (made.names o) := by
    simp [FileTree.list, hout]
  rw [purge, bind_run]
  change (liftM (listOutput made output) >>= _ : RunM Unit) made = _
  rw [bind_run, listOutput, hlist]
  rfl

/-- After the purge no path to a script in the output leads to a file. -/
theorem purge_clears (hnamed : made.Named PlainName)
    (hrun : purge output made = (outcome, after)) :
    Cleared output o made after ∧ (outcome = .ok () → ∀ name, PlainName name →
      Path.hasExtension name "ts" = true → after.isFile (Path.join output name) = false) := by
  have hplain : ∀ name ∈ made.names o, PlainName name := fun name hname =>
    hnamed _ (mem_names.1 hname) name (by simp)
  rw [purge_run hout] at hrun
  obtain ⟨e, hnames, rfl⟩ | ⟨_, next, hnames, hrun⟩ := bind_cases hrun
  case inl => exact ⟨(purgeNames_clears hout (refl_of _ _) hplain hnames).1, nofun⟩
  case inr =>
    cases hrun
    obtain ⟨hclears, hgone⟩ := purgeNames_clears hout (refl_of _ _) hplain hnames
    refine ⟨hclears, fun _ name hname hextension => ?_⟩
    by_cases hmem : name ∈ made.names o
    · exact hgone rfl name hmem hextension
    · refine hclears.isFile_join hout hname (hclears.free ?_)
      simpa [mem_names] using hmem

end

/-- Where the output is no directory nothing is removed. -/
theorem purge_nothing (hno : ∀ o, made.lookup true output ≠ .ok (.present o .directory))
    (hrun : purge output made = (outcome, after)) : after = made ∧ outcome ≠ .ok () := by
  have hlist : ∃ cause, made.list output = .error cause := by
    unfold FileTree.list
    split
    next h => exact absurd h (hno _)
    all_goals exact ⟨_, rfl⟩
  obtain ⟨cause, hlist⟩ := hlist
  rw [purge, bind_run] at hrun
  change (liftM (listOutput made output) >>= _ : RunM Unit) made = _ at hrun
  rw [bind_run, listOutput, hlist] at hrun
  cases hrun
  exact ⟨rfl, nofun⟩

end HandlerWeave.Project
