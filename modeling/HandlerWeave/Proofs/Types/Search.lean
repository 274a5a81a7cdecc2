import HandlerWeave.Proofs.Analysis.Modules
import HandlerWeave.Types.Define

/-!
The search for the module that declares a name. Where only files have been loaded its result is
decided by the tree, whatever has been loaded so far, and its bound is never what ends it.
-/
namespace HandlerWeave.Types

open Source Analysis

variable {tree : FileTree} {a b : Analysis}

theorem chainBound_run (tree : FileTree) (a : Analysis) (m : Module) :
    chainBound m tree a = (.ok (total (fun entry => nodeBound entry.2) tree.entries +
      total (fun m => m.declarations.length + 1) (m :: a.modules) + 1), a) := rfl

theorem length_le_total {α : Type} {size : α → Nat} (hsize : ∀ x, 0 < size x) (xs : List α) :
    xs.length ≤ total size xs := by
  induction xs with
  | nil => exact Nat.le_refl 0
  | cons x xs ih =>
      have hx := hsize x
      simp only [List.length_cons, total]
      omega

theorem length_le_chainBound (tree : FileTree) (a : Analysis) (m : Module) :
    ∃ bound, chainBound m tree a = (.ok bound, a) ∧
      tree.entries.length + a.modules.length + 2 ≤ bound := by
  refine ⟨_, chainBound_run tree a m, ?_⟩
  have hbound : ∀ entry : Place × Node, 0 < nodeBound entry.2 := by
    intro entry
    cases entry.2 <;> exact Nat.succ_pos _
  have hfiles := length_le_total hbound tree.entries
  have hmodule : ∀ n : Module, 0 < n.declarations.length + 1 := fun n => Nat.succ_pos _
  have hloaded := length_le_total hmodule a.modules
  simp only [total]
  omega

theorem locate_zero (name : String) (visited : List String) (qualifier : Option String)
    (m : Module) :
    locate name 0 visited qualifier m tree a = (.ok (.missing .importCycle), a) := rfl

theorem locate_succ (name : String) (steps : Nat) (visited : List String)
    (qualifier : Option String) (m : Module) :
    locate name (steps + 1) visited qualifier m tree a =
      if visited.contains m.path then (.ok (.missing .importCycle), a)
      else if qualifier.isNone && (m.declaration? name).isSome then (.ok (.found m), a)
      else match nextImport m qualifier name with
        | .error why => (.ok (.missing why), a)
        | .ok i =>
          match openModule (importedFile tree m.directory i.source) tree a with
          | (.ok next, b) => locate name steps (m.path :: visited) none next tree b
          | (.error e, b) => (.error e, b) := by
  rw [locate]
  split
  · rfl
  split
  · rfl
  cases nextImport m qualifier name with
  | error why => rfl
  | ok i =>
      simp only [AnalysisM.bind_run, AnalysisM.read_run]
      cases openModule (importedFile tree m.directory i.source) tree a with
      | mk outcome b => cases outcome <;> rfl

theorem locate_loads {name : String} {steps : Nat} {visited : List String}
    {qualifier : Option String} {m : Module} {outcome : Except ModuleError SearchResult}
    (h : locate name steps visited qualifier m tree a = (outcome, b)) :
    Loads tree a b ∧ ∀ origin, outcome = .ok (.found origin) →
      (origin = m ∨ origin ∈ b.modules) ∧ (origin.declaration? name).isSome := by
  induction steps generalizing visited qualifier m a with
  | zero =>
      rw [locate_zero] at h
      cases h
      exact ⟨.refl, by simp⟩
  | succ steps ih =>
      rw [locate_succ] at h
      split at h
      · cases h
        exact ⟨.refl, by simp⟩
      split at h
      next hdeclared =>
        cases h
        refine ⟨.refl, ?_⟩
        rintro _ ⟨⟩
        exact ⟨.inl rfl, (Bool.and_eq_true_iff.1 hdeclared).2⟩
      split at h
      · cases h
        exact ⟨.refl, by simp⟩
      split at h
      next next' c hopen =>
        obtain ⟨hload, hmem⟩ := openModule_loads hopen
        obtain ⟨hload', hfound⟩ := ih h
        refine ⟨hload.trans hload', ?_⟩
        intro origin horigin
        obtain ⟨hor, hdeclared⟩ := hfound origin horigin
        refine ⟨.inr ?_, hdeclared⟩
        obtain rfl | hor := hor
        · exact hload'.subset (hmem _ rfl)
        · exact hor
      next e c hopen =>
        cases h
        exact ⟨(openModule_loads hopen).1, by simp⟩

theorem search_loads {name : QualifiedName} {m : Module} {outcome : Except ModuleError SearchResult}
    (h : search name m tree a = (outcome, b)) :
    Loads tree a b ∧ ∀ origin, outcome = .ok (.found origin) →
      (origin = m ∨ origin ∈ b.modules) ∧ (origin.declaration? name.name).isSome := by
  obtain ⟨bound, hbound, -⟩ := length_le_chainBound tree a m
  rw [search, AnalysisM.bind_run_ok tree a hbound] at h
  exact locate_loads h

/-- The search where every module is read afresh. -/
def seek (tree : FileTree) (name : String) :
    Nat → List String → Option String → Module → Except ModuleError SearchResult
  | 0, _, _, _ => .ok (.missing .importCycle)
  | steps + 1, visited, qualifier, m =>
    if visited.contains m.path then .ok (.missing .importCycle)
    else if qualifier.isNone && (m.declaration? name).isSome then .ok (.found m)
    else match nextImport m qualifier name with
      | .error why => .ok (.missing why)
      | .ok i => do
        let next ← tree.module (importedFile tree m.directory i.source)
        seek tree name steps (m.path :: visited) none next

theorem seek_zero (name : String) (visited : List String) (qualifier : Option String)
    (m : Module) :
    seek tree name 0 visited qualifier m = .ok (.missing .importCycle) := rfl

theorem seek_succ (name : String) (steps : Nat) (visited : List String)
    (qualifier : Option String) (m : Module) :
    seek tree name (steps + 1) visited qualifier m =
      if visited.contains m.path then .ok (.missing .importCycle)
      else if qualifier.isNone && (m.declaration? name).isSome then .ok (.found m)
      else match nextImport m qualifier name with
        | .error why => .ok (.missing why)
        | .ok i =>
          match tree.module (importedFile tree m.directory i.source) with
          | .error e => .error e
          | .ok next => seek tree name steps (m.path :: visited) none next := by
  rw [seek]
  split
  · rfl
  split
  · rfl
  cases nextImport m qualifier name with
  | error why => rfl
  | ok i =>
      cases h : tree.module (importedFile tree m.directory i.source) <;> simp only [h] <;> rfl

theorem locate_run (h : Loaded tree a) (name : String) (steps : Nat) (visited : List String)
    (qualifier : Option String) (m : Module) :
    ∃ b, locate name steps visited qualifier m tree a =
      (seek tree name steps visited qualifier m, b) ∧ Loads tree a b := by
  induction steps generalizing visited qualifier m a with
  | zero => exact ⟨a, by rw [locate_zero, seek_zero], .refl⟩
  | succ steps ih =>
      rw [locate_succ, seek_succ]
      split
      · exact ⟨a, rfl, .refl⟩
      split
      · exact ⟨a, rfl, .refl⟩
      cases nextImport m qualifier name with
      | error why => exact ⟨a, rfl, .refl⟩
      | ok i =>
          obtain ⟨c, hopen, hload⟩ := h.openModule (importedFile tree m.directory i.source)
          simp only [hopen]
          cases tree.module (importedFile tree m.directory i.source) with
          | error e => exact ⟨c, rfl, hload⟩
          | ok next =>
              obtain ⟨b, hrun, hload'⟩ := ih (hload.loaded h) (m.path :: visited) none next
              exact ⟨b, hrun, hload.trans hload'⟩

/-- The paths that modules loaded from a tree can have. -/
def modulePaths (tree : FileTree) : List String :=
  Place.path [] :: tree.entries.map fun entry => Place.path entry.1

theorem path_mem_modulePaths {m : Module} (h : m.FromTree tree) : m.path ∈ modulePaths tree := by
  obtain ⟨place, hpath, hplace⟩ := h.standing
  rw [hpath]
  by_cases hroot : place = []
  · subst hroot
    exact List.mem_cons_self
  · obtain ⟨node, hnode⟩ := Option.isSome_iff_exists.1 (hplace.present place List.prefix_rfl)
    have hentry := FileTree.mem_entries_of_node hnode hroot
    exact List.mem_cons_of_mem _ (List.mem_map.2 ⟨(place, node), hentry, rfl⟩)

theorem length_filter_lt {α : Type} {p q : α → Bool} {xs : List α} {x : α} (hx : x ∈ xs)
    (hp : p x = true) (hq : q x = false) (hsub : ∀ y, q y = true → p y = true) :
    (xs.filter q).length < (xs.filter p).length := by
  have hfilter : xs.filter q = (xs.filter p).filter q := by
    rw [List.filter_filter]
    apply List.filter_congr
    intro y _
    cases hy : q y with
    | true => simp [hsub y hy]
    | false => rfl
  rw [hfilter]
  exact List.length_filter_lt_length_iff_exists.2 ⟨x, List.mem_filter.2 ⟨hx, hp⟩, by simp [hq]⟩

def unvisited (paths visited : List String) : List String :=
  paths.filter fun p => !visited.contains p

theorem unvisited_cons_lt {paths visited : List String} {p : String} (hp : p ∈ paths)
    (hnew : visited.contains p = false) :
    (unvisited paths (p :: visited)).length < (unvisited paths visited).length := by
  apply length_filter_lt hp
  · simpa using hnew
  · simp
  · simp_all

/-- Every step visits a new path, so that steps for every path are enough. -/
theorem seek_enough {name : String} {paths : List String} {steps : Nat} {visited : List String}
    {qualifier : Option String} {m : Module} (hpaths : modulePaths tree ⊆ paths)
    (hm : m.path ∈ paths) (hsteps : (unvisited paths visited).length ≤ steps) :
    seek tree name (steps + 1) visited qualifier m = seek tree name steps visited qualifier m := by
  induction steps generalizing visited qualifier m with
  | zero =>
      have hvisited : visited.contains m.path = true := by
        cases hnew : visited.contains m.path with
        | true => rfl
        | false =>
            have hlt := unvisited_cons_lt hm hnew
            omega
      rw [seek_succ, hvisited, if_pos rfl, seek_zero]
  | succ steps ih =>
      rw [seek_succ, seek_succ]
      split
      · rfl
      next hnew =>
        split
        · rfl
        cases nextImport m qualifier name with
        | error why => rfl
        | ok i =>
            cases hnext : tree.module (importedFile tree m.directory i.source) with
            | error e => simp only [hnext]
            | ok next =>
                simp only [hnext]
                have hlt := unvisited_cons_lt hm (Bool.eq_false_iff.2 hnew)
                have hfrom := (FileTree.module_ok hnext).2
                exact ih (hpaths (path_mem_modulePaths hfrom)) (by omega)

theorem seek_add {name : String} {paths : List String} {steps : Nat} {visited : List String}
    {qualifier : Option String} {m : Module} (hpaths : modulePaths tree ⊆ paths)
    (hm : m.path ∈ paths) (hsteps : (unvisited paths visited).length ≤ steps) (more : Nat) :
    seek tree name (steps + more) visited qualifier m =
      seek tree name steps visited qualifier m := by
  induction more with
  | zero => rfl
  | succ more ih =>
      rw [← ih, ← Nat.add_assoc]
      exact seek_enough hpaths hm (by omega)

/-- The module that declares a name mentioned in `m`, as the tree has it. -/
def sought (tree : FileTree) (name : QualifiedName) (m : Module) :
    Except ModuleError SearchResult :=
  seek tree name.name (tree.entries.length + 2) [] name.qualifier m

theorem search_run (h : Loaded tree a) (name : QualifiedName) (m : Module) :
    ∃ b, search name m tree a = (sought tree name m, b) ∧ Loads tree a b := by
  obtain ⟨bound, hbound, hle⟩ := length_le_chainBound tree a m
  obtain ⟨more, rfl⟩ : ∃ more, bound = tree.entries.length + 2 + more :=
    Nat.exists_eq_add_of_le (by omega)
  obtain ⟨b, hrun, hload⟩ := locate_run h name.name (tree.entries.length + 2 + more) []
    name.qualifier m
  refine ⟨b, ?_, hload⟩
  rw [search, AnalysisM.bind_run_ok tree a hbound, hrun, sought]
  congr 1
  refine seek_add (List.subset_cons_self m.path (modulePaths tree)) List.mem_cons_self ?_ more
  exact Nat.le_trans (List.length_filter_le ..) (by simp [modulePaths])

/-- A search finds only modules that declare the name: the module it starts in, or files. -/
theorem seek_found {name : String} {steps : Nat} {visited : List String}
    {qualifier : Option String} {m origin : Module}
    (h : seek tree name steps visited qualifier m = .ok (.found origin)) :
    (origin.declaration? name).isSome ∧ (origin = m ∨ origin.FromTree tree) := by
  induction steps generalizing visited qualifier m with
  | zero => cases h
  | succ steps ih =>
      rw [seek_succ] at h
      split at h
      · cases h
      split at h
      next hdeclared =>
        cases h
        exact ⟨(Bool.and_eq_true_iff.1 hdeclared).2, .inl rfl⟩
      split at h
      · cases h
      split at h
      · cases h
      next next' hnext =>
        obtain ⟨hdeclared, hor⟩ := ih h
        refine ⟨hdeclared, .inr ?_⟩
        obtain rfl | hor := hor
        · exact (FileTree.module_ok hnext).2
        · exact hor

end HandlerWeave.Types
