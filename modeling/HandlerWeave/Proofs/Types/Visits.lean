import HandlerWeave.Proofs.Types.Search

/-!
The modules that a search enters, with no bound on their number. A search from any state enters no
module twice, so it ends; the bound that it is run with only has to be above their number.
-/
namespace HandlerWeave.Types

open Source Analysis

/-- From `m`, where `visited` were entered before, the search enters the modules at `entered`, one
after the other, and comes to a result. -/
inductive Visits (tree : FileTree) (name : String) : List String → Option String → Module →
    Analysis → List String → Except ModuleError SearchResult × Analysis → Prop
  | again {visited qualifier m a} (h : m.path ∈ visited) :
      Visits tree name visited qualifier m a [] (.ok (.missing .importCycle), a)
  | declared {visited m a} (h : m.path ∉ visited) (hd : (m.declaration? name).isSome = true) :
      Visits tree name visited none m a [m.path] (.ok (.found m), a)
  | noImport {visited qualifier m a why} (h : m.path ∉ visited)
      (hd : (qualifier.isNone && (m.declaration? name).isSome) = false)
      (hnext : nextImport m qualifier name = .error why) :
      Visits tree name visited qualifier m a [m.path] (.ok (.missing why), a)
  | notOpened {visited qualifier m a i e b} (h : m.path ∉ visited)
      (hd : (qualifier.isNone && (m.declaration? name).isSome) = false)
      (hnext : nextImport m qualifier name = .ok i)
      (hopen : openModule (importedFile tree m.directory i.source) tree a = (.error e, b)) :
      Visits tree name visited qualifier m a [m.path] (.error e, b)
  | next {visited qualifier m a i n b entered result} (h : m.path ∉ visited)
      (hd : (qualifier.isNone && (m.declaration? name).isSome) = false)
      (hnext : nextImport m qualifier name = .ok i)
      (hopen : openModule (importedFile tree m.directory i.source) tree a = (.ok n, b))
      (hrest : Visits tree name (m.path :: visited) none n b entered result) :
      Visits tree name visited qualifier m a (m.path :: entered) result

variable {tree : FileTree} {name : String} {visited entered : List String}
  {qualifier : Option String} {m : Module} {a : Analysis}

namespace Visits

variable {result : Except ModuleError SearchResult × Analysis}

theorem fresh (h : Visits tree name visited qualifier m a entered result) :
    entered.Nodup ∧ ∀ p ∈ entered, p ∉ visited := by
  induction h with
  | again => exact ⟨List.nodup_nil, by simp⟩
  | declared h | noImport h | notOpened h =>
      exact ⟨(List.pairwise_singleton ..), List.forall_mem_singleton.2 h⟩
  | next h _ _ _ _ ih =>
      obtain ⟨hnodup, hfresh⟩ := ih
      constructor
      · exact List.nodup_cons.2 ⟨fun hmem => hfresh _ hmem List.mem_cons_self, hnodup⟩
      · exact List.forall_mem_cons.2
          ⟨h, fun p hp hvisited => hfresh p hp (List.mem_cons_of_mem _ hvisited)⟩

/-- Run with any bound above the number of modules entered, the search comes to the result. -/
theorem locate_eq (h : Visits tree name visited qualifier m a entered result) {steps : Nat}
    (hsteps : entered.length < steps) : locate name steps visited qualifier m tree a = result := by
  induction h generalizing steps with
  | again h =>
      obtain ⟨steps, rfl⟩ := Nat.exists_eq_succ_of_ne_zero (Nat.ne_of_gt hsteps)
      rw [locate_succ, if_pos (List.contains_iff_mem.2 h)]
  | declared h hd | noImport h hd hnext | notOpened h hd hnext hopen =>
      obtain ⟨steps, rfl⟩ := Nat.exists_eq_succ_of_ne_zero (Nat.ne_of_gt (Nat.zero_lt_of_lt hsteps))
      simp [locate_succ, *]
  | next h hd hnext hopen hrest ih =>
      obtain ⟨steps, rfl⟩ := Nat.exists_eq_succ_of_ne_zero (Nat.ne_of_gt (Nat.zero_lt_of_lt hsteps))
      have htail := ih (Nat.lt_of_succ_lt_succ hsteps)
      simp [locate_succ, *]

theorem unique {entered' : List String} {result' : Except ModuleError SearchResult × Analysis}
    (h : Visits tree name visited qualifier m a entered result)
    (h' : Visits tree name visited qualifier m a entered' result') : result = result' := by
  have hsteps := h.locate_eq (Nat.lt_succ_of_le (Nat.le_add_right entered.length entered'.length))
  have hsteps' := h'.locate_eq (Nat.lt_succ_of_le (Nat.le_add_left entered'.length entered.length))
  exact hsteps.symm.trans hsteps'

/-- On the way modules are only loaded. -/
theorem loads (h : Visits tree name visited qualifier m a entered result) :
    Loads tree a result.2 := by
  induction h with
  | again | declared | noImport => exact .refl
  | notOpened _ _ _ hopen => exact (openModule_loads hopen).1
  | next _ _ _ hopen _ ih => exact (openModule_loads hopen).1.trans ih

end Visits

/-- Every module entered is at a new path, so steps for every path are enough. -/
theorem locate_visits {paths : List String} {steps : Nat} (htree : modulePaths tree ⊆ paths)
    (hmodules : a.modules.map Module.path ⊆ paths) (hm : m.path ∈ paths)
    (hsteps : (unvisited paths visited).length ≤ steps) :
    ∃ entered, Visits tree name visited qualifier m a entered
      (locate name steps visited qualifier m tree a) := by
  induction steps generalizing visited qualifier m a with
  | zero =>
      have hvisited : visited.contains m.path = true := by
        cases hnew : visited.contains m.path with
        | true => rfl
        | false =>
            have hlt := unvisited_cons_lt hm hnew
            omega
      rw [locate_zero]
      exact ⟨[], .again (List.contains_iff_mem.1 hvisited)⟩
  | succ steps ih =>
      rw [locate_succ]
      split
      next hvisited => exact ⟨[], .again (List.contains_iff_mem.1 hvisited)⟩
      next hvisited =>
        have hfresh : m.path ∉ visited := fun hmem => hvisited (List.contains_iff_mem.2 hmem)
        split
        next hdeclared =>
          obtain ⟨hqualifier, hdeclared⟩ := Bool.and_eq_true_iff.1 hdeclared
          cases Option.isNone_iff_eq_none.1 hqualifier
          exact ⟨[m.path], .declared hfresh hdeclared⟩
        next hdeclared =>
          have hdeclared := Bool.eq_false_iff.2 hdeclared
          cases hnext : nextImport m qualifier name with
          | error why => exact ⟨[m.path], .noImport hfresh hdeclared hnext⟩
          | ok i =>
              cases hopen : openModule (importedFile tree m.directory i.source) tree a with
              | mk outcome b =>
                  cases outcome with
                  | error e =>
                      simp only [hopen]
                      exact ⟨[m.path], .notOpened hfresh hdeclared hnext hopen⟩
                  | ok n =>
                      simp only [hopen]
                      obtain ⟨hload, hmem⟩ := openModule_loads hopen
                      have hpaths : b.modules.map Module.path ⊆ paths := by
                        intro p hp
                        obtain ⟨k, hk, rfl⟩ := List.mem_map.1 hp
                        obtain hk | hk := hload.mem hk
                        · exact hmodules (List.mem_map_of_mem hk)
                        · exact htree (path_mem_modulePaths hk)
                      have hlt := unvisited_cons_lt hm (Bool.eq_false_iff.2 hvisited)
                      have hrest : ∃ entered, Visits tree name (m.path :: visited) none n b entered
                          (locate name steps (m.path :: visited) none n tree b) :=
                        ih hpaths (hpaths (List.mem_map_of_mem (hmem n rfl))) (by omega)
                      obtain ⟨entered, hrest⟩ := hrest
                      exact ⟨m.path :: entered, .next hfresh hdeclared hnext hopen hrest⟩

/-- A search from any state ends, and enters no module twice. -/
theorem search_visits (tree : FileTree) (name : QualifiedName) (m : Module) (a : Analysis) :
    ∃ entered, entered.Nodup ∧
      Visits tree name.name [] name.qualifier m a entered (search name m tree a) := by
  let paths := modulePaths tree ++ (m :: a.modules).map Module.path
  have hpaths : paths.length = tree.entries.length + a.modules.length + 2 := by
    simp only [paths, modulePaths, List.length_append, List.length_map, List.length_cons]
    omega
  obtain ⟨bound, hbound, hle⟩ := length_le_chainBound tree a m
  rw [search, AnalysisM.bind_run_ok tree a hbound]
  have hvisits : ∃ entered, Visits tree name.name [] name.qualifier m a entered
      (locate name.name bound [] name.qualifier m tree a) :=
    locate_visits (List.subset_append_left _ _ : _ ⊆ paths)
      (fun p hp => List.mem_append_right _ (List.mem_cons_of_mem _ hp))
      (List.mem_append_right _ List.mem_cons_self)
      (Nat.le_trans (List.length_filter_le ..) (hpaths ▸ hle))
  obtain ⟨entered, hvisits⟩ := hvisits
  exact ⟨entered, hvisits.fresh.1, hvisits⟩

end HandlerWeave.Types
