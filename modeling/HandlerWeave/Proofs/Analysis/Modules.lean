import HandlerWeave.Proofs.Analysis.Run
import HandlerWeave.Proofs.FileTree.Places
import HandlerWeave.Proofs.Source.Size

/-!
Loading modules. A module is parsed from a file of the tree once and kept; as long as nothing but
files has been loaded, what is kept is what a fresh look at the tree would give.
-/
namespace HandlerWeave

variable {tree : FileTree} {a b c : Analysis}

/-- The module in the file at `path`, read afresh. -/
def FileTree.module (tree : FileTree) (path : String) : Except ModuleError Module :=
  match tree.canonicalize path with
  | .error e => .error (.unreadable path e)
  | .ok key =>
    match tree.read key with
    | .error e => .error (.unreadable key e)
    | .ok text =>
      match Source.parse text with
      | .error e => .error (.invalid key (e.position text) e)
      | .ok items => .ok (Module.ofItems key items)

/-- The module is what its file in the tree holds. -/
structure Module.FromTree (tree : FileTree) (m : Module) : Prop where
  standing : ∃ place, m.path = Place.path place ∧ tree.Standing place
  parsed : ∃ text items, tree.read m.path = .ok text ∧ Source.parse text = .ok items ∧
    m = Module.ofItems m.path items

theorem FileTree.module_ok {path : String} {m : Module} (h : tree.module path = .ok m) :
    tree.canonicalize path = .ok m.path ∧ m.FromTree tree := by
  unfold FileTree.module at h
  split at h
  · cases h
  next key hkey =>
    split at h
    · cases h
    next text htext =>
      split at h
      · cases h
      next items hitems =>
        cases h
        exact ⟨hkey, FileTree.canonicalize_sound hkey, text, items, htext, hitems, rfl⟩

theorem FileTree.module_eq {path : String} {m : Module} (hkey : tree.canonicalize path = .ok m.path)
    (h : m.FromTree tree) : tree.module path = .ok m := by
  obtain ⟨text, items, htext, hitems, hm⟩ := h.parsed
  simp only [FileTree.module, hkey, htext, hitems]
  exact congrArg _ hm.symm

theorem Module.FromTree.eq_of_path {m n : Module} (hm : m.FromTree tree) (hn : n.FromTree tree)
    (h : m.path = n.path) : m = n := by
  obtain ⟨text, items, htext, hitems, hm⟩ := hm.parsed
  obtain ⟨text', items', htext', hitems', hn⟩ := hn.parsed
  rw [h, htext'] at htext
  cases htext
  rw [hitems'] at hitems
  cases hitems
  rw [hm, hn, h]

theorem Module.FromTree.declarations_length {m : Module} (h : m.FromTree tree) :
    ∃ place contents text items, (place, Node.file contents) ∈ tree.entries ∧
      String.fromUTF8? contents = some text ∧ Source.parse text = .ok items ∧
      m.declarations = items.filterMap Declaration.ofItem? := by
  obtain ⟨text, items, htext, hitems, hm⟩ := h.parsed
  obtain ⟨place, contents, hmem, hcontents⟩ := FileTree.read_sound htext
  exact ⟨place, contents, text, items, hmem, hcontents, hitems, by rw [hm]; rfl⟩

namespace Analysis

/-- From `a` to `b` nothing has happened but that files were loaded. -/
def Loads (tree : FileTree) (a b : Analysis) : Prop :=
  ∃ new, b = { a with modules := a.modules ++ new } ∧ ∀ m ∈ new, m.FromTree tree

theorem Loads.refl : Loads tree a a := ⟨[], by simp, by simp⟩

theorem Loads.trans (hab : Loads tree a b) (hbc : Loads tree b c) : Loads tree a c := by
  obtain ⟨xs, rfl, hxs⟩ := hab
  obtain ⟨ys, rfl, hys⟩ := hbc
  refine ⟨xs ++ ys, by simp, ?_⟩
  intro m hm
  cases List.mem_append.1 hm with
  | inl hm => exact hxs m hm
  | inr hm => exact hys m hm

theorem Loads.types (h : Loads tree a b) : b.types = a.types := by
  obtain ⟨new, rfl, -⟩ := h
  rfl

theorem Loads.handlers (h : Loads tree a b) : b.handlers = a.handlers := by
  obtain ⟨new, rfl, -⟩ := h
  rfl

theorem Loads.diagnostics (h : Loads tree a b) : b.diagnostics = a.diagnostics := by
  obtain ⟨new, rfl, -⟩ := h
  rfl

theorem Loads.subset (h : Loads tree a b) : a.modules ⊆ b.modules := by
  obtain ⟨new, rfl, -⟩ := h
  exact List.subset_append_left _ _

theorem Loads.mem (h : Loads tree a b) {m : Module} (hm : m ∈ b.modules) :
    m ∈ a.modules ∨ m.FromTree tree := by
  obtain ⟨new, rfl, hnew⟩ := h
  exact (List.mem_append.1 hm).imp_right (hnew m)

theorem mem_of_module? {path : String} {m : Module} (h : a.module? path = some m) :
    m ∈ a.modules ∧ Path.components m.path = Path.components path :=
  ⟨List.mem_of_find?_eq_some h, by simpa using List.find?_some h⟩

/-- Opening a file gives the module already known by its path, or else loads it. -/
theorem openModule_run (tree : FileTree) (a : Analysis) (path : String) :
    openModule path tree a =
      match tree.canonicalize path with
      | .error e => (.error (.unreadable path e), a)
      | .ok key =>
        match a.module? key with
        | some m => (.ok m, a)
        | none =>
          match tree.module path with
          | .error e => (.error e, a)
          | .ok m => (.ok m, { a with modules := a.modules ++ [m] }) := by
  simp only [openModule, AnalysisM.bind_run, AnalysisM.read_run, FileTree.module]
  cases tree.canonicalize path with
  | error e => rfl
  | ok key =>
      simp only [AnalysisM.bind_run, AnalysisM.get_run]
      cases hm : a.module? key with
      | some m => rfl
      | none =>
          simp only []
          cases tree.read key with
          | error e => rfl
          | ok text =>
              simp only [addSource, AnalysisM.bind_run, AnalysisM.get_run, hm]
              cases Source.parse text <;> rfl

theorem openModule_loads {path : String} {outcome : Except ModuleError Module}
    (h : openModule path tree a = (outcome, b)) :
    Loads tree a b ∧ ∀ m, outcome = .ok m → m ∈ b.modules := by
  rw [openModule_run] at h
  split at h
  · cases h
    exact ⟨.refl, by simp⟩
  split at h
  next m hm =>
    cases h
    refine ⟨.refl, ?_⟩
    rintro _ ⟨⟩
    exact (mem_of_module? hm).1
  split at h
  · cases h
    exact ⟨.refl, by simp⟩
  next m hm =>
    cases h
    refine ⟨⟨[m], rfl, ?_⟩, by simp⟩
    intro m' hm'
    rw [List.mem_singleton.1 hm']
    exact (FileTree.module_ok hm).2

/-- Every module that is known has been loaded from the tree. -/
def Loaded (tree : FileTree) (a : Analysis) : Prop := ∀ m ∈ a.modules, m.FromTree tree

theorem loaded_empty : Loaded tree {} := by simp [Loaded]

theorem Loaded.eq_of_path (h : Loaded tree a) {m n : Module} (hm : m ∈ a.modules)
    (hn : n ∈ a.modules) (hpath : m.path = n.path) : m = n :=
  (h m hm).eq_of_path (h n hn) hpath

theorem Loads.loaded (h : Loads tree a b) (ha : Loaded tree a) : Loaded tree b := fun m hm =>
  (h.mem hm).elim (ha m) id

/-- What is known under a path is what a fresh look at the tree gives. -/
theorem Loaded.module_eq (h : Loaded tree a) {path key : String} {m : Module}
    (hkey : tree.canonicalize path = .ok key) (hm : a.module? key = some m) :
    tree.module path = .ok m := by
  obtain ⟨hmem, hparts⟩ := mem_of_module? hm
  obtain ⟨place, rfl, hplace⟩ := FileTree.canonicalize_sound hkey
  obtain ⟨place', hpath, hplace'⟩ := (h m hmem).standing
  rw [hpath] at hparts
  have heq : place' = place := Place.path_inj hplace'.plain hplace.plain hparts
  exact FileTree.module_eq (by rw [hkey, hpath, heq]) (h m hmem)

/-- Where only files have been loaded, opening one gives what a fresh look at the tree gives. -/
theorem Loaded.openModule (h : Loaded tree a) (path : String) :
    ∃ b, openModule path tree a = (tree.module path, b) ∧ Loads tree a b := by
  have hrun := openModule_run tree a path
  refine ⟨(Analysis.openModule path tree a).2, ?_, (openModule_loads rfl).1⟩
  cases hkey : tree.canonicalize path with
  | error e =>
      rw [hkey] at hrun
      rw [hrun, FileTree.module, hkey]
  | ok key =>
      rw [hkey] at hrun
      cases hm : a.module? key with
      | some m => simp only [hrun, hm, h.module_eq hkey hm]
      | none => cases hmodule : tree.module path <;> simp only [hrun, hm, hmodule]

end Analysis

end HandlerWeave
