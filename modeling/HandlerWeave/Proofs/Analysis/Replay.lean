import HandlerWeave.Proofs.Analysis.Collected
import HandlerWeave.Proofs.Analysis.Termination

/-!
An analysis of files that have changed elsewhere. Where the modules that were loaded can be opened
and imported as before, the machine takes the same steps and comes to the same state.
-/
namespace HandlerWeave.Analysis

open Source HandlerWeave.Types

variable {tree tree' : FileTree} {modules : List Module} {a b : Analysis} {c d : Moment}
  {paths : List String}

/-- What opens and imports lead to some modules does so in another tree. -/
structure Keeps (tree tree' : FileTree) (modules : List Module) : Prop where
  opens : ∀ path, ∀ m ∈ modules, tree.module path = .ok m → tree'.module path = .ok m
  imports : ∀ directory specifier, ∀ m ∈ modules,
    tree.module (importedFile tree directory specifier) = .ok m →
    importedFile tree' directory specifier = importedFile tree directory specifier

namespace Keeps

variable (h : Keeps tree tree' modules)

include h

theorem openModule {path : String} {m : Module} (hloaded : Loaded tree a)
    (hb : b.modules ⊆ modules) (hopen : Analysis.openModule path tree a = (.ok m, b)) :
    Analysis.openModule path tree' a = (.ok m, b) := by
  have hmodule := hloaded.opens hopen
  have hmodule' := h.opens path m (hb ((openModule_loads hopen).2 m rfl)) hmodule
  have hkey := (FileTree.module_ok hmodule).1
  have hkey' := (FileTree.module_ok hmodule').1
  rw [openModule_run, hkey] at hopen
  rw [openModule_run, hkey']
  simp only [hmodule, hmodule'] at hopen ⊢
  exact hopen

theorem visits {name : String} {visited entered : List String} {qualifier : Option String}
    {m : Module} {result : Except ModuleError SearchResult × Analysis} {found : SearchResult}
    (hvisits : Visits tree name visited qualifier m a entered result) (hloaded : Loaded tree a)
    (hb : result.2.modules ⊆ modules) (hfound : result.1 = .ok found) :
    Visits tree' name visited qualifier m a entered result := by
  induction hvisits with
  | again hvisited => exact .again hvisited
  | declared hnew hd => exact .declared hnew hd
  | noImport hnew hd hnext => exact .noImport hnew hd hnext
  | notOpened => cases hfound
  | @next visited qualifier m a i n b entered result hnew hd hnext hopen hrest ih =>
      obtain ⟨hload, hmem⟩ := openModule_loads hopen
      have hsubset : b.modules ⊆ modules := List.Subset.trans hrest.loads.subset hb
      have himported := h.imports m.directory i.source n (hsubset (hmem n rfl))
        (hloaded.opens hopen)
      refine .next hnew hd hnext ?_ (ih (hload.loaded hloaded) hb hfound)
      rw [himported]
      exact h.openModule hloaded hsubset hopen

theorem search {name : QualifiedName} {m : Module} {found : SearchResult}
    (hloaded : Loaded tree a) (hb : b.modules ⊆ modules)
    (hsearch : Types.search name m tree a = (.ok found, b)) :
    Types.search name m tree' a = (.ok found, b) := by
  obtain ⟨entered, -, hvisits⟩ := search_visits tree name m a
  obtain ⟨entered', -, hvisits'⟩ := search_visits tree' name m a
  rw [hsearch] at hvisits
  exact hvisits'.unique (h.visits hvisits hloaded hb rfl)

theorem step (hstep : Step tree c d) (hloaded : Loaded tree c.state)
    (hd : d.state.modules ⊆ modules) : Step tree' c d := by
  cases hstep with
  | filesEnd => exact .filesEnd
  | file hopen => exact .file (h.openModule hloaded hd hopen)
  | bindingsEnd => exact .bindingsEnd
  | otherBinding hclass => exact .otherBinding hclass
  | noEntry hclass hmethod => exact .noEntry hclass hmethod
  | handler hclass hmethod => exact .handler hclass hmethod
  | written => exact .written
  | unsupported => exact .unsupported
  | known hknown => exact .known hknown
  | wanted hwanted => exact .wanted hwanted
  | found hsearch hdecl => exact .found (h.search hloaded hd hsearch) hdecl
  | missing hsearch => exact .missing (h.search hloaded (by simpa using hd) hsearch)

theorem reaches (hreach : Reaches tree c d) (hc : c.Coherent tree)
    (hd : d.state.modules ⊆ modules) : Reaches tree' c d := by
  induction hreach with
  | refl => exact .refl
  | tail hreach hstep ih =>
      have hloaded := (Reaches.coherent hreach hc).loaded
      exact (ih (List.Subset.trans hstep.modules hd)).tail (h.step hstep hloaded hd)

end Keeps

/-- Where the modules loaded are kept, the analysis is the same. -/
theorem addFiles_again (h : addFiles paths tree {} = (.ok (), a))
    (hkeeps : Keeps tree tree' a.modules) :
    addFiles paths tree' {} = (.ok (), a) := by
  obtain ⟨done, hreach⟩ := addFiles_reaches h
  have hreach' := hkeeps.reaches hreach (filesStart_coherent tree paths) (List.Subset.refl _)
  have hfollows : Follows tree' [.files paths] [] {} (addFiles paths tree' {}) :=
    addFiles_follows paths
  obtain ⟨e, he, hend⟩ := hfollows.ends
  obtain ⟨houtcome, hstate⟩ := Reaches.ends_unique he hend hreach' .returned
  exact Prod.ext houtcome hstate

end HandlerWeave.Analysis
