import HandlerWeave.Proofs.Analysis.References

/-!
The handlers that an analysis collects. Every file is loaded and contributes those that its own
exported bindings make available, whatever was read before it, so that what is collected can be read
off the files.
-/
namespace HandlerWeave

open Source

/-- The handler that an exported binding makes available. -/
def Module.handler? (m : Module) (b : Binding) : Option Handler := do
  let c ← Handler.class? m b
  let method ← c.method? Handler.entryName
  return Handler.describe m c method b.name

def Module.handlers (m : Module) : List Handler := m.bindings.filterMap m.handler?

/-- The handlers that the file at `path` makes available. -/
def FileTree.handlers (tree : FileTree) (path : String) : List Handler :=
  match tree.module path with
  | .ok m => m.handlers
  | .error _ => []

namespace Analysis

variable {tree : FileTree} {a : Analysis} {c d : Moment} {paths : List String}

/-- The handlers that a call is still to collect. -/
def Call.owed (tree : FileTree) : Call → List Handler
  | files paths => paths.flatMap tree.handlers
  | bindings m rest => rest.filterMap m.handler?
  | locating _ _ => []
  | writing w m _ => (w.handler? m).toList

/-- The handlers collected, and behind them those that the calls on the stack are to collect. -/
def Moment.handlers (tree : FileTree) (c : Moment) : List Handler :=
  c.state.handlers ++ c.calls.flatMap (Call.owed tree)

/-- A handler only moves from those to be collected to those collected, where a file that is opened
gives the module that it holds. -/
theorem Step.handlers (h : Step tree c d)
    (hopens : ∀ path paths, Call.files (path :: paths) ∈ c.calls → ∀ m b,
      openModule path tree c.state = (.ok m, b) → tree.module path = .ok m) :
    d.handlers tree = c.handlers tree := by
  cases h with
  | filesEnd | bindingsEnd | unsupported | known | wanted => rfl
  | @file path paths stack a b done m hopen =>
      have hmodule := hopens path paths List.mem_cons_self m b hopen
      simp [Moment.handlers, Call.owed, FileTree.handlers, Module.handlers, hmodule,
        (openModule_loads hopen).1.handlers]
  | otherBinding hclass => simp [Moment.handlers, Call.owed, Module.handler?, hclass]
  | noEntry hclass hmethod =>
      simp [Moment.handlers, Call.owed, Module.handler?, hclass, hmethod]
  | handler hclass hmethod =>
      simp [Moment.handlers, Call.owed, Module.handler?, Work.handler?, hclass, hmethod]
  | written => simp [Moment.handlers, Call.owed, finish_handlers]
  | found hsearch hd =>
      simp [Moment.handlers, Call.owed, Work.handler?, (Types.search_loads hsearch).1.handlers]
  | missing hsearch =>
      simp [Moment.handlers, Call.owed, (Types.search_loads hsearch).1.handlers]

theorem Loaded.opens (hloaded : Loaded tree a) {path : String} {m : Module} {b : Analysis}
    (hopen : Analysis.openModule path tree a = (.ok m, b)) : tree.module path = .ok m := by
  obtain ⟨b', hrun, -⟩ := hloaded.openModule path
  exact (Prod.mk.inj (hrun.symm.trans hopen)).1

theorem Reaches.handlers (h : Reaches tree c d) (hc : c.Coherent tree) :
    d.handlers tree = c.handlers tree := by
  induction h with
  | refl => rfl
  | tail hreach hstep ih =>
      rw [hstep.handlers fun _ _ _ _ _ => (Reaches.coherent hreach hc).loaded.opens, ih]

/-- Files added to a new analysis contribute their handlers one after the other. -/
theorem addFiles_handlers (h : addFiles paths tree {} = (.ok (), a)) :
    a.handlers = paths.flatMap tree.handlers := by
  obtain ⟨done, hreach⟩ := addFiles_reaches h
  have hhandlers := Reaches.handlers hreach (filesStart_coherent tree paths)
  simpa [Moment.handlers, filesStart, Call.owed] using hhandlers

/-- The file is loaded, or still to be. -/
def Moment.Opens (tree : FileTree) (path : String) (c : Moment) : Prop :=
  (∃ m ∈ c.state.modules, tree.canonicalize path = .ok m.path) ∨
    ∃ rest, Call.files rest ∈ c.calls ∧ path ∈ rest

theorem Step.opens (h : Step tree c d) (hloaded : Loaded tree c.state) {path : String}
    (hc : c.Opens tree path) : d.Opens tree path := by
  obtain ⟨m, hm, hpath⟩ | ⟨rest, hcall, hpath⟩ := hc
  · exact .inl ⟨m, h.modules hm, hpath⟩
  obtain hkept | ⟨stack, hcalls⟩ := h.kept hcall
  · exact .inr ⟨rest, hkept, hpath⟩
  cases h with
  | filesEnd =>
      cases hcalls
      cases hpath
  | @file first paths _ a b _ m hopen =>
      cases hcalls
      obtain rfl | hpath := List.mem_cons.1 hpath
      · exact .inl ⟨m, (openModule_loads hopen).2 m rfl,
          (FileTree.module_ok (hloaded.opens hopen)).1⟩
      · exact .inr ⟨paths, by simp, hpath⟩
  | _ => cases hcalls

theorem Reaches.opens (h : Reaches tree c d) (hc : c.Coherent tree) {path : String}
    (hpath : c.Opens tree path) : d.Opens tree path := by
  induction h with
  | refl => exact hpath
  | tail hreach hstep ih => exact hstep.opens (Reaches.coherent hreach hc).loaded ih

/-- Every file that is added is loaded, under its path without links. -/
theorem addFiles_opened (h : addFiles paths tree {} = (.ok (), a)) :
    ∀ path ∈ paths, ∃ m ∈ a.modules, tree.canonicalize path = .ok m.path := by
  intro path hpath
  obtain ⟨done, hreach⟩ := addFiles_reaches h
  have hstart : (filesStart paths).Opens tree path := .inr ⟨paths, by simp [filesStart], hpath⟩
  obtain hloaded | ⟨rest, hcall, -⟩ :=
    Reaches.opens hreach (filesStart_coherent tree paths) hstart
  · exact hloaded
  · cases hcall

end Analysis

end HandlerWeave
