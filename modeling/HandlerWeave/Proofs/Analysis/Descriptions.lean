import HandlerWeave.Proofs.Analysis.Collected
import HandlerWeave.Proofs.Analysis.Locality
import HandlerWeave.Proofs.FileTree.Programs

/-!
Looking one module through for handlers. What comes of it can be read off the module: the files, and
what the analysis has done before, decide only whether the types named can be followed. Handlers and
diagnostics are only ever added to.
-/
namespace HandlerWeave.Analysis

open Source HandlerWeave.Types

variable {tree tree' : FileTree} {a a' b b' : Analysis} {c d : Moment} {m : Module}

/-- No file is waiting to be loaded. -/
def Moment.NoFiles (c : Moment) : Prop := ∀ paths, Call.files paths ∉ c.calls

theorem Step.noFiles (h : Step tree c d) (hc : c.NoFiles) : d.NoFiles := by
  intro paths hcall
  cases h with
  | filesEnd | file => exact hc _ List.mem_cons_self
  | bindingsEnd | otherBinding | noEntry | handler | written | unsupported | known |
    wanted | found | missing => exact hc paths (by simpa using hcall)

@[simp] theorem finish_diagnostics (work : Work) (m : Module) (a : Analysis) :
    (work.finish m a).diagnostics = a.diagnostics := by
  cases work <;> rfl

theorem missed_diagnostics (a : Analysis) (name : String) (m : Module) (why : Types.Missing) :
    a.diagnostics <+: (a.missed name m why).diagnostics := by
  unfold missed
  split
  · exact List.prefix_append _ _
  · exact List.prefix_rfl

theorem Step.diagnostics (h : Step tree c d) : c.state.diagnostics <+: d.state.diagnostics := by
  cases h with
  | filesEnd | bindingsEnd | otherBinding | known | wanted => exact List.prefix_rfl
  | handler | unsupported => exact List.prefix_append _ _
  | noEntry => exact (List.prefix_append _ _).trans (List.prefix_append _ _)
  | written => simp
  | file hopen => exact (openModule_loads hopen).1.diagnostics ▸ List.prefix_rfl
  | found hsearch => exact (search_loads hsearch).1.diagnostics ▸ List.prefix_rfl
  | missing hsearch =>
      exact (search_loads hsearch).1.diagnostics ▸ missed_diagnostics ..

/-- Where no file is to be loaded, a run only moves handlers from those to be collected to those
collected, and adds diagnostics. -/
theorem Reaches.appends (h : Reaches tree c d) (hc : c.NoFiles) :
    d.NoFiles ∧ d.handlers tree = c.handlers tree ∧
      c.state.diagnostics <+: d.state.diagnostics := by
  induction h with
  | refl => exact ⟨hc, rfl, List.prefix_rfl⟩
  | tail _ hstep ih =>
      obtain ⟨hfiles, hhandlers, hdiagnostics⟩ := ih
      refine ⟨hstep.noFiles hfiles, ?_, hdiagnostics.trans hstep.diagnostics⟩
      rw [hstep.handlers fun path paths hcall => absurd hcall (hfiles _), hhandlers]

theorem addModule_appends (h : addModule m tree a = (.ok (), b)) :
    b.handlers = a.handlers ++ m.handlers ∧ a.diagnostics <+: b.diagnostics := by
  have hrun : Follows tree [.bindings m m.bindings] [] a (addModule m tree a) :=
    addModule_follows m
  rw [h] at hrun
  obtain ⟨done, hreach⟩ := hrun []
  obtain ⟨-, hhandlers, hdiagnostics⟩ := Reaches.appends hreach (by simp [Moment.NoFiles])
  exact ⟨by simpa [Moment.handlers, Call.owed, Module.handlers] using hhandlers, hdiagnostics⟩

/-- However two analyses stand, and whatever files there are, the handlers that a module adds to
them are the same: those that are described from the module alone. The handlers collected and the
problems reported before stay in front. -/
theorem addModule_uniform (h : addModule m tree a = (.ok (), a'))
    (h' : addModule m tree' b = (.ok (), b')) :
    a'.handlers = a.handlers ++ m.handlers ∧ b'.handlers = b.handlers ++ m.handlers ∧
      a.diagnostics <+: a'.diagnostics ∧ b.diagnostics <+: b'.diagnostics := by
  obtain ⟨hhandlers, hdiagnostics⟩ := addModule_appends h
  obtain ⟨hhandlers', hdiagnostics'⟩ := addModule_appends h'
  exact ⟨hhandlers, hhandlers', hdiagnostics, hdiagnostics'⟩

/-- The module is added to a new analysis, and to one that knows another module by its path and
another type by the name of its type. -/
theorem addModule_uniform_item :
    ∃ m a' b', itemTree.module "/a.ts" = .ok m ∧ m.handlers.length = 1 ∧
      addModule m itemTree {} = (.ok (), a') ∧ addModule m itemTree twoItems = (.ok (), b') ∧
      a'.handlers = m.handlers ∧ b'.handlers = twoItems.handlers ++ m.handlers ∧
      twoItems.diagnostics <+: b'.diagnostics := by
  have hrun : (itemTree.module "/a.ts").toOption.map (fun m => (m.handlers.length,
      (addModule m itemTree {}).1.isOk, (addModule m itemTree twoItems).1.isOk)) =
        some (1, true, true) := by
    decide +kernel
  obtain ⟨m, hm, hrun⟩ := Except.of_toOption_map hrun
  simp only [Prod.mk.injEq] at hrun
  obtain ⟨hlength, hempty, htwo⟩ := hrun
  obtain ⟨hhandlers, hhandlers', -, hdiagnostics⟩ :=
    addModule_uniform (eq_ok_of_isOk hempty) (eq_ok_of_isOk htwo)
  exact ⟨m, _, _, hm, hlength, eq_ok_of_isOk hempty, eq_ok_of_isOk htwo,
    by simpa using hhandlers, hhandlers', hdiagnostics⟩

end HandlerWeave.Analysis
