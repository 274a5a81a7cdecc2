import HandlerWeave.Analysis

/-!
What the primitive steps of an analysis do to a file tree and a state. Everything else about a run
is derived from these equations.
-/
namespace HandlerWeave.AnalysisM

variable {α β : Type} (tree : FileTree) (a : Analysis)

@[simp] theorem pure_run (x : α) : (pure x : AnalysisM α) tree a = (.ok x, a) := rfl

theorem bind_run (x : AnalysisM α) (f : α → AnalysisM β) :
    (x >>= f) tree a = match x tree a with
      | (.ok v, b) => f v tree b
      | (.error e, b) => (.error e, b) := by
  change (match x tree a with
    | (outcome, b) => ExceptT.bindCont (fun v => f v tree) outcome b) = _
  obtain ⟨_ | _, b⟩ := x tree a <;> rfl

theorem bind_run_ok {x : AnalysisM α} {f : α → AnalysisM β} {v : α} {b : Analysis}
    (h : x tree a = (.ok v, b)) : (x >>= f) tree a = f v tree b := by
  rw [bind_run, h]

@[simp] theorem get_run : (get : AnalysisM Analysis) tree a = (.ok a, a) := rfl

@[simp] theorem read_run : (read : AnalysisM FileTree) tree a = (.ok tree, a) := rfl

@[simp] theorem report_run (d : Diagnostic) :
    Analysis.report d tree a = (.ok (), { a with diagnostics := a.diagnostics ++ [d] }) := rfl

@[simp] theorem reportAll_run (ds : List Diagnostic) :
    Analysis.reportAll ds tree a = (.ok (), { a with diagnostics := a.diagnostics ++ ds }) := rfl

@[simp] theorem changeTypes_run (f : Types.Table → Types.Table) :
    Analysis.changeTypes f tree a = (.ok (), { a with types := f a.types }) := rfl

end HandlerWeave.AnalysisM
