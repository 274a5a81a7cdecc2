import HandlerWeave.Proofs.Artifact.Files
import HandlerWeave.Proofs.Project.Replace
import Mathlib.Data.List.TakeDrop

/-!
What a run has found before it writes. A plan holds what each stage gave; its descriptor is a file,
and the names of its files are those of scripts. A run writes only by the plan it has made, and only
what it writes then can fail on a file.
-/
namespace HandlerWeave

theorem Path.hasExtension_append {stem extension : String} (hstem : stem ≠ "")
    (hextension : '.' ∉ extension.toList) :
    hasExtension (stem ++ "." ++ extension) extension = true := by
  have hlist : (stem ++ "." ++ extension).toList.reverse =
      extension.toList.reverse ++ '.' :: stem.toList.reverse := by
    simp
  have hkept : ∀ c ∈ extension.toList.reverse, (c != '.') = true := by
    intro c hc
    rw [bne_iff_ne]
    rintro rfl
    exact hextension (List.mem_reverse.1 hc)
  rw [hasExtension, hlist, List.span_eq_takeWhile_dropWhile,
    List.takeWhile_append_of_pos hkept, List.dropWhile_append_of_pos hkept]
  simpa [List.length_pos_iff] using hstem

namespace Config

variable {tree : FileTree} {root name path : String} {part : Part} {config : Config}

theorem locate_ok (h : locate tree root part name = .ok path) : tree.isFile path = true := by
  unfold locate at h
  dsimp only at h
  split at h
  next hfile =>
    cases h
    exact hfile
  · cases h

theorem load_template (h : load tree root = .ok config) : tree.isFile config.template = true := by
  obtain ⟨_, -, h⟩ := Except.bind_ok h
  obtain ⟨s, -, h⟩ := Except.bind_ok h
  unfold resolve at h
  dsimp only at h
  split at h
  · cases h
  obtain ⟨template, htemplate, h⟩ := Except.bind_ok h
  split at h
  · cases h
  obtain ⟨_, -, h⟩ := Except.bind_ok h
  cases h
  exact locate_ok htemplate

end Config

/-- A failure of a file that is made, removed or written, and not of what a run reads before. -/
def RunError.IsFile (e : RunError) : Prop := ∃ path cause, e = .file path cause

namespace Project

open FileTree Artifact

variable {tree after : FileTree} {directory : String} {p : Plan} {e : RunError}

theorem plainName_script {stem : String} (hstem : IsStem stem) : PlainName (stem ++ ".ts") := by
  have hlast : ∀ name : String, name.toList.getLast? ≠ some 's' → stem ++ ".ts" ≠ name := by
    rintro name hname rfl
    exact hname (by simp)
  refine ⟨hlast _ (by decide), hlast _ (by decide), hlast _ (by decide), ?_⟩
  simpa using hstem.notMem (by decide)

/-- What a plan is made of: the root of the project, the options of the compiler and the descriptor,
and what every stage has given. -/
structure MadeOf (tree : FileTree) (directory : String) (p : Plan) (root : String)
    (options : CompilerOptions) (document : Yaml) : Prop where
  canonical : tree.canonicalize directory = .ok root
  config : Config.load tree root = .ok p.config
  compiler : CompilerOptions.load tree p.config.tsconfig = .ok options
  descriptor : loadDescriptor tree p.config.template = .ok document
  output : p.output = outputPlace tree p.config.output
  sources : Discovery.sources tree root p.output = .ok p.sources
  analysis : analyze tree p.sources = .ok p.analysis
  artifacts : render p.analysis p.config.template document root (.ofOptions options) =
    .ok p.artifacts

theorem plan_iff : plan tree directory = .ok p ↔
    ∃ root options document, MadeOf tree directory p root options document := by
  constructor
  · intro h
    obtain ⟨root, hroot, h⟩ := Except.bind_ok h
    obtain ⟨config, hconfig, h⟩ := Except.bind_ok h
    obtain ⟨options, hoptions, h⟩ := Except.bind_ok h
    obtain ⟨document, hdocument, h⟩ := Except.bind_ok h
    obtain ⟨sources, hsources, h⟩ := Except.bind_ok h
    obtain ⟨analysis, hanalysis, h⟩ := Except.bind_ok h
    obtain ⟨artifacts, hartifacts, h⟩ := Except.bind_ok h
    cases h
    exact ⟨root, options, document, Except.mapError_ok hroot, Except.mapError_ok hconfig,
      Except.mapError_ok hoptions, hdocument, rfl, Except.mapError_ok hsources, hanalysis,
      hartifacts⟩
  · rintro ⟨root, options, document, h⟩
    obtain ⟨config, output, sources, analysis, artifacts⟩ := p
    obtain ⟨hroot, hconfig, hoptions, hdocument, houtput, hsources, hanalysis, hartifacts⟩ := h
    dsimp only at *
    subst houtput
    simp only [plan, hroot, hconfig, hoptions, hdocument, hsources, hanalysis, hartifacts,
      Except.mapError, bind, Except.bind]
    rfl

/-- Every stage has given its part of the plan. -/
structure Planned (tree : FileTree) (directory : String) (p : Plan) : Prop where
  config : ∃ root, tree.canonicalize directory = .ok root ∧ Config.load tree root = .ok p.config ∧
    Discovery.sources tree root p.output = .ok p.sources
  output : p.output = outputPlace tree p.config.output
  analysis : Analysis.addFiles p.sources tree {} = (.ok (), p.analysis)
  artifacts : ∃ document root defaults,
    render p.analysis p.config.template document root defaults = .ok p.artifacts

theorem analyze_ok_iff {paths : List String} {a : Analysis} :
    analyze tree paths = .ok a ↔ Analysis.addFiles paths tree {} = (.ok (), a) := by
  unfold analyze
  constructor
  · intro h
    split at h
    next heq =>
      cases h
      exact heq
    · cases h
  · intro h
    rw [h]

theorem plan_planned (h : plan tree directory = .ok p) : Planned tree directory p := by
  obtain ⟨root, options, document, h⟩ := plan_iff.1 h
  exact {
    config := ⟨root, h.canonical, h.config, h.sources⟩
    output := h.output
    analysis := analyze_ok_iff.1 h.analysis
    artifacts := ⟨document, root, _, h.artifacts⟩ }

/-- The plan once its sources are known. -/
theorem plan_eq {root : String} {config : Config} {sources : List String}
    (hroot : tree.canonicalize directory = .ok root) (hconfig : Config.load tree root = .ok config)
    (hsources : Discovery.sources tree root (outputPlace tree config.output) = .ok sources) :
    plan tree directory = do
      let options ← (CompilerOptions.load tree config.tsconfig).mapError .config
      let document ← loadDescriptor tree config.template
      let analysis ← analyze tree sources
      let artifacts ← render analysis config.template document root (.ofOptions options)
      return ⟨config, outputPlace tree config.output, sources, analysis, artifacts⟩ := by
  simp only [plan, hroot, hconfig, hsources, Except.mapError, bind, Except.bind]

namespace Planned

variable (h : Planned tree directory p)

include h

/-- The descriptor is a file that is there. -/
theorem template : ∃ t contents,
    tree.lookup true p.config.template = .ok (.present t (.file contents)) := by
  obtain ⟨root, -, hconfig, -⟩ := h.config
  exact isFile_iff.1 (Config.load_template hconfig)

/-- A file is named for a type, or is one of the client's. -/
theorem name_cases {f : File} (hf : f ∈ p.artifacts.files) :
    (∃ stem, IsStem stem ∧ stem ≠ "" ∧ f.name = stem ++ ".ts") ∨ f.name ∈ clientNames := by
  obtain ⟨document, root, defaults, hrender⟩ := h.artifacts
  obtain ⟨done, hc⟩ := Analysis.addFiles_coherent h.analysis
  rw [render_files hrender] at hf
  have hname : f.name ∈ (typeFiles p.analysis.types ++
      clientFiles p.analysis.handlers p.analysis.types).map (·.name) := List.mem_map_of_mem hf
  rw [List.map_append, List.mem_append, map_name_clientFiles, mem_map_name_typeFiles] at hname
  obtain ⟨D, hD, hslug⟩ | hname := hname
  · have hword := hc.rendered_isWord hD
    exact .inl ⟨slug D.name, slug_isStem hword, slug_ne_empty hword, hslug.symm⟩
  · exact .inr hname

theorem scriptNames : ScriptNames p.artifacts.files := by
  have hclient : ∀ name ∈ clientNames, PlainName name ∧ Path.hasExtension name "ts" = true := by
    decide
  intro f hf
  obtain ⟨stem, hstem, hne, hname⟩ | hname := h.name_cases hf
  · have hsplit : stem ++ ".ts" = stem ++ "." ++ "ts" := by
      rw [String.append_assoc]
      rfl
    rw [hname]
    refine ⟨plainName_script hstem, ?_⟩
    rw [hsplit]
    exact Path.hasExtension_append hne (by decide)
  · exact hclient f.name hname

theorem head_ne_point {f : File} (hf : f ∈ p.artifacts.files) : f.name.toList.head? ≠ some '.' := by
  have hclient : ∀ name ∈ clientNames, name.toList.head? ≠ some '.' := by
    decide
  obtain ⟨stem, hstem, hne, hname⟩ | hname := h.name_cases hf
  · obtain ⟨c, cs, hcs⟩ := List.exists_cons_of_ne_nil fun hnil => hne (String.toList_inj.1 hnil)
    rw [hname, String.toList_append, hcs]
    rintro ⟨⟩
    exact hstem.notMem (by decide) (hcs ▸ List.mem_cons_self)
  · exact hclient f.name hname

end Planned

/-- A stage that reads does not fail as writing does. -/
def ReadFails {α : Type} (x : Except RunError α) : Prop := ∀ e, x = .error e → ¬ e.IsFile

theorem ReadFails.bind {α β : Type} {x : Except RunError α} {f : α → Except RunError β}
    (hx : ReadFails x) (hf : ∀ v, ReadFails (f v)) : ReadFails (x >>= f) := by
  cases x with
  | error e =>
      rintro _ ⟨⟩
      exact hx e rfl
  | ok v => exact hf v

theorem ReadFails.mapError {ε α : Type} {x : Except ε α} {f : ε → RunError}
    (hf : ∀ cause, ¬ (f cause).IsFile) : ReadFails (x.mapError f) := by
  cases x with
  | error cause =>
      rintro _ ⟨⟩
      exact hf cause
  | ok v => exact fun _ => nofun

theorem plan_readFails (tree : FileTree) (directory : String) :
    ReadFails (plan tree directory) := by
  refine .bind (.mapError fun _ => nofun) fun root => .bind (.mapError fun _ => nofun) fun config =>
    .bind (.mapError fun _ => nofun) fun options => .bind ?descriptor fun document =>
      .bind (.mapError fun _ => nofun) fun sources => .bind ?analysis fun analysis =>
        .bind ?artifacts fun artifacts => fun _ => nofun
  case descriptor =>
    unfold loadDescriptor
    split
    · rintro _ ⟨⟩
      exact nofun
    · exact .mapError fun _ => nofun
  case analysis =>
    unfold analyze
    split
    · exact fun _ => nofun
    · rintro _ ⟨⟩
      exact nofun
  case artifacts =>
    unfold render
    split
    · rintro _ ⟨⟩
      exact nofun
    · exact fun _ => nofun

/-- A program that fails on files only. -/
def FileFails {α : Type} (x : RunM α) : Prop :=
  ∀ tree e after, x tree = (.error e, after) → e.IsFile

namespace FileFails

variable {α β : Type} {x : RunM α} {f : α → RunM β}

theorem pure (v : α) : FileFails (pure v) := fun _ _ _ => nofun

theorem get : FileFails (get : RunM FileTree) := by
  intro tree e after h
  cases h

theorem bind (hx : FileFails x) (hf : ∀ v, FileFails (f v)) : FileFails (x >>= f) := by
  intro tree e after h
  obtain ⟨_, hfirst, ⟨⟩⟩ | ⟨v, mid, -, hrest⟩ := bind_cases h
  · exact hx tree e after hfirst
  · exact hf v mid e after hrest

theorem change (path : String) (f : FileTree → FileTree.Changed) :
    FileFails (Project.change path f) := by
  intro tree e after h
  unfold Project.change at h
  split at h
  · cases h
  · cases h
    exact ⟨_, _, rfl⟩

theorem forIn {body : α → RunM PUnit} (hbody : ∀ v, FileFails (body v)) (vs : List α) :
    FileFails (forIn vs PUnit.unit fun v _ => do body v; return .yield PUnit.unit) := by
  induction vs with
  | nil => exact pure _
  | cons v vs ih =>
      rw [List.forIn_cons]
      refine bind (bind (hbody v) fun _ => pure _) ?_
      rintro (_ | _)
      · exact pure _
      · exact ih

end FileFails

theorem execute_fileFails (p : Plan) : FileFails p.execute := by
  refine .bind (.bind ?making fun _ => .bind ?purging fun _ => .bind ?writing fun _ => .pure _)
    fun _ => .change _ _
  case making =>
    intro tree e after h
    unfold makeOutput at h
    split at h
    · cases h
    · cases h
      exact ⟨_, _, rfl⟩
  case purging =>
    refine .bind .get fun tree => .bind ?_ fun names =>
      .bind (.forIn (fun name => .bind .get fun now => ?_) names) fun _ => .pure _
    · intro now e after h
      unfold listOutput at h
      cases hlist : tree.list p.output with
      | error cause =>
          rw [hlist] at h
          cases h
          exact ⟨_, _, rfl⟩
      | ok names =>
          rw [hlist] at h
          cases h
    · split
      · exact .change _ _
      · exact .pure _
  case writing => exact .forIn (fun f => .change _ _) _

/-- A run fails before it writes, or it is dry and ends with its plan, or it carries the plan
out. -/
inductive Runs (directory : String) (tree : FileTree) :
    Bool → Except RunError Report → FileTree → Prop
  | unplanned {dry : Bool} {e : RunError} (h : plan tree directory = .error e) :
      Runs directory tree dry (.error e) tree
  | dry {p : Plan} (h : plan tree directory = .ok p) :
      Runs directory tree true (.ok (p.report false)) tree
  | failed {p : Plan} {e : RunError} {after : FileTree} (h : plan tree directory = .ok p)
      (hrun : p.execute tree = (.error e, after)) : Runs directory tree false (.error e) after
  | done {p : Plan} {after : FileTree} (h : plan tree directory = .ok p)
      (hrun : p.execute tree = (.ok (), after)) :
      Runs directory tree false (.ok (p.report true)) after

theorem run_eq (directory : String) (dry : Bool) (tree : FileTree) :
    run directory dry tree = match plan tree directory with
      | .error e => (.error e, tree)
      | .ok p =>
        if dry then (.ok (p.report false), tree)
        else match p.execute tree with
          | (.ok (), after) => (.ok (p.report true), after)
          | (.error e, after) => (.error e, after) := by
  rw [run, bind_run]
  change (liftM (plan tree directory) >>= _ : RunM Report) tree = _
  rw [bind_run]
  cases plan tree directory with
  | error e => rfl
  | ok p =>
      cases dry with
      | true => rfl
      | false =>
          change (p.execute >>= fun _ => pure (p.report true) : RunM Report) tree = _
          rw [bind_run]
          simp only [Bool.false_eq_true, if_false]
          rcases p.execute tree with ⟨_ | _, after⟩ <;> rfl

theorem run_runs {dry : Bool} {outcome : Except RunError Report}
    (h : run directory dry tree = (outcome, after)) : Runs directory tree dry outcome after := by
  rw [run_eq] at h
  split at h
  next hplan =>
    cases h
    exact .unplanned hplan
  next hplan =>
    split at h
    next hdry =>
      cases h
      exact hdry ▸ .dry hplan
    next hdry =>
      rw [Bool.not_eq_true] at hdry
      subst hdry
      split at h
      next hexecute =>
        cases h
        exact .done hplan hexecute
      next hexecute =>
        cases h
        exact .failed hplan hexecute

end Project

end HandlerWeave
