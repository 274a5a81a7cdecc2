import HandlerWeave.Proofs.Analysis.Collected
import HandlerWeave.Proofs.Discovery.Places
import HandlerWeave.Proofs.Project.Runs

/-!
What a run does to the modules it has read. A module that is neither a script in the outputs nor the
descriptor is as it was. The search for sources leaves out what lies in the outputs, unless their
path leads nowhere before the run; an import can lead there at any time.
-/
namespace HandlerWeave.Project

open FileTree

variable {tree after : FileTree} {directory : String} {o t : Place} {report : Report} {p : Plan}

theorem module_lookup {m : Module} (h : m.FromTree tree) :
    ∃ q contents, tree.lookup true m.path = .ok (.present q (.file contents)) := by
  obtain ⟨text, _, hread, -⟩ := h.parsed
  unfold FileTree.read at hread
  split at hread
  next hlookup => exact ⟨_, _, hlookup⟩
  all_goals cases hread

/-- Where the path of the output led somewhere, it still does so when the output is made. -/
theorem output_spells (hfree : tree.LinkFree) (hplanned : Planned tree directory p) {place : String}
    (hcanonical : tree.canonicalize p.config.output = .ok place)
    (hdirectory : outputDirectory? tree p.output = some o) : Spells p.output o := by
  obtain ⟨made, hmake, hout⟩ := outputDirectory?_iff.1 hdirectory
  have hgrows := makeOutput_grows p.output tree
  rw [hmake] at hgrows
  obtain ⟨o', rfl, hstanding⟩ := canonicalize_sound hcanonical
  have houtput : p.output = o'.path := by
    rw [hplanned.output, outputPlace, hcanonical]
  have hspells : Spells p.output o' := houtput ▸ .of_path hstanding.plain
  have hplace : o = o' := hspells.place_of_lookup (hgrows.linkFree hfree) hout
  exact hplace ▸ hspells

/-- A source is a file, and lies in the outputs only if their path led nowhere and they were there
nevertheless. -/
theorem source_place (hfree : tree.LinkFree) (hnamed : tree.Named PlainName)
    (hplanned : Planned tree directory p) (hdirectory : outputDirectory? tree p.output = some o)
    {path : String} (hpath : path ∈ p.sources) :
    ∃ q contents, tree.lookup true path = .ok (.present q (.file contents)) ∧
      ((∃ place, tree.canonicalize p.config.output = .ok place) ∨ tree.node? o = none →
        ¬ IsScript o q) := by
  obtain ⟨root, hroot, -, hsources⟩ := hplanned.config
  obtain ⟨r, rfl, hstanding⟩ := canonicalize_sound hroot
  obtain ⟨q, hspells, hfile, hwithin⟩ :=
    Discovery.sources_spell hnamed hstanding.plain hsources path hpath
  obtain ⟨q', contents, hlookup⟩ := isFile_iff.1 hfile
  have hplace : q' = q := hspells.place_of_lookup hfree hlookup
  subst hplace
  refine ⟨q', contents, hlookup, ?_⟩
  rintro hled ⟨name, rfl, -⟩
  obtain ⟨place, hcanonical⟩ | hnone := hled
  · have houtput := output_spells hfree hplanned hcanonical hdirectory
    rw [houtput.isWithin hspells] at hwithin
    cases hwithin
  · have hpresent := (lookup_sound hlookup).1.present o (List.prefix_append _ _)
    rw [hnone] at hpresent
    cases hpresent

/-- A run that goes well keeps every module it has read, if the module is neither a script directly
inside the outputs nor the descriptor. The sources are among the modules, and no source is such a
script unless the path of the output led nowhere to a directory that was there. -/
theorem run_keeps_modules (hfree : tree.LinkFree) (hnamed : tree.Named FileName)
    (h : run directory false tree = (.ok report, after)) :
    ∃ p o t old, plan tree directory = .ok p ∧ outputDirectory? tree p.output = some o ∧
      tree.lookup true p.config.template = .ok (.present t (.file old)) ∧
      (∀ m ∈ p.analysis.modules, ∃ q contents,
        tree.lookup true m.path = .ok (.present q (.file contents)) ∧
        (¬ IsScript o q → q ≠ t → after.read m.path = tree.read m.path)) ∧
      ∀ path ∈ p.sources,
        (∃ m ∈ p.analysis.modules, tree.canonicalize path = .ok m.path) ∧
        ∃ q contents, tree.lookup true path = .ok (.present q (.file contents)) ∧
          ((∃ place, tree.canonicalize p.config.output = .ok place) ∨ tree.node? o = none →
            ¬ IsScript o q) := by
  cases run_runs h with
  | @done p _ hplan hrun =>
  have hplanned := plan_planned hplan
  have hplain : tree.Named PlainName := fun place hplace name hname =>
    (hnamed place hplace name hname).toPlainName
  obtain ⟨t, old, hlookup⟩ := hplanned.template
  obtain ⟨o, mid, hdirectory, hreplaced, hhold, heq, -⟩ :=
    execute_done hfree hnamed hplanned hlookup hrun
  obtain ⟨done, hc⟩ := Analysis.addFiles_coherent hplanned.analysis
  refine ⟨p, o, t, old, hplan, hdirectory, hlookup, fun m hm => ?_, fun path hpath => ?_⟩
  · obtain ⟨q, contents, hmodule⟩ := module_lookup (hc.loaded m hm)
    refine ⟨q, contents, hmodule, fun hscript hne => ?_⟩
    have hfile : tree.node? q = some (.file contents) := (lookup_sound hmodule).2
    have hkept : after.node? q = some (.file contents) := by
      rw [heq, node?_set, if_neg fun h => hne h.1]
      obtain hsame | ⟨hnone, -⟩ := hreplaced.others q hscript
      · rw [hsame, hfile]
      · cases hnone.symm.trans hfile
    have hways : Ways tree after := heq ▸ hreplaced.ways.trans (ways_set_of_canHold hhold)
    exact read_of_ways hways hmodule hkept
  · exact ⟨Analysis.addFiles_opened hplanned.analysis path hpath,
      source_place hfree hplain hplanned hdirectory hpath⟩

theorem run_keeps_modules_stale :
    (run "/" false staleTree).2.read "/a.ts" = staleTree.read "/a.ts" := by
  have hnamed : staleTree.Named FileName := named_of_entries (by decide +kernel)
  have hfree : staleTree.LinkFree := linkFree_of_entries (by simp [staleTree, projectTree])
  have hcanonical : staleTree.canonicalize "/a.ts" = .ok "/a.ts" := by
    decide +kernel
  have hdirectory : outputDirectory? staleTree "/out" = some ["out"] := by
    decide +kernel
  obtain ⟨p, report, after, hfound, hp, hrun⟩ := run_found staleTree_run.1 staleTree_run.2
  obtain ⟨p', o, t, old, hfound', ho, hlookup, hmodules, hsources⟩ :=
    run_keeps_modules hfree hnamed hrun
  cases hfound'.symm.trans hfound
  simp only [Prod.mk.injEq] at hp
  obtain ⟨houtput, htemplate, hpaths⟩ := hp
  rw [houtput, hdirectory] at ho
  cases ho
  rw [htemplate] at hlookup
  obtain rfl : t = ["template.yaml"] := place_of_top hfree (by decide) (by decide) hlookup
  obtain ⟨⟨m, hm, hpath⟩, -⟩ := hsources "/a.ts" (by simp [hpaths])
  obtain ⟨q, contents, hmodule, hkept⟩ := hmodules m hm
  rw [← Except.ok.inj (hcanonical.symm.trans hpath)] at hmodule hkept
  obtain rfl : q = ["a.ts"] := place_of_top hfree (by decide) (by decide) hmodule
  rw [hrun]
  exact hkept (by rintro ⟨name, heq, -⟩; simp at heq) (by decide)

/-- A project with a source that imports a type from the output directory. -/
def borrowingTree : FileTree :=
  projectTree "out" [
    (["a.ts"], .file ("import \x7b T \x7d from './out/m'; " ++
      "@LambdaFunction() class A extends ApiHandler<T> \x7b handle() \x7b\x7d \x7d " ++
      "export const a = new A().run;").toUTF8),
    (["out"], .directory),
    (["out", "m.ts"], .file "export interface T \x7b\x7d".toUTF8)]

theorem borrowingTree_run :
    ((plan borrowingTree "/").toOption.map fun p => p.analysis.modules.map (·.path)) =
        some ["/a.ts", "/out/m.ts"] ∧
      (run "/" false borrowingTree).1.isOk = true ∧
      (run "/" false borrowingTree).2.read "/out/m.ts" = .error .notFound := by
  have hroot : borrowingTree.canonicalize "/" = .ok "/" := by
    decide +kernel
  have hconfig : Config.load borrowingTree "/" =
      .ok ⟨"/", "/template.yaml", "/t.json", "/out"⟩ := by
    decide +kernel
  have hlist : borrowingTree.list (Discovery.startOf "/") =
      .ok ["a.ts", "out", "samgen.json", "t.json", "template.yaml"] := by
    decide +kernel
  have hsources : Discovery.sources borrowingTree "/" (outputPlace borrowingTree "/out") =
      .ok ["/a.ts"] := by
    rw [Discovery.sources, Discovery.depthLimit, pathLimit,
      Discovery.below_of_sorted hlist (by decide +kernel)]
    decide +kernel
  rw [run_eq, plan_eq hroot hconfig hsources]
  decide +kernel

/-- The imported module goes with the generated files of earlier runs. -/
theorem modules_not_kept :
    ¬ ∀ (tree after : FileTree) (directory : String) (report : Report) (p : Plan),
      tree.LinkFree → tree.Named FileName → run directory false tree = (.ok report, after) →
      plan tree directory = .ok p →
      ∀ m ∈ p.analysis.modules, after.read m.path = tree.read m.path := by
  intro hkept
  have hnamed : borrowingTree.Named FileName := named_of_entries (by decide +kernel)
  have hfree : borrowingTree.LinkFree := linkFree_of_entries (by simp [borrowingTree, projectTree])
  have hbefore : borrowingTree.read "/out/m.ts" = .ok "export interface T \x7b\x7d" := by
    decide +kernel
  obtain ⟨hplan, hok, hread⟩ := borrowingTree_run
  obtain ⟨p, report, after, hfound, hpaths, hrun⟩ := run_found hplan hok
  rw [hrun] at hread
  have hmem : "/out/m.ts" ∈ p.analysis.modules.map (·.path) := by
    rw [hpaths]
    exact List.mem_cons_of_mem _ (List.mem_singleton_self _)
  obtain ⟨m, hm, hpath⟩ := List.mem_map.1 hmem
  have hsame := hkept _ _ _ _ _ hfree hnamed hrun hfound m hm
  rw [hpath, hread, hbefore] at hsame
  cases hsame

end HandlerWeave.Project
