import HandlerWeave.Proofs.Discovery.Places
import HandlerWeave.Proofs.Project.Plans

/-!
What a run leaves behind. Before it writes, and when it is dry, it has changed nothing. When writing
fails the descriptor is as it was; when all goes well the descriptor and the generated files are
there and everything else is as it was.
-/
namespace HandlerWeave.Project

open FileTree Artifact

variable {tree mid after : FileTree} {directory output : String} {o t place : Place} {dry : Bool}
  {files : List File} {outcome : Except RunError Report} {report : Report}

instance : IsPreorder FileTree Ways where
  refl _ := .refl
  trans _ _ _ := .trans

theorem write_ways {path text : String} (h : tree.write path text = .ok after) :
    Ways tree after := by
  obtain ⟨target, -, hhold, rfl⟩ := write_eq h
  exact ways_set_of_canHold hhold

theorem writes_ways (output : String) (files : List File) : Respects Ways (writes output files) :=
  writes_respects write_ways output files

/-- If no script in the output is a link, all directories and links stay. -/
theorem replaceOutputs_ways {outcome : Except RunError Unit} (hnamed : tree.Named PlainName)
    (hlinks : ∀ o, outputDirectory? tree output = some o → ∀ place, IsScript o place →
      ∀ target, tree.node? place ≠ some (.link target))
    (hrun : replaceOutputs output files tree = (outcome, after)) : Ways tree after := by
  have hgrows := makeOutput_grows output tree
  have hpurged : ∀ {made purged purged?}, Grows tree made →
      makeOutput output tree = (.ok (), made) → purge output made = (purged?, purged) →
      Ways made purged := by
    intro made purged purged? hgrows hmake hpurge
    by_cases hout : ∃ o, made.lookup true output = .ok (.present o .directory)
    case neg =>
      rw [(purge_nothing (not_exists.1 hout) hpurge).1]
      exact .refl
    case pos =>
      obtain ⟨o, hout⟩ := hout
      have hclears := (purge_clears hout (hgrows.named hnamed) hpurge).1
      refine ⟨fun place => hclears.directory, fun place target hnode => ?_⟩
      rw [hclears.kept, hnode]
      intro hplace
      exact hlinks o (outputDirectory?_iff.2 ⟨made, hmake, hout⟩) place hplace.isScript target
        (hgrows.old hnode (by simp))
  cases replaceOutputs_replaces hrun with
  | making hmake =>
      rw [hmake] at hgrows
      exact hgrows.ways
  | purging hmake hpurge =>
      rw [hmake] at hgrows
      exact hgrows.ways.trans (hpurged hgrows hmake hpurge)
  | @writing made purged _ _ hmake hpurge hwrites =>
      rw [hmake] at hgrows
      have hwritten := writes_ways output files purged
      rw [hwrites] at hwritten
      exact (hgrows.ways.trans (hpurged hgrows hmake hpurge)).trans hwritten

theorem read_of_ways {contents : ByteArray} {path : String} (hways : Ways tree after)
    (hlookup : tree.lookup true path = .ok (.present t (.file contents)))
    (hnode : after.node? t = some (.file contents)) : after.read path = tree.read path := by
  have hafter := lookup_of_ways hways hlookup hnode
  simp only [FileTree.read, hlookup, hafter]

/-- Where carrying out a plan fails, the outputs are the last that has been changed. -/
theorem execute_failed {p : Plan} {e : RunError} (h : p.execute tree = (.error e, after)) :
    ∃ outcome, replaceOutputs p.output p.artifacts.files tree = (outcome, after) := by
  obtain ⟨e, hreplace, -⟩ | ⟨_, mid, hreplace, hwrite⟩ := bind_cases h
  · exact ⟨_, hreplace⟩
  · unfold writeFile change at hwrite
    split at hwrite
    · cases hwrite
    · cases hwrite
      exact ⟨_, hreplace⟩

/-- A dry run changes nothing, and neither does one that fails before it writes. Where writing fails
the descriptor is as it was, unless it is a script in the output. It is read as before too, unless a
link among the scripts has led to it. -/
theorem run_all_or_nothing (hnamed : tree.Named PlainName)
    (h : run directory dry tree = (outcome, after)) :
    (dry = true → after = tree) ∧
    (∀ e, outcome = .error e → ¬ e.IsFile → after = tree) ∧
    ∀ e, outcome = .error e → e.IsFile → dry = false ∧
      ∃ p t contents, plan tree directory = .ok p ∧
        tree.lookup true p.config.template = .ok (.present t (.file contents)) ∧
        ((∀ o, outputDirectory? tree p.output = some o → ¬ IsScript o t) →
          after.node? t = some (.file contents) ∧
          ((∀ o, outputDirectory? tree p.output = some o → ∀ place, IsScript o place →
              ∀ target, tree.node? place ≠ some (.link target)) →
            after.read p.config.template = tree.read p.config.template)) := by
  cases run_runs h with
  | unplanned hplan =>
      refine ⟨fun _ => rfl, fun _ _ _ => rfl, ?_⟩
      rintro _ ⟨⟩ hfile
      exact absurd hfile (plan_readFails tree directory _ hplan)
  | dry hplan => exact ⟨fun _ => rfl, fun _ _ _ => rfl, nofun⟩
  | done hplan hrun => exact ⟨nofun, nofun, nofun⟩
  | @failed p e _ hplan hrun =>
      have hplanned := plan_planned hplan
      obtain ⟨t, contents, hlookup⟩ := hplanned.template
      refine ⟨nofun, ?_, ?_⟩
      · rintro _ ⟨⟩ hfile
        exact absurd (execute_fileFails p tree _ _ hrun) hfile
      · rintro _ ⟨⟩ -
        refine ⟨rfl, p, t, contents, hplan, hlookup, fun hscript => ?_⟩
        obtain ⟨_, hreplace⟩ := execute_failed hrun
        have hkeep : after.node? t = some (.file contents) :=
          replaceOutputs_keep hnamed hplanned.scriptNames (lookup_sound hlookup).2 hscript hreplace
        exact ⟨hkeep, fun hlinks =>
          read_of_ways (replaceOutputs_ways hnamed hlinks hreplace) hlookup hkeep⟩

/-- A project with some more entries, which stand before the others in the order of names. -/
def projectTree (output : String) (entries : List (Place × Node)) : FileTree :=
  ⟨entries ++ [
    (["samgen.json"],
      .file ("\x7b\"tsconfig\":\"t.json\",\"output\":\"" ++ output ++ "\"\x7d").toUTF8),
    (["t.json"], .file "\x7b\x7d".toUTF8),
    (["template.yaml"], .file "".toUTF8)]⟩

theorem place_of_top {node : Node} {name path : String} (hfree : tree.LinkFree)
    (hname : PlainName name) (hpath : Place.path [name] = path)
    (hlookup : tree.lookup true path = .ok (.present t node)) : t = [name] := by
  have hspells : Spells path [name] := hpath ▸ .of_path (List.forall_mem_singleton.2 hname)
  exact hspells.place_of_lookup hfree hlookup

theorem template_not_script : ¬ IsScript ["out"] ["template.yaml"] := by
  rintro ⟨name, heq, -⟩
  simp at heq

/-- A project with a directory where the index is to be written. -/
def blockedTree : FileTree :=
  projectTree "out" [(["out"], .directory), (["out", "index.ts"], .directory)]

theorem blockedTree_run :
    ((plan blockedTree "/").toOption.map fun p => (p.output, p.config.template)) =
        some ("/out", "/template.yaml") ∧
      (match (run "/" false blockedTree).1 with
        | .error (.file _ _) => true
        | _ => false) = true := by
  have hroot : blockedTree.canonicalize "/" = .ok "/" := by
    decide +kernel
  have hconfig : Config.load blockedTree "/" =
      .ok ⟨"/", "/template.yaml", "/t.json", "/out"⟩ := by
    decide +kernel
  have hlist : blockedTree.list (Discovery.startOf "/") =
      .ok ["out", "samgen.json", "t.json", "template.yaml"] := by
    decide +kernel
  have hsources : Discovery.sources blockedTree "/" (outputPlace blockedTree "/out") = .ok [] := by
    rw [Discovery.sources, Discovery.depthLimit, pathLimit,
      Discovery.below_of_sorted hlist (by decide +kernel)]
    decide +kernel
  rw [run_eq, plan_eq hroot hconfig hsources]
  decide +kernel

theorem run_all_or_nothing_blocked :
    ∃ e after, run "/" false blockedTree = (.error e, after) ∧ e.IsFile ∧
      after.node? ["template.yaml"] = blockedTree.node? ["template.yaml"] ∧
      after.read "/template.yaml" = blockedTree.read "/template.yaml" := by
  have hnamed : blockedTree.Named PlainName := named_of_entries (by decide +kernel)
  have hdirectory : outputDirectory? blockedTree "/out" = some ["out"] := by
    decide +kernel
  have hlinks : ∀ place target, blockedTree.node? place ≠ some (.link target) :=
    linkFree_of_entries (by simp [blockedTree, projectTree])
  obtain ⟨hplan, hfails⟩ := blockedTree_run
  obtain ⟨p, hfound, hp⟩ := Except.of_toOption_map hplan
  cases hrun : run "/" false blockedTree with
  | mk outcome after =>
  rw [hrun] at hfails
  split at hfails
  next path cause houtcome =>
    subst houtcome
    obtain ⟨-, -, hfile⟩ := run_all_or_nothing hnamed hrun
    obtain ⟨-, p', t, contents, hfound', hlookup, hkeeps⟩ := hfile _ rfl ⟨path, cause, rfl⟩
    cases hfound'.symm.trans hfound
    obtain ⟨houtput, htemplate⟩ := Prod.mk.inj hp
    rw [htemplate] at hlookup hkeeps
    rw [houtput] at hkeeps
    obtain rfl : t = ["template.yaml"] := place_of_top hlinks (by decide) (by decide) hlookup
    obtain ⟨hkept, hread⟩ := hkeeps fun o ho => by
      rw [hdirectory] at ho
      cases ho
      exact template_not_script
    exact ⟨_, after, rfl, ⟨path, cause, rfl⟩, hkept.trans (lookup_sound hlookup).2.symm,
      hread fun _ _ place _ target => hlinks place target⟩
  · cases hfails

/-- The plan and the report of a run that goes well. -/
theorem run_found {β : Type} {f : Plan → β} {w : β}
    (hplan : (plan tree directory).toOption.map f = some w)
    (hok : (run directory false tree).1.isOk = true) :
    ∃ p report after, plan tree directory = .ok p ∧ f p = w ∧
      run directory false tree = (.ok report, after) := by
  obtain ⟨p, hfound, hp⟩ := Except.of_toOption_map hplan
  cases hrun : run directory false tree with
  | mk outcome after =>
  rw [hrun] at hok
  cases outcome with
  | error e => cases hok
  | ok report => exact ⟨p, report, after, hfound, hp, rfl⟩

/-- What becomes of a tree without links in a run that goes well, where `o` is the directory of the
outputs and `t` the place of the descriptor. -/
structure Updated (p : Plan) (o t : Place) (tree after : FileTree) : Prop where
  /-- The scripts directly inside the outputs are the generated files, and those that were there
  with a path longer than the system takes. -/
  scripts : ∀ name contents, Path.hasExtension name "ts" = true →
    (after.node? (o ++ [name]) = some (.file contents) ↔
      (∃ f, lastOfName? p.artifacts.files name = some f ∧ contents = f.contents.toUTF8) ∨
      lastOfName? p.artifacts.files name = none ∧
        tree.node? (o ++ [name]) = some (.file contents) ∧
        pathLimit < (Path.join p.output name).utf8ByteSize)
  descriptor : after.read p.config.template = .ok p.artifacts.descriptor
  /-- Everything else stays, and directories may have been made where nothing was. -/
  others : ∀ place, ¬ IsScript o place → place ≠ t → after.node? place = tree.node? place ∨
    tree.node? place = none ∧ after.node? place = some .directory
  ways : Ways tree after

/-- A plan that is carried out replaces the outputs, and then the descriptor. -/
theorem execute_done {p : Plan} {old : ByteArray} (hfree : tree.LinkFree)
    (hnamed : tree.Named FileName) (hplanned : Planned tree directory p)
    (hlookup : tree.lookup true p.config.template = .ok (.present t (.file old)))
    (h : p.execute tree = (.ok (), after)) :
    ∃ o mid, outputDirectory? tree p.output = some o ∧
      Replaced o p.output p.artifacts.files tree mid ∧ mid.CanHold t ∧
      after = mid.set t (.file p.artifacts.descriptor.toUTF8) ∧
      after.read p.config.template = .ok p.artifacts.descriptor := by
  obtain ⟨_, mid, hreplace, hwrite⟩ := bind_ok h
  obtain ⟨o, hdirectory, hreplaced, hmid⟩ :=
    replaceOutputs_replaced hfree hnamed hplanned.scriptNames hreplace
  have hfile : tree.node? t = some (.file old) := (lookup_sound hlookup).2
  have hhold : mid.CanHold t := by
    intro node hnode
    cases node with
    | file contents => exact ⟨contents, rfl⟩
    | directory =>
        obtain hold | hnone := hreplaced.directories t hnode
        · cases hold.symm.trans hfile
        · cases hnone.symm.trans hfile
    | link target => exact absurd hnode (hmid t target)
  have hlookup' := lookup_at_of_ways hreplaced.ways hlookup fun _ => hhold
  unfold writeFile change at hwrite
  split at hwrite
  next written hwritten =>
    cases hwrite
    obtain ⟨target, htarget, -, heq⟩ := write_eq hwritten
    have hplace : target = Target.at mid t := Except.ok.inj (htarget.symm.trans hlookup')
    have ht : target.place = t := by
      rw [hplace, Target.at]
      split <;> rfl
    exact ⟨o, mid, hdirectory, hreplaced, hhold, ht ▸ heq, read_write hwritten⟩
  · cases hwrite

/-- A run that goes well replaces the scripts directly inside the outputs and the descriptor, and
nothing else. -/
theorem run_updated (hfree : tree.LinkFree) (hnamed : tree.Named FileName)
    (h : run directory false tree = (.ok report, after)) :
    ∃ p o t old, plan tree directory = .ok p ∧ report = p.report true ∧
      outputDirectory? tree p.output = some o ∧
      tree.lookup true p.config.template = .ok (.present t (.file old)) ∧
      (¬ IsScript o t → Updated p o t tree after) := by
  cases run_runs h with
  | @done p _ hplan hrun =>
  have hplanned := plan_planned hplan
  obtain ⟨t, old, hlookup⟩ := hplanned.template
  obtain ⟨o, mid, hdirectory, hreplaced, hhold, heq, hread⟩ :=
    execute_done hfree hnamed hplanned hlookup hrun
  refine ⟨p, o, t, old, hplan, rfl, hdirectory, hlookup, fun hscript => ?_⟩
  have hnode : ∀ place, place ≠ t → after.node? place = mid.node? place := by
    intro place hne
    rw [heq, node?_set, if_neg fun h => hne h.1]
  refine ⟨fun name contents hextension => ?_, hread, fun place hplace hne => ?_, ?_⟩
  · rw [hnode, hreplaced.scripts name contents hextension]
    rintro rfl
    exact hscript ⟨name, rfl, hextension⟩
  · rw [hnode place hne]
    exact hreplaced.others place hplace
  · exact heq ▸ hreplaced.ways.trans (ways_set_of_canHold hhold)

/-- A project with one source and a file of an earlier run. -/
def staleTree : FileTree :=
  projectTree "out" [(["a.ts"], .file "".toUTF8), (["out"], .directory),
    (["out", "old.ts"], .file "".toUTF8)]

theorem staleTree_run :
    ((plan staleTree "/").toOption.map fun p => (p.output, p.config.template, p.sources)) =
        some ("/out", "/template.yaml", ["/a.ts"]) ∧
      (run "/" false staleTree).1.isOk = true := by
  have hroot : staleTree.canonicalize "/" = .ok "/" := by
    decide +kernel
  have hconfig : Config.load staleTree "/" = .ok ⟨"/", "/template.yaml", "/t.json", "/out"⟩ := by
    decide +kernel
  have hlist : staleTree.list (Discovery.startOf "/") =
      .ok ["a.ts", "out", "samgen.json", "t.json", "template.yaml"] := by
    decide +kernel
  have hsources : Discovery.sources staleTree "/" (outputPlace staleTree "/out") =
      .ok ["/a.ts"] := by
    rw [Discovery.sources, Discovery.depthLimit, pathLimit,
      Discovery.below_of_sorted hlist (by decide +kernel)]
    decide +kernel
  rw [run_eq, plan_eq hroot hconfig hsources]
  decide +kernel

theorem run_updated_stale :
    ∃ p report after, run "/" false staleTree = (.ok report, after) ∧
      Updated p ["out"] ["template.yaml"] staleTree after := by
  have hnamed : staleTree.Named FileName := named_of_entries (by decide +kernel)
  have hfree : staleTree.LinkFree := linkFree_of_entries (by simp [staleTree, projectTree])
  have hdirectory : outputDirectory? staleTree "/out" = some ["out"] := by
    decide +kernel
  obtain ⟨p, report, after, hfound, hp, hrun⟩ := run_found staleTree_run.1 staleTree_run.2
  obtain ⟨p', o, t, old, hfound', -, ho, hlookup, hupdated⟩ := run_updated hfree hnamed hrun
  cases hfound'.symm.trans hfound
  simp only [Prod.mk.injEq] at hp
  obtain ⟨houtput, htemplate, -⟩ := hp
  rw [houtput, hdirectory] at ho
  cases ho
  rw [htemplate] at hlookup
  obtain rfl : t = ["template.yaml"] := place_of_top hfree (by decide) (by decide) hlookup
  exact ⟨p, report, after, hrun, hupdated template_not_script⟩

end HandlerWeave.Project
