import HandlerWeave.Proofs.Project.Replanning

/-!
Runs made twice. In a tree without links a plan can be carried out again where it has been carried
out, and nothing is changed by it but scripts of earlier runs that only the first run could not
reach. So a second run goes well, reports what the first one did and leaves every other file as it
is.
-/
namespace HandlerWeave

open FileTree

namespace FileTree

variable {tree after : FileTree} {o place : Place} {path : String} {names : List String}
  {target : Target} {contents : ByteArray}

theorem Walks.unfollowed (hfree : tree.LinkFree)
    (h : Walks tree true place names (.reached target)) :
    Walks tree false place names (.reached target) := by
  generalize hend : Stop.reached target = stop at h
  induction h with
  | nil =>
      cases hend
      exact .nil
  | here _ ih => exact .here (ih hend)
  | up _ ih => exact .up (ih hend)
  | free hname hnode =>
      cases hend
      exact .free hname hnode
  | file hname hnode =>
      cases hend
      exact .file hname hnode
  | directory hname hnode _ ih => exact .directory hname hnode (ih hend)
  | lastLink _ _ hfollow => cases hfollow
  | link _ hnode _ => exact absurd hnode (hfree _ _)

theorem LinkFree.erase (h : tree.LinkFree) : (tree.erase place).LinkFree := by
  intro other target hnode
  rw [node?_erase] at hnode
  split at hnode
  · cases hnode
  · exact h other target hnode

/-- Without links every file can be removed. -/
theorem remove_isFile (hfree : tree.LinkFree) (hfile : tree.isFile path = true) :
    ∃ after, tree.remove path = .ok after ∧ after.LinkFree := by
  obtain ⟨place, contents, hlookup⟩ := Project.isFile_iff.1 hfile
  obtain ⟨hpath, hleads⟩ := lookup_iff.1 hlookup
  have hplain : tree.lookup false path = .ok (.present place (.file contents)) :=
    lookup_iff.2 ⟨hpath, .stop ((hleads.walks hfree).unfollowed hfree)⟩
  refine ⟨tree.erase place, ?_, hfree.erase⟩
  rw [remove, hplain]

theorem dropSlashes_path (hplain : ∀ name ∈ place, PlainName name) :
    dropSlashes (Place.path place) = Place.path place := by
  obtain rfl | ⟨front, name, rfl⟩ := List.eq_nil_or_concat' place
  · decide
  · obtain ⟨hfront, hname⟩ := List.forall_mem_append.1 hplain
    have hlast := List.forall_mem_singleton.1 hname
    rw [Place.path_concat hfront hlast]
    exact dropSlashes_eq (getLast?_join_ne_slash _ hlast)

/-- A file can be written to a place in a directory that can be reached. -/
theorem write_path {text name : String} (hreach : Reachable (o ++ [name]))
    (hplace : tree.Passable o) (hhold : tree.CanHold (o ++ [name])) :
    tree.write (Path.join (Place.path o) name) text =
      .ok (tree.set (o ++ [name]) (.file text.toUTF8)) := by
  obtain ⟨hfront, hname⟩ := List.forall_mem_append.1 hreach.plain
  have hlookup : tree.lookup true (Place.path (o ++ [name])) = .ok (Target.at tree (o ++ [name])) :=
    lookup_entry hreach hplace hhold
  rw [Place.path_concat hfront (List.forall_mem_singleton.1 hname)] at hlookup
  rw [write, writeBytes, hlookup, Target.at]
  cases hnode : tree.node? (o ++ [name]) with
  | none => rfl
  | some node =>
      obtain ⟨contents, rfl⟩ := hhold node hnode
      rfl

end FileTree

namespace Project

variable {tree made mid after : FileTree} {output : String} {o t place : Place} {p : Plan}
  {files : List Artifact.File} {old : ByteArray}

theorem purgeNames_ok (output : String) (hfree : tree.LinkFree) (names : List String) :
    ∃ after, purgeNames output names tree = (.ok PUnit.unit, after) := by
  induction names generalizing tree with
  | nil => exact ⟨tree, rfl⟩
  | cons name names ih =>
      obtain ⟨mid, hname, hfree'⟩ : ∃ mid, purgeName output name tree = (.ok (), mid) ∧
          mid.LinkFree := by
        rw [purgeName_run]
        split
        next hstale =>
          rw [isStale, Bool.and_eq_true] at hstale
          obtain ⟨mid, hremove, hfree'⟩ := remove_isFile hfree hstale.1
          exact ⟨mid, by rw [change, hremove], hfree'⟩
        · exact ⟨tree, rfl, hfree⟩
      obtain ⟨after, hafter⟩ := ih hfree'
      refine ⟨after, ?_⟩
      rw [purgeNames, List.forIn_cons, bind_run, bind_run, hname]
      exact hafter

/-- Without links the purge goes well. -/
theorem purge_ok (hfree : made.LinkFree)
    (hout : made.lookup true output = .ok (.present o .directory)) :
    ∃ after, purge output made = (.ok (), after) := by
  obtain ⟨after, hafter⟩ := purgeNames_ok output hfree (made.names o)
  refine ⟨after, ?_⟩
  rw [purge_run hout, bind_run, hafter]
  rfl

theorem writes_ok (hplace : tree.Passable o)
    (hfiles : ∀ f ∈ files, Reachable (o ++ [f.name]) ∧ tree.CanHold (o ++ [f.name])) :
    ∃ after, writes (Place.path o) files tree = (.ok PUnit.unit, after) := by
  induction files generalizing tree with
  | nil => exact ⟨tree, rfl⟩
  | cons f files ih =>
      obtain ⟨⟨hreach, hhold⟩, hrest⟩ := List.forall_mem_cons.1 hfiles
      rw [writes_run, write_path hreach hplace hhold]
      exact ih (hplace.of_ways (ways_set_of_canHold hhold)) fun g hg =>
        ⟨(hrest g hg).1, (hrest g hg).2.set⟩

theorem makeOutput_present (hplain : tree.Plain) (hreach : Reachable o)
    (hdirectory : tree.node? o = some .directory) :
    makeOutput (Place.path o) tree = (.ok (), tree) := by
  have hlookup : tree.lookup false (dropSlashes (Place.path o)) = .ok (.present o .directory) := by
    rw [dropSlashes_path hreach.plain, hplain.lookup_path hreach hdirectory]
  rw [makeOutput, makeAll_present hlookup (hplain.lookup_path hreach hdirectory)]

theorem exists_lastOfName? {f : Artifact.File} (hf : f ∈ files) :
    ∃ g, lastOfName? files f.name = some g := by
  rw [← Option.isSome_iff_exists, lastOfName?, List.find?_isSome]
  exact ⟨f, List.mem_reverse.2 hf, by simp⟩

/-- A script that was in the outputs and is not generated. The system takes its path, and not the
one that the path of the output made of it. -/
structure Overlong (p : Plan) (o : Place) (tree : FileTree) (place : Place) : Prop where
  left : ∃ name contents, place = o ++ [name] ∧ Path.hasExtension name "ts" = true ∧
    (∀ f ∈ p.artifacts.files, f.name ≠ name) ∧ tree.node? place = some (.file contents) ∧
    pathLimit < (Path.join p.output name).utf8ByteSize
  size_le : (Place.path place).utf8ByteSize ≤ pathLimit

namespace CarriedOut

variable (h : CarriedOut p o t tree after)

include h

theorem generated {name : String} {f : Artifact.File}
    (hextension : Path.hasExtension name "ts" = true)
    (hf : lastOfName? p.artifacts.files name = some f) :
    after.node? (o ++ [name]) = some (.file f.contents.toUTF8) :=
  (h.scripts name _ hextension).2 (.inl ⟨f, hf, rfl⟩)

theorem reachable_output (habsolute : Path.isAbsolute p.output = true) : Reachable o :=
  .of_absolute h.plain'.linkFree habsolute h.output

/-- What has been written can be reached. -/
theorem reachable_file (habsolute : Path.isAbsolute p.output = true)
    (hscripts : ScriptNames p.artifacts.files) {f : Artifact.File} (hf : f ∈ p.artifacts.files) :
    Reachable (o ++ [f.name]) := by
  obtain ⟨g, hg⟩ := exists_lastOfName? hf
  have hnode := h.generated (hscripts f hf).2 hg
  have hname : FileName f.name := h.plain'.named _ (by rw [hnode]; rfl) _ (by simp)
  have hlookup : after.lookup true (Path.join p.output f.name) = .ok _ :=
    lookup_join_of h.plain'.linkFree hname.toPlainName hname.isEntry hname.no_nul h.output hnode
      (h.sizes f hf)
  exact .of_absolute h.plain'.linkFree (Path.isAbsolute_join habsolute) hlookup

/-- What the purge takes away and the writes do not bring back is overlong. -/
theorem node_again {purged written : FileTree} (hscripts : ScriptNames p.artifacts.files)
    (hclears : Cleared (Place.path o) o after purged)
    (hnames : ∀ name, written.node? (o ++ [name]) =
      ((lastOfName? p.artifacts.files name).map fun f => .file f.contents.toUTF8).or
        (purged.node? (o ++ [name])))
    (hothers : ∀ place, (∀ name, place ≠ o ++ [name]) → written.node? place = purged.node? place)
    (hplace : ¬ Overlong p o tree place) : written.node? place = after.node? place := by
  by_cases hscript : IsScript o place
  case neg =>
    rw [← hclears.kept fun hremovable => hscript hremovable.isScript]
    by_cases hinside : ∃ name, place = o ++ [name]
    · obtain ⟨name, rfl⟩ := hinside
      have hextension : Path.hasExtension name "ts" = false := by
        simpa using fun hextension => hscript ⟨name, rfl, hextension⟩
      rw [hnames, lastOfName?_eq_none hscripts hextension]
      rfl
    · exact hothers place (not_exists.1 hinside)
  case pos =>
    obtain ⟨name, rfl, hextension⟩ := hscript
    rw [hnames]
    cases hlast : lastOfName? p.artifacts.files name with
    | some f => exact (h.generated hextension hlast).symm
    | none =>
        obtain heq | ⟨⟨name', heq, -, hsize⟩, hnode, hnone⟩ := hclears (o ++ [name])
        · exact heq
        obtain rfl : name = name' := by simpa using heq
        refine hnone.trans (Eq.symm ?_)
        cases hafter : after.node? (o ++ [name]) with
        | none => rfl
        | some node =>
            cases node with
            | directory => exact absurd hafter hnode
            | link target => exact absurd hafter (h.plain'.linkFree _ _)
            | file contents =>
                obtain ⟨f, hf, -⟩ | ⟨-, hold, hlong⟩ :=
                  (h.scripts name contents hextension).1 hafter
                · cases hf.symm.trans hlast
                have hplain : ∀ other ∈ o ++ [name], PlainName other := fun other hother =>
                  (h.plain'.named _ (by rw [hafter]; rfl) other hother).toPlainName
                obtain ⟨ho, hname⟩ := List.forall_mem_append.1 hplain
                rw [← Place.path_concat ho (List.forall_mem_singleton.1 hname)] at hsize
                refine absurd ⟨⟨name, contents, rfl, hextension, fun f hf heq => ?_, hold, hlong⟩,
                  hsize⟩ hplace
                rw [lastOfName?, List.find?_eq_none] at hlast
                exact hlast f (List.mem_reverse.2 hf) (by simpa using heq)

/-- The outputs can be replaced again, by the path of their place, and only overlong scripts go. -/
theorem replaceOutputs_again (habsolute : Path.isAbsolute p.output = true)
    (hscripts : ScriptNames p.artifacts.files) :
    ∃ written, replaceOutputs (Place.path o) p.artifacts.files after = (.ok (), written) ∧
      Ways after written ∧
      ∀ place, ¬ Overlong p o tree place → written.node? place = after.node? place := by
  have hreach := h.reachable_output habsolute
  have hdirectory : after.node? o = some .directory := (lookup_sound h.output).2
  have hnamed : after.Named PlainName := fun place hplace name hname =>
    (h.plain'.named place hplace name hname).toPlainName
  have hout : after.lookup true (Place.path o) = .ok (.present o .directory) :=
    h.plain'.lookup_path hreach hdirectory
  have hmake := makeOutput_present h.plain' hreach hdirectory
  obtain ⟨purged, hpurge⟩ := purge_ok h.plain'.linkFree hout
  have hclears := (purge_clears hout hnamed hpurge).1
  have hcleared := hclears.ways_of_linkFree h.plain'.linkFree
  have hhold : ∀ f ∈ p.artifacts.files, purged.CanHold (o ++ [f.name]) := by
    intro f hf node hnode
    obtain ⟨g, hg⟩ := exists_lastOfName? hf
    exact ⟨_, Option.some.inj ((hclears.node hnode).symm.trans (h.generated (hscripts f hf).2 hg))⟩
  obtain ⟨written, hwrites⟩ := writes_ok ((h.plain'.passable hdirectory).of_ways hcleared)
    fun f hf => ⟨h.reachable_file habsolute hscripts hf, hhold f hf⟩
  have hout' := lookup_of_ways hcleared hout (hclears.directory hdirectory)
  obtain ⟨-, hways, hnames, hothers⟩ :=
    writes_exact (hclears.linkFree h.plain'.linkFree) hout' hscripts hwrites
  refine ⟨written, ?_, hcleared.trans hways, fun place =>
    h.node_again hscripts hclears hnames hothers⟩
  rw [replaceOutputs, bind_run, hmake]
  change (purge (Place.path o) >>= _ : RunM Unit) after = _
  rw [bind_run, hpurge]
  change (writes (Place.path o) p.artifacts.files >>= _ : RunM Unit) purged = _
  rw [bind_run, hwrites]
  rfl

/-- A plan can be carried out again, with the output by the path of its place, and leaves all but
overlong scripts as they are. -/
theorem execute_again (habsolute : Path.isAbsolute p.output = true)
    (hscripts : ScriptNames p.artifacts.files) (hscript : ¬ IsScript o t)
    (htemplate : tree.lookup true p.config.template = .ok (.present t (.file old))) :
    ∃ later, ({ p with output := Place.path o } : Plan).execute after = (.ok (), later) ∧
      ∀ place, ¬ Overlong p o tree place → later.node? place = after.node? place := by
  obtain ⟨written, hreplace, hways, hsame⟩ := h.replaceOutputs_again habsolute hscripts
  obtain ⟨contents, hnode, hlookup⟩ := h.lookup_file htemplate hscript
  have hnode' : written.node? t = some (.file contents) := by
    rw [hsame t, hnode]
    rintro ⟨⟨name, _, heq, hextension, -⟩, -⟩
    exact hscript ⟨name, heq, hextension⟩
  have hwrite : written.write p.config.template p.artifacts.descriptor =
      .ok (written.set t (.file p.artifacts.descriptor.toUTF8)) := by
    rw [write, writeBytes, lookup_of_ways hways hlookup hnode']
  refine ⟨written.set t (.file p.artifacts.descriptor.toUTF8), ?_, fun place hplace => ?_⟩
  · rw [Plan.execute, bind_run, hreplace]
    change writeFile p.config.template p.artifacts.descriptor written = _
    rw [writeFile, change, hwrite]
  · rw [node?_set]
    split
    next heq => rw [heq.1, h.descriptor]
    · exact hsame place hplace

end CarriedOut

/-- A run that goes well has a plan, a place for its outputs and one for the descriptor. If no
module read lies in the outputs, what is read stands apart from what is written, no handler has the
name of a resource that merges leave alone, and the descriptor is read back as the document it was
written from, then a second run goes well, has the same plan and report with the output by the path
of its place, and leaves all files as they are. Scripts that only the first run could not reach are
left out. -/
theorem run_again {directory : String} {report : Report} (hplain : tree.Plain)
    (hrun : run directory false tree = (.ok report, after)) :
    ∃ p root options document o t old, MadeOf tree directory p root options document ∧
      outputDirectory? tree p.output = some o ∧
      tree.lookup true p.config.template = .ok (.present t (.file old)) ∧
      (Apart tree p o t → Descriptor.NamesFree p.analysis.handlers document →
        Yaml.read (Yaml.write (p.merged root options document)) =
          .ok (p.merged root options document) →
        ∃ later, plan after directory = .ok { p with output := Place.path o } ∧
          run directory false after = (.ok { report with output := Place.path o }, later) ∧
          ∀ place, ¬ Overlong p o tree place → later.node? place = after.node? place) := by
  cases run_runs hrun with
  | @done p _ hplan hexecute =>
  have hplanned := plan_planned hplan
  obtain ⟨root, options, document, hmade⟩ := plan_iff.1 hplan
  obtain ⟨t, old, htemplate⟩ := hplanned.template
  obtain ⟨o, -, hdirectory, -⟩ :=
    execute_done hplain.linkFree hplain.named hplanned htemplate hexecute
  refine ⟨p, root, options, document, o, t, old, hmade, hdirectory, htemplate,
    fun hapart hnames hmerged => ?_⟩
  have hdone := execute_carriedOut hplain hplanned hmade.absolute.2 hdirectory htemplate
    hapart.template hexecute
  obtain ⟨later, hlater, hsame⟩ := hdone.execute_again hmade.absolute.2 hplanned.scriptNames
    hapart.template htemplate
  have hagain := plan_iff.2 ⟨_, _, _, hmade.again hdone hapart hnames hmerged htemplate⟩
  refine ⟨later, hagain, ?_, hsame⟩
  rw [run_eq, hagain]
  simp only [Bool.false_eq_true, if_false, hlater]
  rfl

theorem MadeOf.unique {directory root root' : String} {options options' : CompilerOptions}
    {document document' : Yaml} (h : MadeOf tree directory p root options document)
    (h' : MadeOf tree directory p root' options' document') :
    root = root' ∧ options = options' ∧ document = document' :=
  ⟨Except.ok.inj (h.canonical.symm.trans h'.canonical),
    Except.ok.inj (h.compiler.symm.trans h'.compiler),
    Except.ok.inj (h.descriptor.symm.trans h'.descriptor)⟩

/-- What a plan is made of where the compiler is given no options. -/
theorem madeOf_of_plan {directory : String} {config : Config} {document : Yaml}
    (hplan : plan tree directory = .ok p) (hconfig : p.config = config)
    (hcompiler : (CompilerOptions.load tree config.tsconfig).toOption.any
      (fun o => o.target.isNone && o.sourceMap.isNone) = true)
    (hdocument : (loadDescriptor tree config.template).toOption.any
      (Yaml.agrees · document) = true) :
    MadeOf tree directory p config.root {} document := by
  obtain ⟨root, options, document', hmade⟩ := plan_iff.1 hplan
  subst hconfig
  rw [hmade.compiler] at hcompiler
  rw [hmade.descriptor] at hdocument
  obtain rfl : document' = document := Yaml.eq_of_agrees hdocument
  obtain ⟨target, sourceMap⟩ := options
  obtain ⟨htarget, hsourceMap⟩ := Bool.and_eq_true_iff.1 hcompiler
  obtain rfl := Option.isNone_iff_eq_none.1 htarget
  obtain rfl := Option.isNone_iff_eq_none.1 hsourceMap
  exact hmade.config_root ▸ hmade

/-- A project with one handler and no outputs yet. -/
def freshTree : FileTree :=
  projectTree "out" [
    (["a.ts"], .file ("interface T \x7b\x7d " ++
      "@LambdaFunction() class A extends ApiHandler<T> \x7b handle() \x7b\x7d \x7d " ++
      "export const a = new A().run;").toUTF8)]

theorem freshTree_run :
    ((plan freshTree "/").toOption.map fun p =>
        (p.config, p.output, p.analysis.modules.map (·.path), p.analysis.handlers.map (·.name),
          Yaml.readsBack (p.merged "/" {} .null))) =
        some (⟨"/", "/template.yaml", "/t.json", "/out"⟩, "/out", ["/a.ts"], ["A"], true) ∧
      (run "/" false freshTree).1.isOk = true := by
  have hroot : freshTree.canonicalize "/" = .ok "/" := by
    decide +kernel
  have hconfig : Config.load freshTree "/" =
      .ok ⟨"/", "/template.yaml", "/t.json", "/out"⟩ := by
    decide +kernel
  have hlist : freshTree.list (Discovery.startOf "/") =
      .ok ["a.ts", "samgen.json", "t.json", "template.yaml"] := by
    decide +kernel
  have hsources : Discovery.sources freshTree "/" (outputPlace freshTree "/out") =
      .ok ["/a.ts"] := by
    rw [Discovery.sources, Discovery.depthLimit, pathLimit,
      Discovery.below_of_sorted hlist (by decide +kernel)]
    decide +kernel
  rw [run_eq, plan_eq hroot hconfig hsources]
  decide +kernel

theorem run_again_fresh :
    ∃ p report after later, plan freshTree "/" = .ok p ∧
      p.analysis.handlers.map (·.name) = ["A"] ∧ run "/" false freshTree = (.ok report, after) ∧
      run "/" false after = (.ok { report with output := "/out" }, later) ∧
      ∀ place, later.node? place = after.node? place := by
  have hplain : freshTree.Plain := plain_of_entries (by decide +kernel) (by decide +kernel)
    (by simp [freshTree, projectTree]) (by decide +kernel)
  have hdirectory : outputDirectory? freshTree "/out" = some ["out"] := by
    decide +kernel
  have hcompiler : (CompilerOptions.load freshTree "/t.json").toOption.any
      (fun o => o.target.isNone && o.sourceMap.isNone) = true := by
    decide +kernel
  have hdocument : (loadDescriptor freshTree "/template.yaml").toOption.any
      (Yaml.agrees · .null) = true := by
    decide +kernel
  obtain ⟨p, report, after, hplan, hp, hrun⟩ := run_found freshTree_run.1 freshTree_run.2
  simp only [Prod.mk.injEq] at hp
  obtain ⟨hconfig, houtput, hmodules, hhandlers, hreads⟩ := hp
  obtain ⟨p', root, options, document, o, t, old, hmade, hdirectory', htemplate, hsecond⟩ :=
    run_again hplain hrun
  obtain rfl : p' = p := Except.ok.inj ((plan_iff.2 ⟨_, _, _, hmade⟩).symm.trans hplan)
  obtain ⟨rfl, rfl, rfl⟩ :=
    hmade.unique (madeOf_of_plan hplan hconfig hcompiler hdocument)
  obtain rfl : o = ["out"] := by
    rw [houtput, hdirectory] at hdirectory'
    exact (Option.some.inj hdirectory').symm
  obtain rfl : t = ["template.yaml"] := by
    rw [hconfig] at htemplate
    exact place_of_top hplain.linkFree (by decide) (by decide) htemplate
  have hapart : Apart freshTree p' ["out"] ["template.yaml"] := by
    refine ⟨template_not_script, fun s node hlookup => ?_, fun s node hlookup => ?_,
      fun m hm q node hlookup => ?_⟩
    · rw [hconfig] at hlookup
      obtain rfl : s = ["samgen.json"] :=
        place_of_top hplain.linkFree (by decide) (by decide) hlookup
      decide
    · rw [hconfig] at hlookup
      obtain rfl : s = ["t.json"] := place_of_top hplain.linkFree (by decide) (by decide) hlookup
      exact ⟨by rintro ⟨name, heq, -⟩; simp at heq, by decide⟩
    · have hpath : m.path ∈ ["/a.ts"] := hmodules ▸ List.mem_map_of_mem hm
      rw [List.mem_singleton.1 hpath] at hlookup
      obtain rfl : q = ["a.ts"] := place_of_top hplain.linkFree (by decide) (by decide) hlookup
      decide
  have hnames : Descriptor.NamesFree p'.analysis.handlers .null := by
    intro resources hresources
    cases hresources
  obtain ⟨later, -, hagain, hsame⟩ := hsecond hapart hnames (Yaml.read_write_of_readsBack hreads)
  refine ⟨p', report, after, later, hplan, hhandlers, hrun, hagain, fun place => hsame place ?_⟩
  rintro ⟨⟨name, contents, rfl, -, -, hnode, -⟩, -⟩
  have hmem := mem_entries_of_node hnode (by simp)
  simp [freshTree, projectTree] at hmem

/-- A project with one file for the descriptor and the configuration of the compiler. -/
def sharedTree : FileTree :=
  ⟨[(["samgen.json"], .file
      "\x7b\"template\":\"t.json\",\"tsconfig\":\"t.json\",\"output\":\"out\"\x7d".toUTF8),
    (["t.json"], .file "\x7b\x7d".toUTF8)]⟩

theorem sharedTree_run :
    ((plan sharedTree "/").toOption.map fun p =>
        (p.config, p.output, p.analysis.modules.map (·.path), p.analysis.handlers.map (·.name),
          Yaml.readsBack (p.merged "/" {} (.mapping [])))) =
        some (⟨"/", "/t.json", "/t.json", "/out"⟩, "/out", [], [], true) ∧
      (run "/" false sharedTree).1.isOk = true ∧
      (run "/" false (run "/" false sharedTree).2).1.isOk = false := by
  have hroot : sharedTree.canonicalize "/" = .ok "/" := by
    decide +kernel
  have hconfig : Config.load sharedTree "/" = .ok ⟨"/", "/t.json", "/t.json", "/out"⟩ := by
    decide +kernel
  have hlist : sharedTree.list (Discovery.startOf "/") = .ok ["samgen.json", "t.json"] := by
    decide +kernel
  have hsources : Discovery.sources sharedTree "/" (outputPlace sharedTree "/out") = .ok [] := by
    rw [Discovery.sources, Discovery.depthLimit, pathLimit,
      Discovery.below_of_sorted hlist (by decide +kernel)]
    decide +kernel
  rw [run_eq "/" false sharedTree, plan_eq hroot hconfig hsources]
  decide +kernel

/-- A run can take the configuration away from the next one. -/
theorem runs_not_repeated :
    ¬ ∀ (tree after : FileTree) (directory root : String) (p : Plan) (options : CompilerOptions)
        (document : Yaml) (report : Report) (o t : Place) (old : ByteArray),
      tree.Plain → MadeOf tree directory p root options document →
      run directory false tree = (.ok report, after) → outputDirectory? tree p.output = some o →
      tree.lookup true p.config.template = .ok (.present t (.file old)) → ¬ IsScript o t →
      (∀ m ∈ p.analysis.modules, ∀ q node,
        tree.lookup true m.path = .ok (.present q node) → ¬ o <+: q) →
      Descriptor.NamesFree p.analysis.handlers document →
      Yaml.read (Yaml.write (p.merged root options document)) =
        .ok (p.merged root options document) →
      ∃ again later, run directory false after = (.ok again, later) ∧
        again.handlers = report.handlers ∧ again.diagnostics = report.diagnostics ∧
        ∀ place, later.node? place = after.node? place := by
  intro hrepeated
  have hplain : sharedTree.Plain := plain_of_entries (by decide +kernel) (by decide +kernel)
    (by simp [sharedTree]) (by decide +kernel)
  have hdirectory : outputDirectory? sharedTree "/out" = some ["out"] := by
    decide +kernel
  have hcompiler : (CompilerOptions.load sharedTree "/t.json").toOption.any
      (fun o => o.target.isNone && o.sourceMap.isNone) = true := by
    decide +kernel
  have hdocument : (loadDescriptor sharedTree "/t.json").toOption.any
      (Yaml.agrees · (.mapping [])) = true := by
    decide +kernel
  obtain ⟨hplanned, hok, hfails⟩ := sharedTree_run
  obtain ⟨p, report, after, hplan, hp, hrun⟩ := run_found hplanned hok
  simp only [Prod.mk.injEq] at hp
  obtain ⟨hconfig, houtput, hmodules, hhandlers, hreads⟩ := hp
  have hmade : MadeOf sharedTree "/" p "/" {} (.mapping []) :=
    madeOf_of_plan hplan hconfig hcompiler hdocument
  obtain ⟨t, old, htemplate⟩ := (plan_planned hplan).template
  obtain rfl : t = ["t.json"] := by
    rw [hconfig] at htemplate
    exact place_of_top hplain.linkFree (by decide) (by decide) htemplate
  have hnames : Descriptor.NamesFree p.analysis.handlers (.mapping []) := by
    intro resources hresources
    simp [Descriptor.resources?, Yaml.member?, Yaml.untagged, Yaml.find?] at hresources
  have hoff : outputDirectory? sharedTree p.output = some ["out"] := by
    rw [houtput, hdirectory]
  have hscript : ¬ IsScript ["out"] ["t.json"] := by
    rintro ⟨name, heq, -⟩
    simp at heq
  obtain ⟨again, later, hagain, -⟩ := hrepeated _ _ _ _ _ _ _ _ _ _ _ hplain hmade hrun
    hoff htemplate hscript
    (fun m hm => by simp [List.map_eq_nil_iff.1 hmodules] at hm) hnames
    (Yaml.read_write_of_readsBack hreads)
  rw [hrun, hagain] at hfails
  cases hfails

end Project

end HandlerWeave
