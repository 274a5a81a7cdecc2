import HandlerWeave.Proofs.Project.Builds
import HandlerWeave.Proofs.Project.Renewal
import HandlerWeave.Proofs.Project.Runs

/-!
What is left of a tree without links when a plan has been carried out. The path of the output leads
to the outputs, all that was written there has a path that the system takes, and what is neither a
script there nor the descriptor has not changed.
-/
namespace HandlerWeave.Project

open FileTree

variable {tree mid after : FileTree} {directory output : String} {o t : Place} {p : Plan}
  {files : List Artifact.File} {old : ByteArray}

structure CarriedOut (p : Plan) (o t : Place) (tree after : FileTree) : Prop
    extends Renews o tree after where
  output : after.lookup true p.output = .ok (.present o .directory)
  scripts : ∀ name contents, Path.hasExtension name "ts" = true →
    (after.node? (o ++ [name]) = some (.file contents) ↔
      (∃ f, lastOfName? p.artifacts.files name = some f ∧ contents = f.contents.toUTF8) ∨
      lastOfName? p.artifacts.files name = none ∧
        tree.node? (o ++ [name]) = some (.file contents) ∧
        pathLimit < (Path.join p.output name).utf8ByteSize)
  others : ∀ place contents, ¬ IsScript o place → place ≠ t →
    tree.node? place = some (.file contents) → after.node? place = some (.file contents)
  descriptor : after.node? t = some (.file p.artifacts.descriptor.toUTF8)
  sizes : ∀ f ∈ p.artifacts.files, (Path.join p.output f.name).utf8ByteSize ≤ pathLimit

theorem mem_of_lastOfName? {name : String} {f : Artifact.File}
    (h : lastOfName? files name = some f) : f ∈ files ∧ f.name = name :=
  ⟨List.mem_reverse.1 (List.mem_of_find?_eq_some h), by simpa using List.find?_some h⟩

theorem writes_sizes (h : writes output files tree = (.ok PUnit.unit, after)) :
    ∀ f ∈ files, (Path.join output f.name).utf8ByteSize ≤ pathLimit := by
  induction files generalizing tree with
  | nil => simp
  | cons f files ih =>
      obtain ⟨mid, hwrite, h⟩ := writes_cons_ok h
      obtain ⟨target, hlookup, -⟩ := write_eq hwrite
      exact List.forall_mem_cons.2 ⟨(lookup_iff.1 hlookup).1.2.2, ih h⟩

/-- The path of the output still leads to the outputs when the files have been written there. -/
theorem replaceOutputs_output (hplain : tree.Plain)
    (hdirectory : outputDirectory? tree output = some o)
    (h : replaceOutputs output files tree = (.ok (), after)) :
    after.lookup true output = .ok (.present o .directory) ∧
      ∀ f ∈ files, (Path.join output f.name).utf8ByteSize ≤ pathLimit := by
  have hgrows := makeOutput_grows output tree
  have hnamed : tree.Named PlainName := fun place hplace name hname =>
    (hplain.named place hplace name hname).toPlainName
  obtain ⟨made, hmake, hout⟩ := outputDirectory?_iff.1 hdirectory
  cases replaceOutputs_replaces h with
  | @writing made' purged _ _ hmake' hpurge hwrites =>
  obtain rfl : made = made' := by
    rw [hmake] at hmake'
    exact congrArg Prod.snd hmake'
  rw [hmake] at hgrows
  have hclears := (purge_clears hout (hgrows.named hnamed) hpurge).1
  have hways : Ways made after := by
    have hwritten := writes_ways output files purged
    rw [hwrites] at hwritten
    exact (hclears.ways_of_linkFree (hgrows.linkFree hplain.linkFree)).trans hwritten
  exact ⟨lookup_of_ways hways hout (hways.directory o (lookup_sound hout).2), writes_sizes hwrites⟩

theorem execute_carriedOut (hplain : tree.Plain) (hplanned : Planned tree directory p)
    (habsolute : Path.isAbsolute p.output = true)
    (hdirectory : outputDirectory? tree p.output = some o)
    (hlookup : tree.lookup true p.config.template = .ok (.present t (.file old)))
    (hscript : ¬ IsScript o t) (h : p.execute tree = (.ok (), after)) :
    CarriedOut p o t tree after := by
  obtain ⟨hplain', hdirectories⟩ : after.Plain ∧ ∀ place, after.node? place = some .directory →
      tree.node? place = some .directory ∨ Reachable place := by
    have hbuilds := execute_builds habsolute tree hplain
    rwa [h] at hbuilds
  have htemplate : tree.node? t = some (.file old) := (lookup_sound hlookup).2
  obtain ⟨o', mid, hdirectory', hreplaced, hhold, hafter, -⟩ :=
    execute_done hplain.linkFree hplain.named hplanned hlookup h
  obtain rfl : o' = o := Option.some.inj (hdirectory'.symm.trans hdirectory)
  have hnode : ∀ place, place ≠ t → after.node? place = mid.node? place := by
    intro place hne
    rw [hafter, node?_set, if_neg fun h => hne h.1]
  have hdescriptor : after.node? t = some (.file p.artifacts.descriptor.toUTF8) := by
    rw [hafter, node?_set, if_pos ⟨rfl, hhold.ne_root⟩]
  have hways : Ways tree after := hafter ▸ hreplaced.ways.trans (ways_set_of_canHold hhold)
  have hothers : ∀ place contents, ¬ IsScript o' place → place ≠ t →
      tree.node? place = some (.file contents) → after.node? place = some (.file contents) := by
    intro place contents hplace hne hold
    rw [hnode place hne]
    obtain hsame | ⟨hnone, -⟩ := hreplaced.others place hplace
    · rw [hsame, hold]
    · cases hnone.symm.trans hold
  have hscripts : ∀ name contents, Path.hasExtension name "ts" = true →
      (after.node? (o' ++ [name]) = some (.file contents) ↔
        (∃ f, lastOfName? p.artifacts.files name = some f ∧ contents = f.contents.toUTF8) ∨
        lastOfName? p.artifacts.files name = none ∧
          tree.node? (o' ++ [name]) = some (.file contents) ∧
          pathLimit < (Path.join p.output name).utf8ByteSize) := by
    intro name contents hextension
    rw [hnode, hreplaced.scripts name contents hextension]
    rintro rfl
    exact hscript ⟨name, rfl, hextension⟩
  obtain ⟨_, mid', hreplace, hwrite⟩ := bind_ok h
  obtain ⟨hout, hsizes⟩ := replaceOutputs_output hplain hdirectory hreplace
  exact {
    plain := hplain
    plain' := hplain'
    ways := hways
    directories := by
      intro place hplace
      obtain hold | hreach := hdirectories place hplace
      · exact .inl hold
      have hne : place ≠ t := by
        rintro rfl
        cases hdescriptor.symm.trans hplace
      rw [hnode place hne] at hplace
      exact (hreplaced.directories place hplace).imp_right fun hnone => ⟨hnone, hreach⟩
    kept := by
      intro place contents hold hplace
      by_cases hne : place = t
      · exact ⟨_, hne ▸ hdescriptor⟩
      · exact ⟨contents, hothers place contents hplace hne hold⟩
    added := by
      intro place contents hfile
      by_cases hne : place = t
      · exact .inl ⟨old, hne ▸ htemplate⟩
      by_cases hplace : IsScript o' place
      case neg =>
        rw [hnode place hne] at hfile
        obtain hsame | ⟨-, hdirectory⟩ := hreplaced.others place hplace
        · exact .inl ⟨contents, hsame ▸ hfile⟩
        · cases hdirectory.symm.trans hfile
      case pos =>
        obtain ⟨name, rfl, hextension⟩ := hplace
        obtain ⟨f, hf, -⟩ | ⟨-, hold, -⟩ := (hscripts name contents hextension).1 hfile
        case inr => exact .inl ⟨contents, hold⟩
        cases hnode' : tree.node? (o' ++ [name]) with
        | none =>
            obtain ⟨hmem, rfl⟩ := mem_of_lastOfName? hf
            exact .inr ⟨rfl, f.name, rfl, hplanned.head_ne_point hmem⟩
        | some node =>
            cases node with
            | file old => exact .inl ⟨old, rfl⟩
            | directory => cases (hways.directory _ hnode').symm.trans hfile
            | link target => exact absurd hnode' (hplain.linkFree _ _)
    output := by
      have hwritten : Ways mid' after := by
        have hrespects : Respects Ways (writeFile p.config.template p.artifacts.descriptor) :=
          change_respects write_ways
        have hlast := hrespects mid'
        rwa [hwrite] at hlast
      exact lookup_of_ways hwritten hout (hwritten.directory o' (lookup_sound hout).2)
    scripts := hscripts
    others := hothers
    descriptor := hdescriptor
    sizes := hsizes }

end HandlerWeave.Project
