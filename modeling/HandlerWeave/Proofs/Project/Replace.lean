import HandlerWeave.Proofs.Project.Purge

/-!
Replacing the outputs as a whole. The generated files go to the directory that the path of the
output leads to once it has been made. Outside of it nothing changes but for new directories, and a
file that is no script in it keeps its contents also when a write fails, and when links lead to it.
-/
namespace HandlerWeave

namespace FileTree

variable {tree after : FileTree} {o place : Place} {directory name text : String}
  {contents : ByteArray}

theorem LinkFree.set_file (h : tree.LinkFree) : (tree.set place (.file contents)).LinkFree :=
  fun other target hnode => h other target (ways_set_file.link other target hnode)

/-- Without links a file is written to the place of its name in the directory. -/
theorem write_join (hfree : tree.LinkFree) (hname : PlainName name)
    (hdirectory : tree.lookup true directory = .ok (.present o .directory))
    (h : tree.write (Path.join directory name) text = .ok after) :
    after = tree.set (o ++ [name]) (.file text.toUTF8) ∧ tree.CanHold (o ++ [name]) ∧
      after.lookup true directory = .ok (.present o .directory) := by
  obtain ⟨target, hlookup, hhold, rfl⟩ := write_eq h
  have hne : directory ≠ "" := (lookup_iff.1 hdirectory).1.2.1
  obtain ⟨o', hdirectory', hplace | ⟨-, link, hlink⟩⟩ := lookup_join hname hne hlookup
  · cases hdirectory'.symm.trans hdirectory
    rw [hplace] at hhold ⊢
    refine ⟨rfl, hhold, ?_⟩
    have hafter : (tree.set (o ++ [name]) (.file text.toUTF8)).lookup true directory = .ok _ :=
      lookup_set hhold hdirectory
    rwa [Target.written, if_neg (by simp [Target.place])] at hafter
  · exact absurd hlink (hfree _ _)

end FileTree

namespace Project

open FileTree Artifact

variable {tree after made : FileTree} {o t : Place} {output name : String} {files : List File}
  {contents : ByteArray} {outcome : Except RunError Unit}

/-- Names as generated files have them. -/
def ScriptNames (files : List File) : Prop :=
  ∀ f ∈ files, PlainName f.name ∧ Path.hasExtension f.name "ts" = true

theorem writes_run (output : String) (f : File) (files : List File) (tree : FileTree) :
    writes output (f :: files) tree = match tree.write (Path.join output f.name) f.contents with
      | .ok mid => writes output files mid
      | .error cause => (.error (.file (Path.join output f.name) cause), tree) := by
  rw [writes, List.forIn_cons, bind_run, bind_run, writeFile, change]
  cases tree.write (Path.join output f.name) f.contents <;> rfl

/-- No path to a script in the output leads to the place. -/
def Shielded (tree : FileTree) (output : String) (t : Place) : Prop :=
  ∀ name, PlainName name → Path.hasExtension name "ts" = true →
    ∀ node, tree.lookup true (Path.join output name) ≠ .ok (.present t node)

/-- A file that no path to a script leads to is not written. -/
theorem writes_keep {outcome : Except RunError PUnit} (hfiles : ScriptNames files)
    (hshield : Shielded tree output t) (ht : tree.node? t = some (.file contents))
    (hrun : writes output files tree = (outcome, after)) :
    after.node? t = some (.file contents) := by
  induction files generalizing tree with
  | nil =>
      cases hrun
      exact ht
  | cons f files ih =>
      obtain ⟨⟨hname, hextension⟩, hfiles⟩ := List.forall_mem_cons.1 hfiles
      rw [writes_run] at hrun
      split at hrun
      next mid hwrite =>
        obtain ⟨target, hlookup, -, rfl⟩ := write_eq hwrite
        have hne : t ≠ target.place := by
          intro heq
          cases target with
          | present place node => exact hshield f.name hname hextension node (heq ▸ hlookup)
          | absent place =>
              have hfree : tree.node? place = none := lookup_sound hlookup
              rw [show place = t from heq.symm, ht] at hfree
              cases hfree
        have ht' : (tree.set target.place (.file f.contents.toUTF8)).node? t =
            some (.file contents) := by
          rw [node?_set, if_neg fun h => hne h.1, ht]
        refine ih hfiles (fun other hother hother' node hlookup' => ?_) ht' hrun
        have hnode : tree.node? t = some node := by
          rw [ht, ← ht']
          exact (lookup_sound hlookup').2
        exact hshield other hother hother' node (lookup_of_ways ways_set_file hlookup' hnode)
      · cases hrun
        exact ht

/-- The file that is written last under a name. -/
def lastOfName? (files : List File) (name : String) : Option File :=
  files.reverse.find? (·.name == name)

theorem lastOfName?_cons (f : File) (files : List File) (name : String) :
    lastOfName? (f :: files) name =
      (lastOfName? files name).or (if f.name = name then some f else none) := by
  rw [lastOfName?, List.reverse_cons, List.find?_append, lastOfName?]
  by_cases h : f.name = name <;> simp [h]

theorem lastOfName?_eq_none {name : String} (hfiles : ScriptNames files)
    (hname : Path.hasExtension name "ts" = false) : lastOfName? files name = none := by
  rw [lastOfName?, List.find?_eq_none]
  intro f hf heq
  rw [← beq_iff_eq.1 heq, (hfiles f (List.mem_reverse.1 hf)).2] at hname
  cases hname

/-- Without links every file is found under its name in the output, and nothing else changes. -/
theorem writes_exact (hfree : tree.LinkFree)
    (hout : tree.lookup true output = .ok (.present o .directory))
    (hfiles : ScriptNames files) (hrun : writes output files tree = (.ok PUnit.unit, after)) :
    after.LinkFree ∧ Ways tree after ∧
    (∀ name, after.node? (o ++ [name]) =
      ((lastOfName? files name).map fun f => .file f.contents.toUTF8).or
        (tree.node? (o ++ [name]))) ∧
    ∀ place, (∀ name, place ≠ o ++ [name]) → after.node? place = tree.node? place := by
  induction files generalizing tree with
  | nil =>
      cases hrun
      exact ⟨hfree, .refl, fun _ => rfl, fun _ _ => rfl⟩
  | cons f files ih =>
      obtain ⟨⟨hname, -⟩, hfiles⟩ := List.forall_mem_cons.1 hfiles
      obtain ⟨mid, hwrite, hrun⟩ := writes_cons_ok hrun
      obtain ⟨rfl, hhold, hout'⟩ := write_join hfree hname hout hwrite
      obtain ⟨hfree', hways, hnamed, hother⟩ := ih hfree.set_file hout' hfiles hrun
      refine ⟨hfree', (ways_set_of_canHold hhold).trans hways, fun name => ?_,
        fun place hplace => ?_⟩
      · rw [hnamed, lastOfName?_cons, node?_set]
        cases lastOfName? files name with
        | some g => rfl
        | none =>
            by_cases heq : name = f.name
            · simp [heq]
            · simp [heq, Ne.symm heq]
      · rw [hother place hplace, node?_set, if_neg fun h => hplace _ h.1]

/-- The directory that the generated files go to: what the path leads to once it has been made. -/
def outputDirectory? (tree : FileTree) (output : String) : Option Place :=
  match makeOutput output tree with
  | (.ok (), made) =>
    match made.lookup true output with
    | .ok (.present o .directory) => some o
    | _ => none
  | (.error _, _) => none

theorem outputDirectory?_iff :
    outputDirectory? tree output = some o ↔ ∃ made, makeOutput output tree = (.ok (), made) ∧
      made.lookup true output = .ok (.present o .directory) := by
  unfold outputDirectory?
  constructor
  · intro h
    split at h
    next made hmake =>
      split at h
      next hlookup =>
        cases h
        exact ⟨made, hmake, hlookup⟩
      · cases h
    · cases h
  · rintro ⟨made, hmake, hlookup⟩
    simp only [hmake, hlookup]

theorem makeOutput_grows (output : String) : Respects Grows (makeOutput output) :=
  makeOutput_respects (makeAll_grows output)

/-- How far the replacement gets. -/
inductive Replaces (output : String) (files : List File) (tree : FileTree) :
    Except RunError Unit → FileTree → Prop
  | making {e after} (h : makeOutput output tree = (.error e, after)) :
      Replaces output files tree (.error e) after
  | purging {made e after} (hmake : makeOutput output tree = (.ok (), made))
      (h : purge output made = (.error e, after)) :
      Replaces output files tree (.error e) after
  | writing {made purged outcome after} (hmake : makeOutput output tree = (.ok (), made))
      (hpurge : purge output made = (.ok (), purged))
      (h : writes output files purged = (outcome, after)) :
      Replaces output files tree outcome after

theorem replaceOutputs_replaces (h : replaceOutputs output files tree = (outcome, after)) :
    Replaces output files tree outcome after := by
  obtain ⟨e, hmake, rfl⟩ | ⟨_, made, hmake, h⟩ := bind_cases h
  · exact .making hmake
  obtain ⟨e, hpurge, rfl⟩ | ⟨_, purged, hpurge, h⟩ := bind_cases h
  · exact .purging hmake hpurge
  obtain ⟨e, hwrites, rfl⟩ | ⟨_, _, hwrites, h⟩ := bind_cases h
  · exact .writing hmake hpurge hwrites
  · cases h
    exact .writing hmake hpurge hwrites

/-- A purge leaves a file that is no script in the output, and after one that goes well no path to a
script leads to it. -/
theorem purge_keep {made : FileTree} (hnamed : made.Named PlainName)
    (ht : made.node? t = some (.file contents))
    (hscript : ∀ o, made.lookup true output = .ok (.present o .directory) → ¬ IsScript o t)
    (hrun : purge output made = (outcome, after)) :
    after.node? t = some (.file contents) ∧ (outcome = .ok () → Shielded after output t) := by
  by_cases hout : ∃ o, made.lookup true output = .ok (.present o .directory)
  case neg =>
    obtain ⟨rfl, hfails⟩ := purge_nothing (not_exists.1 hout) hrun
    exact ⟨ht, fun hok => absurd hok hfails⟩
  case pos =>
    obtain ⟨o, hout⟩ := hout
    obtain ⟨hclears, hgone⟩ := purge_clears hout hnamed hrun
    have hkept : after.node? t = some (.file contents) := by
      rw [hclears.kept fun hplace => hscript o hout hplace.isScript, ht]
    refine ⟨hkept, fun hok name hname hextension node hlookup => ?_⟩
    have hnode : some node = some (.file contents) := by
      rw [← hkept]
      exact (lookup_sound hlookup).2.symm
    cases hnode
    have hfile := isFile_iff.2 ⟨t, contents, hlookup⟩
    rw [hgone hok name hname hextension] at hfile
    cases hfile

/-- Whether the replacement goes well or not, a file that is no script in the output stays. -/
theorem replaceOutputs_keep (hnamed : tree.Named PlainName) (hfiles : ScriptNames files)
    (ht : tree.node? t = some (.file contents))
    (hscript : ∀ o, outputDirectory? tree output = some o → ¬ IsScript o t)
    (hrun : replaceOutputs output files tree = (outcome, after)) :
    after.node? t = some (.file contents) := by
  have hgrows := makeOutput_grows output tree
  have hdirectory : ∀ {made o}, makeOutput output tree = (.ok (), made) →
      made.lookup true output = .ok (.present o .directory) → ¬ IsScript o t :=
    fun hmake hout => hscript _ (outputDirectory?_iff.2 ⟨_, hmake, hout⟩)
  cases replaceOutputs_replaces hrun with
  | making hmake =>
      rw [hmake] at hgrows
      exact hgrows.node ht
  | purging hmake hpurge =>
      rw [hmake] at hgrows
      exact (purge_keep (hgrows.named hnamed) (hgrows.node ht) (fun _ => hdirectory hmake)
        hpurge).1
  | writing hmake hpurge hwrites =>
      rw [hmake] at hgrows
      obtain ⟨hkept, hshield⟩ := purge_keep (hgrows.named hnamed) (hgrows.node ht)
        (fun _ => hdirectory hmake) hpurge
      exact writes_keep hfiles (hshield rfl) hkept hwrites

/-- What becomes of a tree without links when the outputs are replaced in the directory `o`. -/
structure Replaced (o : Place) (output : String) (files : List File) (tree after : FileTree) :
    Prop where
  /-- The scripts directly inside are the generated files, and those that were there with a path
  longer than the system takes. -/
  scripts : ∀ name contents, Path.hasExtension name "ts" = true →
    (after.node? (o ++ [name]) = some (.file contents) ↔
      (∃ f, lastOfName? files name = some f ∧ contents = f.contents.toUTF8) ∨
      lastOfName? files name = none ∧ tree.node? (o ++ [name]) = some (.file contents) ∧
        pathLimit < (Path.join output name).utf8ByteSize)
  /-- What is no script stays, and directories may have been made where nothing was. -/
  others : ∀ place, ¬ IsScript o place → after.node? place = tree.node? place ∨
    tree.node? place = none ∧ after.node? place = some .directory
  directories : ∀ place, after.node? place = some .directory →
    tree.node? place = some .directory ∨ tree.node? place = none
  ways : Ways tree after

/-- A stale file that the purge has left has a path that is too long for the system. -/
theorem purge_left {made purged : FileTree} (hfree : made.LinkFree) (hnamed : tree.Named FileName)
    (hgrows : Grows tree made) (hout : made.lookup true output = .ok (.present o .directory))
    (hpurge : purge output made = (.ok (), purged))
    (hextension : Path.hasExtension name "ts" = true) :
    purged.node? (o ++ [name]) = some (.file contents) ↔
      tree.node? (o ++ [name]) = some (.file contents) ∧
        pathLimit < (Path.join output name).utf8ByteSize := by
  have hplain : tree.Named PlainName := fun place hplace name hname =>
    (hnamed place hplace name hname).toPlainName
  obtain ⟨hclears, hgone⟩ := purge_clears hout (hgrows.named hplain) hpurge
  constructor
  · intro hnode
    have hold := hgrows.old (hclears.node hnode) (by simp)
    have hname : FileName name := hnamed (o ++ [name]) (by simp [hold]) name (by simp)
    refine ⟨hold, Nat.lt_of_not_le fun hsize => ?_⟩
    have hout' := lookup_of_ways (hclears.ways_of_linkFree hfree) hout
      (hclears.directory (lookup_sound hout).2)
    have hfile := isFile_iff.2 ⟨_, _, lookup_join_of (hclears.linkFree hfree) hname.toPlainName
      hname.isEntry hname.no_nul hout' hnode hsize⟩
    rw [hgone rfl name hname.toPlainName hextension] at hfile
    cases hfile
  · rintro ⟨hold, hsize⟩
    rw [hclears.kept, hgrows.node hold]
    rintro ⟨name', hplace, -, hsize'⟩
    obtain rfl : name = name' := by simpa using hplace
    exact absurd hsize (Nat.not_lt.2 hsize')

/-- A replacement that goes well does exactly this. -/
theorem replaceOutputs_replaced (hfree : tree.LinkFree) (hnamed : tree.Named FileName)
    (hfiles : ScriptNames files) (hrun : replaceOutputs output files tree = (.ok (), after)) :
    ∃ o, outputDirectory? tree output = some o ∧ Replaced o output files tree after ∧
      after.LinkFree := by
  have hgrows := makeOutput_grows output tree
  cases replaceOutputs_replaces hrun with
  | writing hmake hpurge hwrites =>
  rename_i made purged
  rw [hmake] at hgrows
  by_cases hout : ∃ o, made.lookup true output = .ok (.present o .directory)
  case neg => exact absurd rfl (purge_nothing (not_exists.1 hout) hpurge).2
  case pos =>
    obtain ⟨o, hout⟩ := hout
    have hplain : tree.Named PlainName := fun place hplace name hname =>
      (hnamed place hplace name hname).toPlainName
    have hmade := hgrows.linkFree hfree
    have hclears := (purge_clears hout (hgrows.named hplain) hpurge).1
    have hcleared := hclears.ways_of_linkFree hmade
    have hout' := lookup_of_ways hcleared hout (hclears.directory (lookup_sound hout).2)
    obtain ⟨hafter, hwritten, hnames, hothers⟩ :=
      writes_exact (hclears.linkFree hmade) hout' hfiles hwrites
    refine ⟨o, outputDirectory?_iff.2 ⟨made, hmake, hout⟩, ⟨?scripts, ?others, ?directories,
      (hgrows.ways.trans hcleared).trans hwritten⟩, hafter⟩
    case scripts =>
      intro name contents hextension
      rw [hnames, ← purge_left hmade hnamed hgrows hout hpurge hextension]
      cases lastOfName? files name <;> simp [eq_comm]
    case others =>
      intro place hplace
      have hlast : after.node? place = purged.node? place := by
        by_cases hinside : ∃ name, place = o ++ [name]
        · obtain ⟨name, rfl⟩ := hinside
          have hextension : Path.hasExtension name "ts" = false := by
            simpa using fun hextension => hplace ⟨name, rfl, hextension⟩
          rw [hnames, lastOfName?_eq_none hfiles hextension]
          rfl
        · exact hothers place (not_exists.1 hinside)
      rw [hlast, hclears.kept fun hremovable => hplace hremovable.isScript]
      exact (hgrows place).imp_right fun ⟨hnone, hdirectory, _⟩ => ⟨hnone, hdirectory⟩
    case directories =>
      intro place hplace
      have hpurged : purged.node? place = some .directory := by
        by_cases hinside : ∃ name, place = o ++ [name]
        · obtain ⟨name, rfl⟩ := hinside
          rw [hnames] at hplace
          cases hlast : lastOfName? files name with
          | none => simpa [hlast] using hplace
          | some f => simp [hlast] at hplace
        · rw [← hothers place (not_exists.1 hinside), hplace]
      obtain heq | ⟨hnone, -, -⟩ := hgrows place
      · exact .inl (heq ▸ hclears.node hpurged)
      · exact .inr hnone

/-- A name with a path that is too long is not taken for a script. -/
theorem isStale_of_long (h : pathLimit < (Path.join output name).utf8ByteSize) :
    isStale tree output name = false := by
  rw [isStale, Bool.and_eq_false_iff]
  refine .inl (Bool.eq_false_iff.2 fun hfile => ?_)
  obtain ⟨place, contents, hlookup⟩ := isFile_iff.1 hfile
  exact absurd (lookup_iff.1 hlookup).1.2.2 (Nat.not_le.2 h)

/-- An output directory with a script of an earlier run. -/
def oldTree : FileTree :=
  ⟨[(["out"], .directory), (["out", "old.ts"], .file "".toUTF8)]⟩

section

variable {n : Nat} (hle : 2 * n + 4 ≤ pathLimit)

include hle

theorem lookup_oldTree (followLast : Bool) :
    oldTree.lookup followLast (pointed "out" n) = .ok (.present ["out"] .directory) := by
  have hsize : (pointed "out" n).utf8ByteSize = 2 * n + 4 := pointed_size "out" n
  exact lookup_pointed (by decide) (by constructor <;> decide) (by decide) rfl (hsize ▸ hle)

theorem makeOutput_oldTree : makeOutput (pointed "out" n) oldTree = (.ok (), oldTree) := by
  have hout : PlainName "out" := by decide
  have hplain : oldTree.lookup false (dropSlashes (pointed "out" n)) =
      .ok (.present ["out"] .directory) := by
    rw [dropSlashes_eq (pointed_last hout n), lookup_oldTree hle]
  rw [makeOutput, makeAll_present hplain (lookup_oldTree hle true)]

theorem purge_oldTree (hlt : pathLimit < 2 * n + 10) :
    purge (pointed "out" n) oldTree = (.ok (), oldTree) := by
  have hlong : pathLimit < (Path.join (pointed "out" n) "old.ts").utf8ByteSize := by
    have hout : (pointed "out" n).utf8ByteSize = 2 * n + 4 := pointed_size "out" n
    have hname : "old.ts".utf8ByteSize = 6 := rfl
    obtain ⟨between, hjoin, -⟩ := Path.join_eq (pointed "out" n) (by decide : PlainName "old.ts")
    rw [hjoin, String.utf8ByteSize_append, String.utf8ByteSize_append]
    omega
  have hname : purgeName (pointed "out" n) "old.ts" oldTree = (.ok (), oldTree) := by
    rw [purgeName_run, isStale_of_long hlong]
    rfl
  have hnames : oldTree.names ["out"] = ["old.ts"] := by decide
  rw [purge_run (lookup_oldTree hle true), hnames, bind_run, purgeNames, List.forIn_cons, bind_run,
    bind_run, hname]
  rfl

theorem outputDirectory?_oldTree : outputDirectory? oldTree (pointed "out" n) = some ["out"] :=
  outputDirectory?_iff.2 ⟨oldTree, makeOutput_oldTree hle, lookup_oldTree hle true⟩

theorem replaceOutputs_oldTree (hlt : pathLimit < 2 * n + 10) :
    replaceOutputs (pointed "out" n) [] oldTree = (.ok (), oldTree) := by
  rw [replaceOutputs, bind_run, makeOutput_oldTree hle]
  change (purge (pointed "out" n) >>= _ : RunM Unit) oldTree = _
  rw [bind_run, purge_oldTree hle hlt]
  rfl

end

/-- A replacement that goes well can leave a script that it has not generated. -/
theorem scripts_not_replaced :
    ¬ ∀ (tree after : FileTree) (output : String) (files : List File) (o : Place),
      tree.LinkFree → tree.Named FileName → ScriptNames files →
      outputDirectory? tree output = some o →
      replaceOutputs output files tree = (.ok (), after) →
      ∀ name contents, Path.hasExtension name "ts" = true →
        after.node? (o ++ [name]) = some (.file contents) → ∃ f ∈ files, f.name = name := by
  intro hreplaced
  have hfree : oldTree.LinkFree := linkFree_of_entries (by simp [oldTree])
  have hnamed : oldTree.Named FileName := named_of_entries (by decide +kernel)
  have hle : 2 * 2044 + 4 ≤ pathLimit := by decide
  have hlt : pathLimit < 2 * 2044 + 10 := by decide
  obtain ⟨f, hf, -⟩ := hreplaced oldTree oldTree (pointed "out" 2044) [] ["out"] hfree hnamed
    (by simp [ScriptNames]) (outputDirectory?_oldTree hle) (replaceOutputs_oldTree hle hlt)
    "old.ts" "".toUTF8 (by decide) rfl
  cases hf

end Project

end HandlerWeave
