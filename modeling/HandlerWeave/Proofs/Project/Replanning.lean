import HandlerWeave.Proofs.Descriptor.Repetition
import HandlerWeave.Proofs.Project.Execution
import HandlerWeave.Proofs.Project.Findings
import HandlerWeave.Proofs.Yaml.Pages

/-!
The plan of a second run. Once a plan has been carried out the stages of the next run give what they
gave, as long as what they read is neither the descriptor nor a script in the outputs, and as the
descriptor is read back as it was written.
-/
namespace HandlerWeave

open FileTree

theorem Path.isAbsolute_join {directory name : String} (h : isAbsolute directory = true) :
    isAbsolute (join directory name) = true := by
  have habsolute : ∀ more : String, isAbsolute (directory ++ more) = true := by
    intro more
    rw [isAbsolute, beq_iff_eq] at h ⊢
    rw [String.toList_append, List.head?_append, h]
    rfl
  unfold join
  split
  next hname =>
    obtain hname | hempty := Bool.or_eq_true_iff.1 hname
    · exact hname
    · have hnone : directory = "" := by simpa using hempty
      rw [hnone] at h
      cases h
  split
  · exact habsolute name
  · rw [String.append_assoc]
    exact habsolute _

namespace Config

variable {tree after : FileTree} {root path : String} {part : Part} {name : String}
  {s : Settings} {config : Config}

theorem locate_eq_ok :
    locate tree root part name = .ok path ↔
      path = Path.join root name ∧ tree.isFile path = true := by
  unfold locate
  dsimp only
  split
  next hfile =>
    refine ⟨?_, fun ⟨h, _⟩ => congrArg Except.ok h.symm⟩
    rintro ⟨⟩
    exact ⟨rfl, hfile⟩
  next hfile =>
    refine ⟨nofun, ?_⟩
    rintro ⟨rfl, h⟩
    exact absurd h hfile

/-- What a configuration is made of: its places lie at the root, and what is to be read is there. -/
theorem resolve_eq_ok : resolve tree root s = .ok config ↔
    ∃ output tsconfig, present s.output = some output ∧ present s.tsconfig = some tsconfig ∧
      config = ⟨root, Path.join root ((present s.template).getD usualTemplate),
        Path.join root tsconfig, Path.join root output⟩ ∧
      tree.isFile config.template = true ∧ tree.isFile config.tsconfig = true := by
  unfold resolve
  cases present s.output with
  | none => simp [throw, throwThe, MonadExceptOf.throw]
  | some output =>
  cases present s.tsconfig with
  | none =>
      refine iff_of_false (fun h => ?_) (by simp)
      obtain ⟨_, -, h⟩ := Except.bind_ok h
      cases h
  | some tsconfig =>
  simp only [Option.isNone_some, Bool.false_eq_true, if_false]
  constructor
  · intro h
    obtain ⟨template, htemplate, h⟩ := Except.bind_ok h
    obtain ⟨compiler, hcompiler, h⟩ := Except.bind_ok h
    obtain ⟨rfl, hfile⟩ := locate_eq_ok.1 htemplate
    obtain ⟨rfl, hfile'⟩ := locate_eq_ok.1 hcompiler
    cases h
    exact ⟨output, tsconfig, rfl, rfl, rfl, hfile, hfile'⟩
  · rintro ⟨_, _, ⟨⟩, ⟨⟩, rfl, hfile, hfile'⟩
    rw [locate_eq_ok.2 ⟨rfl, hfile⟩]
    change (locate tree root .compilerConfiguration tsconfig >>= _) = _
    rw [locate_eq_ok.2 ⟨rfl, hfile'⟩]
    rfl

theorem load_eq_ok : load tree root = .ok config ↔
    tree.isFile (Path.join root fileName) = true ∧
      ∃ s, readJson tree (Path.join root fileName) Settings.reader = .ok s ∧
        resolve tree root s = .ok config := by
  unfold load
  constructor
  · intro h
    obtain ⟨path, hpath, h⟩ := Except.bind_ok h
    obtain ⟨rfl, hfile⟩ := locate_eq_ok.1 hpath
    obtain ⟨s, hs, hresolve⟩ := Except.bind_ok h
    exact ⟨hfile, s, hs, hresolve⟩
  · rintro ⟨hfile, s, hs, h⟩
    rw [locate_eq_ok.2 ⟨rfl, hfile⟩]
    change (readJson tree _ _ >>= _) = _
    rw [hs]
    exact h

theorem readJson_congr {α : Type} {r : Json.Reader α} (h : after.read path = tree.read path) :
    readJson after path r = readJson tree path r := by
  rw [readJson, readJson, h]

end Config

namespace Project

variable {tree after : FileTree} {directory root path : String} {p : Plan} {o t place : Place}
  {options : CompilerOptions} {document : Yaml} {old contents : ByteArray}

/-- What a run reads stands apart from what it writes. -/
structure Apart (tree : FileTree) (p : Plan) (o t : Place) : Prop where
  template : ¬ IsScript o t
  settings : ∀ s node, tree.lookup true (Path.join p.config.root Config.fileName) =
    .ok (.present s node) → s ≠ t
  compiler : ∀ s node, tree.lookup true p.config.tsconfig = .ok (.present s node) →
    ¬ IsScript o s ∧ s ≠ t
  modules : ∀ m ∈ p.analysis.modules, ∀ q node,
    tree.lookup true m.path = .ok (.present q node) → ¬ o <+: q ∧ q ≠ t

/-- The document that a plan writes. -/
def Plan.merged (p : Plan) (root : String) (options : CompilerOptions) (document : Yaml) : Yaml :=
  (Descriptor.merge p.analysis.handlers root (.ofOptions options) document).2

theorem CarriedOut.read_again (h : CarriedOut p o t tree after)
    (hlookup : tree.lookup true path = .ok (.present place (.file contents)))
    (hscript : ¬ IsScript o place) (hne : place ≠ t) :
    after.isFile path = true ∧ after.read path = tree.read path := by
  have hnode := h.others place contents hscript hne (lookup_sound hlookup).2
  exact ⟨isFile_iff.2 ⟨place, contents, lookup_of_ways h.ways hlookup hnode⟩,
    read_of_ways h.ways hlookup hnode⟩

namespace MadeOf

variable (h : MadeOf tree directory p root options document)

include h

/-- The root is a directory, as the configuration is a file in it. -/
theorem root_place (hplain : tree.Plain) :
    ∃ r, root = Place.path r ∧ (∀ name ∈ r, PlainName name) ∧
      tree.lookup true directory = .ok (.present r .directory) ∧
      tree.lookup true root = .ok (.present r .directory) := by
  obtain ⟨hfile, -⟩ := Config.load_eq_ok.1 h.config
  obtain ⟨place, contents, hsettings⟩ := isFile_iff.1 hfile
  have hcanonical := h.canonical
  unfold canonicalize at hcanonical
  split at hcanonical
  next r node hlookup =>
    cases hcanonical
    obtain ⟨hstanding, hnode⟩ := lookup_sound hlookup
    obtain ⟨r', hroot, -⟩ := lookup_join (by decide) (by simp [Place.path]) hsettings
    obtain rfl : r' = r := (Spells.of_path hstanding.plain).place_of_lookup hplain.linkFree hroot
    obtain rfl : node = .directory := Option.some.inj (hnode.symm.trans (lookup_sound hroot).2)
    exact ⟨r', rfl, hstanding.plain, hlookup, hroot⟩
  all_goals cases hcanonical

theorem config_root : p.config.root = root := by
  obtain ⟨-, s, -, hresolve⟩ := Config.load_eq_ok.1 h.config
  obtain ⟨output, tsconfig, -, -, hconfig, -⟩ := Config.resolve_eq_ok.1 hresolve
  rw [hconfig]

theorem compiler_file : ∃ place contents,
    tree.lookup true p.config.tsconfig = .ok (.present place (.file contents)) := by
  obtain ⟨-, s, -, hresolve⟩ := Config.load_eq_ok.1 h.config
  obtain ⟨output, tsconfig, -, -, -, -, hfile⟩ := Config.resolve_eq_ok.1 hresolve
  exact isFile_iff.1 hfile

theorem absolute : Path.isAbsolute p.config.output = true ∧ Path.isAbsolute p.output = true := by
  obtain ⟨-, s, -, hresolve⟩ := Config.load_eq_ok.1 h.config
  obtain ⟨output, tsconfig, -, -, hconfig, -⟩ := Config.resolve_eq_ok.1 hresolve
  obtain ⟨r, hr, -⟩ := canonicalize_sound h.canonical
  have hpath : ∀ place : Place, Path.isAbsolute (Place.path place) = true := fun place => by
    simp [Place.path, Path.isAbsolute]
  have hset : Path.isAbsolute p.config.output = true := by
    rw [hconfig, hr]
    exact Path.isAbsolute_join (hpath r)
  refine ⟨hset, ?_⟩
  rw [h.output, outputPlace]
  split
  next key hkey =>
    obtain ⟨place, rfl, -⟩ := canonicalize_sound hkey
    exact hpath place
  · exact hset

/-- The merge has gone well, and its document is what is written. -/
theorem merges :
    (Descriptor.merge p.analysis.handlers root (.ofOptions options) document).1 = .ok () ∧
      p.artifacts.descriptor = Yaml.write (p.merged root options document) := by
  have hrender := h.artifacts
  unfold render at hrender
  split at hrender
  · cases hrender
  next heq =>
    rw [heq, Plan.merged, heq, ← Except.ok.inj hrender]
    exact ⟨rfl, rfl⟩

theorem artifacts_again (hnames : Descriptor.NamesFree p.analysis.handlers document) :
    render p.analysis p.config.template (p.merged root options document) root
      (.ofOptions options) = .ok p.artifacts := by
  rw [← h.artifacts, render, render, Plan.merged, Descriptor.merge_merge hnames h.merges.1]

variable (hdone : CarriedOut p o t tree after)

include hdone

theorem canonical_again : after.canonicalize directory = .ok root := by
  obtain ⟨r, rfl, -, hlookup, -⟩ := h.root_place hdone.plain
  rw [canonicalize, lookup_of_ways hdone.ways hlookup
    (hdone.ways.directory r (lookup_sound hlookup).2)]

theorem output_again : outputPlace after p.config.output = Place.path o := by
  have hout : after.lookup true p.config.output = .ok (.present o .directory) := by
    cases hkey : tree.canonicalize p.config.output with
    | error cause =>
        have houtput : p.output = p.config.output := by rw [h.output, outputPlace, hkey]
        exact houtput ▸ hdone.output
    | ok key =>
        have houtput : p.output = key := by rw [h.output, outputPlace, hkey]
        unfold canonicalize at hkey
        split at hkey
        next place node hlookup =>
          cases hkey
          obtain ⟨hstanding, hnode⟩ := lookup_sound hlookup
          have hspells : Spells p.output place := houtput ▸ .of_path hstanding.plain
          obtain rfl : o = place := hspells.place_of_lookup hdone.plain'.linkFree hdone.output
          have hdirectory : after.node? o = some .directory := (lookup_sound hdone.output).2
          cases node with
          | directory => exact lookup_of_ways hdone.ways hlookup hdirectory
          | link target => exact absurd hnode (hdone.plain.linkFree _ _)
          | file old =>
              have hscript : ¬ IsScript o o := by
                rintro ⟨name, heq, -⟩
                simp at heq
              obtain ⟨contents, hfile⟩ := hdone.kept o old hnode hscript
              cases hfile.symm.trans hdirectory
        all_goals cases hkey
  rw [outputPlace, canonicalize, hout]

theorem sources_apart (hapart : Apart tree p o t) (hplace : ∀ name ∈ place, PlainName name)
    (hmem : Place.path place ∈ p.sources) : ¬ o <+: place := by
  obtain ⟨m, hm, hkey⟩ := Analysis.addFiles_opened (analyze_ok_iff.1 h.analysis) _ hmem
  unfold canonicalize at hkey
  split at hkey
  next q node hlookup =>
    obtain rfl : q = place := (Spells.of_path hplace).place_of_lookup hdone.plain.linkFree hlookup
    exact (hapart.modules m hm q node (Except.ok.inj hkey ▸ hlookup)).1
  all_goals cases hkey

/-- The descriptor is read as what it was merged to. -/
theorem descriptor_again (hmerged : Yaml.read (Yaml.write (p.merged root options document)) =
      .ok (p.merged root options document))
    (hscript : ¬ IsScript o t)
    (htemplate : tree.lookup true p.config.template = .ok (.present t (.file old))) :
    loadDescriptor after p.config.template = .ok (p.merged root options document) := by
  obtain ⟨hok, hdescriptor⟩ := h.merges
  obtain ⟨contents, hnode, hlookup⟩ := hdone.lookup_file htemplate hscript
  cases hnode.symm.trans hdone.descriptor
  have hread : after.read p.config.template = .ok p.artifacts.descriptor := by
    simp only [FileTree.read, hlookup, fromUTF8?_toUTF8]
  obtain ⟨entries, heq⟩ := Descriptor.merge_eq_of_ok hok
  have htext : Descriptor.ofText p.artifacts.descriptor = .ok (p.merged root options document) := by
    rw [Descriptor.ofText, hdescriptor, hmerged]
    rw [Plan.merged, heq, Descriptor.withResources, Yaml.trim_write Yaml.insert_ne_nil]
    rfl
  rw [loadDescriptor, hread]
  exact congrArg (Except.mapError _) htext

variable (hapart : Apart tree p o t)
  (htemplate : tree.lookup true p.config.template = .ok (.present t (.file old)))

include hapart htemplate

theorem config_again : Config.load after root = .ok p.config := by
  obtain ⟨hfile, s, hs, hresolve⟩ := Config.load_eq_ok.1 h.config
  obtain ⟨output, tsconfig, houtput, htsconfig, hconfig, hfiles⟩ := Config.resolve_eq_ok.1 hresolve
  obtain ⟨place, contents, hlookup⟩ := isFile_iff.1 hfile
  have hscript : ¬ IsScript o place := by
    rintro ⟨name, rfl, hextension⟩
    have hlast :=
      lookup_join_last (by decide) (fun q target => hdone.plain.linkFree _ target) hlookup
    obtain rfl : name = Config.fileName := by simpa [Target.place] using hlast
    exact absurd hextension (by decide)
  have hne : place ≠ t := hapart.settings place _ (h.config_root ▸ hlookup)
  obtain ⟨hfile', hread⟩ := hdone.read_again hlookup hscript hne
  obtain ⟨written, -, htemplate'⟩ := hdone.lookup_file htemplate hapart.template
  obtain ⟨place', contents', hlookup'⟩ := h.compiler_file
  obtain ⟨hscript', hne'⟩ := hapart.compiler place' _ hlookup'
  refine Config.load_eq_ok.2 ⟨hfile', s, (Config.readJson_congr hread).trans hs,
    Config.resolve_eq_ok.2 ⟨output, tsconfig, houtput, htsconfig, hconfig, ?_, ?_⟩⟩
  · exact isFile_iff.2 ⟨t, written, htemplate'⟩
  · exact (hdone.read_again hlookup' hscript' hne').1

omit htemplate

theorem compiler_again : CompilerOptions.load after p.config.tsconfig = .ok options := by
  obtain ⟨place, contents, hlookup⟩ := h.compiler_file
  obtain ⟨hscript, hne⟩ := hapart.compiler place _ hlookup
  exact (Config.readJson_congr (hdone.read_again hlookup hscript hne).2).trans h.compiler

theorem sources_again : Discovery.sources after root (Place.path o) = .ok p.sources := by
  obtain ⟨r, rfl, hplain, -, hroot⟩ := h.root_place hdone.plain
  have ho : ∀ name ∈ o, PlainName name := (lookup_sound hdone.output).1.plain
  have hdirectory : tree.isDirectory (Place.path r) = true := by
    rw [FileTree.isDirectory, hroot]
  exact Discovery.sources_again
    (hdone.sees ho h.absolute.2 hdone.output fun place => h.sources_apart hdone hapart) hplain
    hdirectory (hdone.isDirectory hdirectory) h.sources

theorem analysis_again : analyze after p.sources = .ok p.analysis := by
  refine analyze_ok_iff.2 (Analysis.addFiles_again (analyze_ok_iff.1 h.analysis)
    (hdone.keeps fun m hm q contents hlookup => ?_))
  obtain ⟨houtside, hne⟩ := hapart.modules m hm q _ hlookup
  refine ⟨houtside, hdone.others q contents ?_ hne (lookup_sound hlookup).2⟩
  rintro ⟨name, rfl, -⟩
  exact houtside (List.prefix_append _ _)

/-- A second run makes the plan of the first one. -/
theorem again (hnames : Descriptor.NamesFree p.analysis.handlers document)
    (hmerged : Yaml.read (Yaml.write (p.merged root options document)) =
      .ok (p.merged root options document))
    (htemplate : tree.lookup true p.config.template = .ok (.present t (.file old))) :
    MadeOf after directory { p with output := Place.path o } root options
      (p.merged root options document) where
  canonical := h.canonical_again hdone
  config := h.config_again hdone hapart htemplate
  compiler := h.compiler_again hdone hapart
  descriptor := h.descriptor_again hdone hmerged hapart.template htemplate
  output := (h.output_again hdone).symm
  sources := h.sources_again hdone hapart
  analysis := h.analysis_again hdone hapart
  artifacts := h.artifacts_again hnames

end MadeOf

end Project

end HandlerWeave
