import HandlerWeave.Proofs.Analysis.Candidates
import HandlerWeave.Proofs.Analysis.Replay
import HandlerWeave.Proofs.Project.Sources

/-!
What a run finds once the outputs have been replaced. As long as no module that was loaded lies in
the outputs, the sources are the same, and every import means what it meant.
-/
namespace HandlerWeave

open FileTree

namespace Path

theorem isSome_strip {as bs : List Component} : (below?.strip as bs).isSome ↔ as <+: bs := by
  induction as generalizing bs with
  | nil => simp [below?.strip]
  | cons a as ih =>
      cases bs with
      | nil => simp [below?.strip]
      | cons b bs =>
          rw [below?.strip, List.cons_prefix_cons]
          split
          next heq => simp [heq, ih]
          next hne => simp [hne]

theorem isWithin_iff {path base : String} :
    isWithin path base = true ↔ components base <+: components path := by
  rw [isWithin, below?, isSome_strip]

end Path

namespace Place

variable {place o : Place}

theorem isWithin_path (hplace : ∀ name ∈ place, PlainName name) (ho : ∀ name ∈ o, PlainName name) :
    Path.isWithin (Place.path place) (Place.path o) = true ↔ o <+: place := by
  rw [Path.isWithin_iff, components_path hplace, components_path ho, List.cons_prefix_cons]
  have hinjective : Function.Injective Path.Component.name := fun _ _ => Path.Component.name.inj
  simp [List.prefix_map_iff_of_injective hinjective]

/-- Where the path of a place lies behind another path, that one goes down to a place above. -/
theorem prefix_of_isWithin {tree : FileTree} {output : String} (hfree : tree.LinkFree)
    (hplace : ∀ name ∈ place, PlainName name) (habsolute : Path.isAbsolute output = true)
    (hout : tree.lookup true output = .ok (.present o .directory))
    (hwithin : Path.isWithin (Place.path place) output = true) : o <+: place := by
  have hpoints : (namesOf output).filter (· ≠ ".") =
      (Path.segments output).filter fun s => s ≠ "" ∧ s ≠ "." := by
    rw [namesOf, List.filter_filter]
    exact List.filter_congr fun s _ => by simp [Bool.and_comm]
  rw [Path.isWithin_iff, components_path hplace, Path.components, if_pos habsolute,
    List.cons_prefix_cons] at hwithin
  obtain ⟨above, habove, hsegments⟩ := List.prefix_map_iff.1 hwithin.2
  have hsegments : ((namesOf output).filter (· ≠ ".")).map Path.Component.ofSegment =
      above.map Path.Component.name := by
    rw [hpoints]
    exact hsegments
  have hnames : (namesOf output).filter (· ≠ ".") = above := by
    have htext : ∀ s, (Path.Component.ofSegment s).text = s := by
      intro s
      unfold Path.Component.ofSegment
      split
      next heq => exact heq.symm
      split
      next heq => exact heq.symm
      · rfl
    have hmap := congrArg (List.map Path.Component.text) hsegments
    have hname : ∀ name, (Path.Component.name name).text = name := fun _ => rfl
    simpa [List.map_map, Function.comp_def, htext, hname] using hmap
  have hdown : ∀ name ∈ stepsOf output, PlainName name ∨ name = "." := by
    have hall : ∀ name ∈ namesOf output, PlainName name ∨ name = "." := by
      intro name hname
      refine or_iff_not_imp_right.2 fun hne => hplace name (habove.subset ?_)
      rw [← hnames]
      exact List.mem_filter.2 ⟨hname, by simpa using hne⟩
    obtain hsteps | hsteps := stepsOf_eq output
    · rwa [hsteps]
    · rw [hsteps]
      exact List.forall_mem_append.2 ⟨hall, by simp⟩
  have hsteps : (stepsOf output).filter (· ≠ ".") = above := by
    obtain hsteps | hsteps := stepsOf_eq output <;> simp [hsteps, ← hnames]
  have hend := ((lookup_iff.1 hout).2.walks hfree).place_of_down hfree hdown
  rw [Target.place, List.nil_append, hsteps] at hend
  exact hend ▸ habove

end Place

namespace FileTree.Renews

open Discovery

variable {before after : FileTree} {o root : Place} {output : String} {wanted : List String}
  {modules : List Module}

/-- The search is not led astray by what has come and gone in the outputs. -/
theorem sees (h : Renews o before after) (ho : ∀ name ∈ o, PlainName name)
    (habsolute : Path.isAbsolute output = true)
    (hout : after.lookup true output = .ok (.present o .directory))
    (houtside : ∀ place, (∀ name ∈ place, PlainName name) → Place.path place ∈ wanted →
      ¬ o <+: place) :
    Sees before after (isSource before (Place.path root) output)
      (isSource after (Place.path root) (Place.path o)) wanted where
  plain := h.plain
  plain' := h.plain'
  directory := h.ways.directory
  fresh := h.directories
  kept place hcovered hsome hsome' := by
    have hplain : ∀ name ∈ place, PlainName name := fun name hname =>
      (h.plain.named place hsome name hname).toPlainName
    have hinside := Place.isWithin_path hplain ho
    have hcovers := List.forall_mem_singleton.1 hcovered
    unfold isSource at hcovers ⊢
    rw [h.isFile_path hsome hsome'] at hcovers ⊢
    by_cases hkept : after.isFile (Place.path place) = true ∧
        isSkipped (Place.path root) (Place.path place) = false
    case pos =>
      have hwithin : Path.isWithin (Place.path place) output =
          Path.isWithin (Place.path place) (Place.path o) := by
        rw [Bool.eq_iff_iff, hinside]
        refine ⟨Place.prefix_of_isWithin h.plain'.linkFree hplain habsolute hout, fun hbelow => ?_⟩
        by_contra hfree
        rw [Bool.not_eq_true] at hfree
        exact houtside place hplain (hcovers (by simp [hfree, hkept])) hbelow
      rw [hwithin]
    case neg =>
      rw [not_and_or, Bool.not_eq_true, Bool.not_eq_false] at hkept
      obtain hfile | hskipped := hkept
      · simp [hfile]
      · simp [hskipped]
  gone place hcovered hsome hnone := by
    obtain ⟨name, rfl, -⟩ := h.gone hsome hnone
    have hplain : ∀ name' ∈ o ++ [name], PlainName name' := fun name' hname =>
      (h.plain.named _ hsome name' hname).toPlainName
    refine Bool.eq_false_iff.2 fun hsource => ?_
    exact houtside _ hplain (hcovered _ (by simp) hsource) (List.prefix_append _ _)
  new place hnone hsome := by
    have hplain : ∀ name ∈ place, PlainName name := fun name hname =>
      (h.plain'.named place hsome name hname).toPlainName
    rw [isSource]
    by_cases hfile : after.isFile (Place.path place) = true
    · obtain ⟨name, rfl⟩ := h.new hnone hplain hfile
      rw [(Place.isWithin_path hplain ho).2 (List.prefix_append _ _)]
      simp
    · simp [hfile]

/-- Modules outside of the directory are opened and imported as before, if their files are as they
were. -/
theorem keeps (h : Renews o before after)
    (hmodules : ∀ m ∈ modules, ∀ q contents,
      before.lookup true m.path = .ok (.present q (.file contents)) →
        ¬ o <+: q ∧ after.node? q = some (.file contents)) :
    Analysis.Keeps before after modules := by
  have hplace : ∀ {path : String} {m : Module}, m ∈ modules → before.module path = .ok m →
      ∃ q contents, before.lookup true path = .ok (.present q (.file contents)) ∧ ¬ o <+: q ∧
        after.lookup true path = .ok (.present q (.file contents)) ∧
        m.path = Place.path q ∧ after.read m.path = before.read m.path := by
    intro path m hm hmodule
    obtain ⟨hkey, htree⟩ := FileTree.module_ok hmodule
    obtain ⟨q, contents, hlookup⟩ := Project.module_lookup htree
    obtain ⟨houtside, hnode⟩ := hmodules m hm q contents hlookup
    unfold canonicalize at hkey
    split at hkey
    next place node hfound =>
      have hpath : m.path = Place.path place := (Except.ok.inj hkey).symm
      obtain ⟨hstanding, hnode'⟩ := lookup_sound hfound
      obtain rfl : q = place :=
        (hpath ▸ Spells.of_path hstanding.plain : Spells m.path place).place_of_lookup
          h.plain.linkFree hlookup
      obtain rfl : node = .file contents :=
        Option.some.inj (hnode'.symm.trans (lookup_sound hlookup).2)
      exact ⟨q, contents, hfound, houtside, lookup_of_ways h.ways hfound hnode, hpath,
        Project.read_of_ways h.ways hlookup hnode⟩
    all_goals cases hkey
  refine ⟨fun path m hm hmodule => ?_, fun directory specifier m hm hmodule => ?_⟩
  · obtain ⟨q, contents, -, -, hafter, hpath, hread⟩ := hplace hm hmodule
    have hkey : after.canonicalize path = .ok m.path := by
      rw [canonicalize, hafter, hpath]
    obtain ⟨text, items, htext, hitems, hm⟩ := (FileTree.module_ok hmodule).2.parsed
    exact FileTree.module_eq hkey
      ⟨canonicalize_sound hkey, text, items, hread.trans htext, hitems, hm⟩
  · obtain ⟨q, contents, hlookup, houtside, -⟩ := hplace hm hmodule
    exact h.importedFile_again hlookup houtside

end FileTree.Renews

end HandlerWeave
