import HandlerWeave.Discovery
import HandlerWeave.Proofs.FileTree.Entries
import HandlerWeave.Proofs.FileTree.Programs

/-!
The paths of the sources. They spell their places out, name by name from the root, so that without
links each leads to the place it spells, and the one that lies in the output by its path is the one
that lies there by its place.
-/
namespace HandlerWeave

open FileTree

/-- Without links a walk along plain names goes down by them. -/
theorem FileTree.Walks.place_of_down {tree : FileTree} {followLast : Bool} {start : Place}
    {names : List String} {target : Target} (hfree : tree.LinkFree)
    (h : Walks tree followLast start names (.reached target))
    (hnames : ∀ name ∈ names, PlainName name ∨ name = ".") :
    target.place = start ++ names.filter (· ≠ ".") := by
  generalize hend : Stop.reached target = stop at h
  induction h with
  | nil =>
      cases hend
      simp [Target.place]
  | here _ ih => simpa using ih (List.forall_mem_cons.1 hnames).2 hend
  | up _ _ =>
      obtain hplain | heq := (List.forall_mem_cons.1 hnames).1
      · exact absurd rfl hplain.ne_up
      · exact absurd heq (by decide)
  | free hname _ | file hname _ | lastLink hname _ _ =>
      cases hend
      simp [Target.place, hname.ne_here]
  | directory hname _ _ ih =>
      simpa [hname.ne_here] using ih (List.forall_mem_cons.1 hnames).2 hend
  | link _ hnode _ => exact absurd hnode (hfree _ _)

/-- The path goes down to the place by its names. -/
structure Spells (path : String) (place : Place) : Prop where
  absolute : Path.isAbsolute path = true
  names : namesOf path = place
  plain : ∀ name ∈ place, PlainName name

namespace Spells

variable {path base name : String} {place o : Place} {tree : FileTree} {followLast : Bool}
  {target : Target}

theorem of_path (h : ∀ name ∈ place, PlainName name) : Spells place.path place where
  absolute := by simp [Place.path, Path.isAbsolute]
  names := by
    by_cases hroot : place = []
    · subst hroot
      decide
    · rw [namesOf, Place.segments_path h hroot, List.filter_cons_of_neg (by simp),
        List.filter_eq_self]
      exact fun name hname => by simpa using (h name hname).ne_empty
  plain := h

theorem ne_empty (h : Spells path place) : path ≠ "" := by
  rintro rfl
  cases h.absolute

theorem join (h : Spells path place) (hname : PlainName name) :
    Spells (Path.join path name) (place ++ [name]) where
  absolute := by
    obtain ⟨between, hjoin, -⟩ := Path.join_eq path hname
    have habsolute := h.absolute
    rw [Path.isAbsolute, beq_iff_eq] at habsolute ⊢
    rw [hjoin, String.toList_append, String.toList_append, List.append_assoc,
      List.head?_append, habsolute]
    rfl
  names := by rw [namesOf_join hname h.ne_empty, h.names]
  plain := List.forall_mem_append.2 ⟨h.plain, List.forall_mem_singleton.2 hname⟩

theorem components (h : Spells path place) :
    Path.components path = .root :: place.map .name := by
  have hfilter : (Path.segments path).filter (fun s => s ≠ "" ∧ s ≠ ".") = place := by
    have hpoint : (namesOf path).filter (· ≠ ".") = place := by
      rw [h.names, List.filter_eq_self]
      exact fun name hname => by simpa using (h.plain name hname).ne_here
    rw [namesOf, List.filter_filter] at hpoint
    rw [← hpoint]
    exact List.filter_congr fun s _ => by simp [Bool.and_comm]
  simp only [Path.components, h.absolute, if_true, List.cons.injEq, true_and]
  rw [hfilter]
  refine List.map_congr_left fun name hname => ?_
  rw [Path.Component.ofSegment, if_neg (h.plain name hname).ne_here,
    if_neg (h.plain name hname).ne_up]

theorem filter_ne_here (h : ∀ name ∈ place, PlainName name) : place.filter (· ≠ ".") = place := by
  rw [List.filter_eq_self]
  exact fun name hname => by simpa using (h name hname).ne_here

/-- Without links the path leads to its place, if it leads anywhere. -/
theorem place_of_lookup (h : Spells path place) (hfree : tree.LinkFree)
    (hlookup : tree.lookup followLast path = .ok target) : target.place = place := by
  have hwalks := (lookup_iff.1 hlookup).2.walks hfree
  obtain heq | heq := stepsOf_eq path
  · rw [heq, h.names] at hwalks
    rw [hwalks.place_of_down hfree fun name hname => .inl (h.plain name hname),
      filter_ne_here h.plain, List.nil_append]
  · rw [heq, h.names] at hwalks
    have hdown : ∀ name ∈ place ++ ["."], PlainName name ∨ name = "." :=
      List.forall_mem_append.2 ⟨fun name hname => .inl (h.plain name hname), by simp⟩
    rw [hwalks.place_of_down hfree hdown, List.filter_append, filter_ne_here h.plain]
    simp

/-- A path inside a directory is one below the path of the directory. -/
theorem isWithin (hbase : Spells base o) (h : Spells path (o ++ [name])) :
    Path.isWithin path base = true := by
  have hstrip : ∀ as bs, Path.below?.strip as (as ++ bs) = some bs := by
    intro as bs
    induction as with
    | nil => rfl
    | cons a as ih => rw [List.cons_append, Path.below?.strip, if_pos rfl, ih]
  rw [Path.isWithin, Path.below?, hbase.components, h.components, List.map_append,
    ← List.cons_append, hstrip]
  rfl

end Spells

namespace Discovery

variable {tree : FileTree} {root output directory path : String} {place : Place} {depth : Nat}
  {found : List String}

theorem startOf_path (h : ∀ name ∈ place, PlainName name) : startOf place.path = place.path := by
  have hnames := (Spells.of_path h).names
  rw [namesOf] at hnames
  rw [startOf, hnames, if_pos (Spells.of_path h).absolute, Place.path]

theorem plain_of_list {names : List String} (hnamed : tree.Named PlainName)
    (h : tree.list directory = .ok names) : ∀ name ∈ names, PlainName name := by
  unfold FileTree.list at h
  split at h
  · cases h
    exact fun name hname => hnamed _ (mem_names.1 hname) name (by simp)
  all_goals cases h

/-- Names that are in order are taken as they are listed. -/
theorem below_of_sorted {names : List String} (hlist : tree.list directory = .ok names)
    (hsorted : names.Pairwise fun a b => namesInOrder a b = true) :
    below tree (depth + 1) directory = do
      let found ← names.mapM fun name => do
        let path := Path.join directory name
        let inside ← if opens tree directory name then below tree depth path else pure []
        return if Text.endsWith ".ts" name then path :: inside else inside
      return found.flatten := by
  rw [below, hlist]
  simp only []
  rw [List.mergeSort_of_pairwise hsorted]

/-- What is found below a directory is spelled out behind the names of the directory. -/
theorem below_spells (hnamed : tree.Named PlainName) (hdirectory : Spells directory place)
    (h : below tree depth directory = .ok found) :
    ∀ path ∈ found, ∃ names, Spells path (place ++ names) := by
  induction depth generalizing directory place found with
  | zero =>
      cases h
      simp
  | succ depth ih =>
      rw [below] at h
      split at h
      · cases h
      next names hlist =>
      obtain ⟨parts, hparts, h⟩ := Except.bind_ok h
      cases h
      intro path hpath
      obtain ⟨part, hpart, hpath⟩ := List.mem_flatten.1 hpath
      obtain ⟨name, hname, hrun⟩ := Except.mapM_ok hparts part hpart
      have hplain := plain_of_list hnamed hlist name (List.mem_mergeSort.1 hname)
      have hjoin := hdirectory.join hplain
      obtain ⟨inside, hinside, rfl⟩ : ∃ inside : List String,
          (∀ path ∈ inside, ∃ names, Spells path (place ++ names)) ∧
          part = if Text.endsWith ".ts" name then Path.join directory name :: inside
            else inside := by
        dsimp only at hrun
        split at hrun
        · obtain ⟨inside, hinside, hrun⟩ := Except.bind_ok hrun
          cases hrun
          refine ⟨inside, fun path hpath => ?_, rfl⟩
          obtain ⟨names, hspells⟩ := ih hjoin hinside path hpath
          exact ⟨name :: names, by simpa using hspells⟩
        · cases hrun
          exact ⟨[], by simp, rfl⟩
      split at hpath
      · obtain rfl | hpath := List.mem_cons.1 hpath
        · exact ⟨[name], hjoin⟩
        · exact hinside path hpath
      · exact hinside path hpath

/-- A source is spelled out, is a file and does not lie in the output by its path. -/
theorem sources_spell (hnamed : tree.Named PlainName) (hroot : ∀ name ∈ place, PlainName name)
    (h : sources tree place.path output = .ok found) :
    ∀ path ∈ found, ∃ q, Spells path q ∧ tree.isFile path = true ∧
      Path.isWithin path output = false := by
  unfold sources at h
  split at h
  · cases h
    simp
  obtain ⟨all, hall, h⟩ := Except.bind_ok h
  cases h
  intro path hpath
  obtain ⟨hmem, hkept⟩ := List.mem_filter.1 hpath
  rw [startOf_path hroot] at hall
  obtain ⟨names, hspells⟩ := below_spells hnamed (.of_path hroot) hall path hmem
  simp only [Bool.and_eq_true, Bool.not_eq_true'] at hkept
  exact ⟨_, hspells, hkept.1.1, hkept.1.2⟩

end Discovery

end HandlerWeave
