import HandlerWeave.Proofs.Discovery.Places
import HandlerWeave.Proofs.FileTree.Plain
import Mathlib.Data.String.Basic

/-!
Paths without detours. Where there are no links, a place is reached by its own path, and no absolute
path to it is shorter; so what can be reached at all is reached that way.
-/
namespace HandlerWeave

namespace Place

/-- The bytes of the names, each with a slash in front. -/
def weight : List String → Nat
  | [] => 0
  | name :: names => name.utf8ByteSize + 1 + weight names

variable {place : Place} {name : String} {names more : List String}

theorem weight_append : weight (names ++ more) = weight names + weight more := by
  induction names with
  | nil => exact (Nat.zero_add _).symm
  | cons name names ih => rw [List.cons_append, weight, weight, ih, ← Nat.add_assoc]

theorem weight_le_of_sublist (h : names.Sublist more) : weight names ≤ weight more := by
  induction h with
  | slnil => exact Nat.le_refl _
  | cons _ _ ih =>
      rw [weight]
      omega
  | cons_cons _ _ ih =>
      rw [weight, weight]
      omega

theorem path_size (hne : place ≠ []) : place.path.utf8ByteSize = weight place := by
  have hslash : "/".utf8ByteSize = 1 := rfl
  rw [Place.path, String.utf8ByteSize_append, hslash]
  induction place with
  | nil => exact absurd rfl hne
  | cons name rest ih =>
      cases rest with
      | nil => simp [weight, Nat.add_comm]
      | cons next rest =>
          have hrest := ih (by simp)
          rw [String.intercalate_cons_cons, String.utf8ByteSize_append, String.utf8ByteSize_append,
            hslash, weight, ← hrest]
          omega

theorem intercalate_concat (hne : place ≠ []) :
    String.intercalate "/" (place ++ [name]) = String.intercalate "/" place ++ "/" ++ name := by
  induction place with
  | nil => exact absurd rfl hne
  | cons first rest ih =>
      cases rest with
      | nil => rfl
      | cons next rest =>
          simp only [List.cons_append, String.intercalate_cons_cons] at ih ⊢
          rw [ih (by simp)]
          simp only [String.append_assoc]

theorem mem_path {c : Char} (h : c ∈ (Place.path place).toList) :
    c = '/' ∨ ∃ name ∈ place, c ∈ name.toList := by
  rw [Place.path, String.toList_append, List.mem_append] at h
  obtain h | h := h
  · exact .inl (by simpa using h)
  induction place with
  | nil => cases h
  | cons first rest ih =>
      cases rest with
      | nil => exact .inr ⟨first, List.mem_cons_self, by simpa using h⟩
      | cons next rest =>
          rw [String.intercalate_cons_cons, String.toList_append, String.toList_append,
            List.mem_append, List.mem_append] at h
          obtain (h | h) | h := h
          · exact .inr ⟨first, List.mem_cons_self, h⟩
          · exact .inl (by simpa using h)
          · obtain hslash | ⟨name, hname, hc⟩ := ih h
            · exact .inl hslash
            · exact .inr ⟨name, List.mem_cons_of_mem _ hname, hc⟩

/-- The path of a name in a place is made as paths are joined. -/
theorem path_concat (hplace : ∀ name ∈ place, PlainName name) (hname : PlainName name) :
    Place.path (place ++ [name]) = Path.join (Place.path place) name := by
  have hnonempty : ∀ place : Place, (Place.path place).isEmpty = false := by simp [Place.path]
  induction place using List.reverseRecOn generalizing name with
  | nil =>
      rw [Path.join, Path.isAbsolute_eq_false hname, hnonempty]
      simp [Place.path]
  | append_singleton front last ih =>
      obtain ⟨hfront, hlast⟩ := List.forall_mem_append.1 hplace
      have hplain := List.forall_mem_singleton.1 hlast
      have hend : (Place.path (front ++ [last])).toList.getLast? ≠ some '/' := by
        rw [ih hfront hplain]
        exact FileTree.getLast?_join_ne_slash _ hplain
      rw [Path.join, Path.isAbsolute_eq_false hname, hnonempty, if_neg (by simp),
        if_neg (by simpa using hend), Place.path, intercalate_concat (by simp), Place.path]
      simp only [String.append_assoc]

end Place

namespace Path

theorem weight_splitSlash (cs : List Char) :
    Place.weight ((splitSlash cs).map String.ofList) = String.utf8Len cs + 1 := by
  induction cs with
  | nil => rfl
  | cons c cs ih =>
      rw [splitSlash]
      split
      next hc =>
        have hslash : '/'.utf8Size = 1 := rfl
        rw [List.map_cons, Place.weight, ih, String.utf8ByteSize_ofList, String.utf8Len_cons,
          String.utf8Len_nil, hc, hslash]
        omega
      · split
        next hs => exact absurd hs (splitSlash_ne_nil cs)
        next segment rest hs =>
          rw [hs] at ih
          rw [List.map_cons, Place.weight, String.utf8ByteSize_ofList] at ih ⊢
          rw [String.utf8Len_cons, String.utf8Len_cons]
          omega

/-- An absolute path is not shorter than its names with their slashes. -/
theorem weight_namesOf_le {path : String} (h : isAbsolute path = true) :
    Place.weight (FileTree.namesOf path) ≤ path.utf8ByteSize := by
  rw [isAbsolute, beq_iff_eq] at h
  obtain ⟨rest, hrest⟩ := List.head?_eq_some_iff.1 h
  have hsize : path.utf8ByteSize = String.utf8Len path.toList := by
    rw [← String.utf8ByteSize_ofList, String.ofList_toList]
  have hweight := weight_splitSlash rest
  have hslash : '/'.utf8Size = 1 := rfl
  have hnames : (FileTree.namesOf path).Sublist ((splitSlash rest).map String.ofList) := by
    rw [FileTree.namesOf, segments, hrest, splitSlash, if_pos rfl, List.map_cons,
      List.filter_cons_of_neg (by simp)]
    exact List.filter_sublist
  refine Nat.le_trans (Place.weight_le_of_sublist hnames) (Nat.le_of_eq ?_)
  rw [hsize, hrest, String.utf8Len_cons, hslash, ← hweight]

end Path

namespace FileTree

variable {tree : FileTree} {place o : Place} {path name : String} {followLast : Bool}
  {target : Target} {names : List String}

theorem Walks.weight_le (hfree : tree.LinkFree)
    (h : Walks tree followLast place names (.reached target)) :
    Place.weight target.place ≤ Place.weight place + Place.weight (names.filter (· ≠ ".")) := by
  generalize hend : Stop.reached target = stop at h
  induction h with
  | nil =>
      cases hend
      exact Nat.le_add_right _ _
  | here _ ih => simpa using ih hend
  | @up place rest _ _ ih =>
      have hdrop := Place.weight_le_of_sublist (List.dropLast_sublist place)
      have hrest := Place.weight_le_of_sublist (List.sublist_cons_self ".." (rest.filter (· ≠ ".")))
      have hfilter : (".." :: rest).filter (· ≠ ".") = ".." :: rest.filter (· ≠ ".") := by simp
      rw [hfilter]
      exact Nat.le_trans (ih hend) (Nat.add_le_add hdrop hrest)
  | free hname _ | file hname _ | lastLink hname _ _ =>
      cases hend
      simp [Target.place, Place.weight_append, hname.ne_here]
  | @directory place name rest _ hname _ _ ih =>
      have hfilter : (name :: rest).filter (· ≠ ".") = [name] ++ rest.filter (· ≠ ".") := by
        simp [hname.ne_here]
      have hlast := ih hend
      rw [Place.weight_append] at hlast
      rw [hfilter, Place.weight_append]
      omega
  | link _ hnode _ => exact absurd hnode (hfree _ _)

/-- What an absolute path leads to has a path that is not longer. -/
theorem size_le_of_lookup (hfree : tree.LinkFree) (habsolute : Path.isAbsolute path = true)
    (h : tree.lookup followLast path = .ok target) :
    (Place.path target.place).utf8ByteSize ≤ path.utf8ByteSize := by
  obtain ⟨⟨-, hne, -⟩, hleads⟩ := lookup_iff.1 h
  by_cases hroot : target.place = []
  · rw [hroot]
    exact Nat.pos_of_ne_zero fun hzero => hne (String.utf8ByteSize_eq_zero_iff.1 hzero)
  have hsteps : (stepsOf path).filter (· ≠ ".") = (namesOf path).filter (· ≠ ".") := by
    obtain hsteps | hsteps := stepsOf_eq path <;> simp [hsteps]
  rw [Place.path_size hroot]
  calc Place.weight target.place
      ≤ Place.weight [] + Place.weight ((stepsOf path).filter (· ≠ ".")) :=
        (hleads.walks hfree).weight_le hfree
    _ = Place.weight ((namesOf path).filter (· ≠ ".")) := by rw [hsteps]; exact Nat.zero_add _
    _ ≤ Place.weight (namesOf path) := Place.weight_le_of_sublist List.filter_sublist
    _ ≤ path.utf8ByteSize := Path.weight_namesOf_le habsolute

theorem Passable.walks (h : tree.Passable (place ++ names))
    (hnames : ∀ name ∈ names, IsEntry name) :
    Walks tree followLast place names (.reached (.present (place ++ names) .directory)) := by
  induction names generalizing place with
  | nil =>
      have hnil : Walks tree followLast place [] _ := .nil
      rw [List.append_nil] at h ⊢
      rwa [h.node] at hnil
  | cons name names ih =>
      obtain ⟨hname, hnames⟩ := List.forall_mem_cons.1 hnames
      have hsplit : place ++ name :: names = place ++ [name] ++ names := by simp
      rw [hsplit] at h ⊢
      exact .directory hname (h.directory _ (List.prefix_append _ _)) (ih h hnames)

theorem Passable.walks_root (h : tree.Passable place) (hnames : ∀ name ∈ place, IsEntry name) :
    Walks tree followLast [] place (.reached (.present place .directory)) :=
  Passable.walks h hnames

/-- The bytes and characters of a path are no obstacle to it. -/
structure Reachable (place : Place) : Prop where
  names : ∀ name ∈ place, FileName name
  size_le : (Place.path place).utf8ByteSize ≤ pathLimit

theorem Reachable.plain {place : Place} (h : Reachable place) : ∀ name ∈ place, PlainName name :=
  fun name hname => (h.names name hname).toPlainName

theorem Reachable.valid {place : Place} (h : Reachable place) :
    '\x00' ∉ (Place.path place).toList ∧ Place.path place ≠ "" ∧
      (Place.path place).utf8ByteSize ≤ pathLimit := by
  refine ⟨fun hnul => ?_, by simp [Place.path], h.size_le⟩
  obtain hslash | ⟨name, hname, hnul⟩ := Place.mem_path hnul
  · exact absurd hslash (by decide)
  · exact (h.names name hname).no_nul hnul

theorem Reachable.of_lookup (hfree : tree.LinkFree) (hplain : ∀ name ∈ place, PlainName name)
    (h : tree.lookup followLast (Place.path place) = .ok target) : Reachable place where
  names := (Spells.of_path hplain).place_of_lookup hfree h ▸ lookup_fileNames hfree h
  size_le := (lookup_iff.1 h).1.2.2

/-- A directory is found by its path. -/
theorem lookup_directory (hreach : Reachable place) (h : tree.Passable place) :
    tree.lookup followLast (Place.path place) = .ok (.present place .directory) := by
  refine lookup_iff.2 ⟨hreach.valid, .stop ?_⟩
  have hentries : ∀ name ∈ place, IsEntry name :=
    fun name hname => (hreach.names name hname).isEntry
  have hnames := (Spells.of_path hreach.plain).names
  obtain hsteps | hsteps := stepsOf_eq (Place.path place)
  · rw [hsteps, hnames]
    exact h.walks_root hentries
  · rw [hsteps, hnames]
    refine (h.walks_root hentries).append (.here ?_)
    have hnil : Walks tree followLast place [] _ := .nil
    rwa [h.node] at hnil

/-- What is no directory is found by its path in a directory. -/
theorem lookup_entry (hreach : Reachable (o ++ [name])) (h : tree.Passable o)
    (hhold : tree.CanHold (o ++ [name])) :
    tree.lookup followLast (Place.path (o ++ [name])) = .ok (Target.at tree (o ++ [name])) := by
  refine lookup_iff.2 ⟨hreach.valid, .stop ?_⟩
  have hplain := hreach.plain
  obtain ⟨hfront, hlast⟩ := List.forall_mem_append.1 hplain
  have hname : PlainName name := List.forall_mem_singleton.1 hlast
  rw [Place.path_concat hfront hname, stepsOf_join hname (by simp [Place.path]),
    (Spells.of_path hfront).names]
  refine (h.walks_root fun other hother =>
    (hreach.names other (List.mem_append_left _ hother)).isEntry).append (.entry_at ?_ hhold)
  exact (hreach.names name (by simp)).isEntry

end FileTree

end HandlerWeave
