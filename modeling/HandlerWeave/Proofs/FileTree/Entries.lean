import HandlerWeave.Proofs.FileTree.Writes

/-!
What stands directly inside a directory. The path of a name in it leads through the directory to
the place of that name, or to a link there; in a tree without links it leads there if anything
stands there and the path is not too long. A path can be as long as one likes, whatever it leads to.
-/
namespace HandlerWeave

namespace Path

variable {directory name : String}

theorem join_eq (directory : String) (hname : PlainName name) :
    ∃ between, join directory name = directory ++ between ++ name ∧ '\x00' ∉ between.toList := by
  unfold join
  by_cases hempty : directory.isEmpty
  · exact ⟨"", by simp_all, by simp⟩
  rw [if_neg (by simp [isAbsolute_eq_false hname, hempty])]
  split
  · exact ⟨"", by simp, by simp⟩
  · exact ⟨"/", rfl, by decide⟩

end Path

namespace FileTree

variable {tree after : FileTree} {followLast : Bool} {o place : Place} {target : Target}
  {directory name path text : String} {node : Node} {contents : ByteArray}

/-- The names in a path, from which no slash at its end is seen. -/
def namesOf (path : String) : List String := (Path.segments path).filter (· ≠ "")

theorem stepsOf_eq (path : String) :
    stepsOf path = namesOf path ∨ stepsOf path = namesOf path ++ ["."] := by
  unfold stepsOf
  dsimp only
  split
  · exact .inr rfl
  · exact .inl rfl

/-- A name in a directory comes behind the names in the path of the directory. -/
theorem namesOf_join (hname : PlainName name) (hne : directory ≠ "") :
    namesOf (Path.join directory name) = namesOf directory ++ [name] := by
  have hempty : directory.isEmpty = false := by simpa using hne
  have hjoin : Path.join directory name =
      if directory.toList.getLast? == some '/' then directory ++ name
      else directory ++ "/" ++ name := by
    simp [Path.join, Path.isAbsolute_eq_false hname, hempty]
  by_cases hslash : directory.toList.getLast? = some '/'
  case pos =>
    obtain ⟨front, hfront⟩ := List.getLast?_eq_some_iff.1 hslash
    have hpath : (Path.join directory name).toList = front ++ '/' :: name.toList := by
      simp [hjoin, hfront]
    have hsegments : Path.segments directory =
        (Path.splitSlash front).map String.ofList ++ [""] := by
      simp [Path.segments, hfront, Path.splitSlash_append List.not_mem_nil]
    simp [namesOf, Path.segments_eq_of_slash hname hpath, hsegments, hname.ne_empty]
  case neg =>
    have hpath : (Path.join directory name).toList = directory.toList ++ '/' :: name.toList := by
      simp [hjoin, hslash]
    have hsegments : Path.segments (Path.join directory name) = Path.segments directory ++ [name] :=
      Path.segments_eq_of_slash hname hpath
    simp [namesOf, hsegments, hname.ne_empty]

theorem stepsOf_join (hname : PlainName name) (hne : directory ≠ "") :
    stepsOf (Path.join directory name) = namesOf directory ++ [name] := by
  unfold stepsOf
  rw [if_neg (getLast?_join_ne_slash directory hname)]
  exact namesOf_join hname hne

theorem Leads.here {links : Nat} {names : List String} (ho : tree.node? o = some .directory)
    (h : Leads tree true links place names (.present o .directory)) :
    Leads tree true links place (names ++ ["."]) (.present o .directory) := by
  refine h.append (.here ?_)
  have hnil : Walks tree true o [] _ := .nil
  rwa [ho] at hnil

/-- A plain name leads from a directory to its place there, or a link at this place is followed. -/
theorem Leads.entry {links : Nat} (hname : PlainName name)
    (h : Leads tree followLast links o [name] target) :
    target.place = o ++ [name] ∨
      followLast = true ∧ ∃ link, tree.node? (o ++ [name]) = some (.link link) := by
  cases h with
  | stop h =>
      cases h with
      | here => exact absurd rfl hname.ne_here
      | up => exact absurd rfl hname.ne_up
      | free | file | lastLink => exact .inl rfl
      | directory _ _ h =>
          cases h
          exact .inl rfl
  | link h _ =>
      cases h with
      | here => exact absurd rfl hname.ne_here
      | up => exact absurd rfl hname.ne_up
      | directory _ _ h => cases h
      | link _ hnode hfollow =>
          refine .inr ⟨?_, _, hnode⟩
          simpa using hfollow

/-- The path of a name in a directory leads through the directory. -/
theorem lookup_join (hname : PlainName name) (hne : directory ≠ "")
    (h : tree.lookup followLast (Path.join directory name) = .ok target) :
    ∃ o, tree.lookup true directory = .ok (.present o .directory) ∧
      (target.place = o ++ [name] ∨
        followLast = true ∧ ∃ link, tree.node? (o ++ [name]) = some (.link link)) := by
  obtain ⟨⟨hnul, -, hsize⟩, hleads⟩ := lookup_iff.1 h
  obtain ⟨between, hjoin, -⟩ := Path.join_eq directory hname
  have hsteps := stepsOf_join hname hne
  have hwalkable : Walkable (namesOf directory ++ [name]) := hsteps ▸ walkable_stepsOf _
  rw [hsteps] at hleads
  obtain ⟨o, more, hfront, ho, hlast⟩ := hleads.split (by simp) hwalkable passable_root
  refine ⟨o, lookup_iff.2 ⟨⟨?_, hne, ?_⟩, ?_⟩, hlast.entry hname⟩
  · intro hmem
    exact hnul (by simp [hjoin, hmem])
  · rw [hjoin, String.utf8ByteSize_append, String.utf8ByteSize_append] at hsize
    omega
  · obtain hdirectory | hdirectory := stepsOf_eq directory
    · exact hdirectory ▸ hfront
    · exact hdirectory ▸ hfront.here ho.node

/-- Nothing in the tree is a link. -/
def LinkFree (tree : FileTree) : Prop := ∀ place target, tree.node? place ≠ some (.link target)

theorem Walks.not_atLink (hfree : tree.LinkFree) {spot : Place} {link : String}
    {names rest : List String} : ¬ Walks tree followLast place names (.atLink spot link rest) := by
  intro h
  generalize hend : Stop.atLink spot link rest = stop at h
  induction h with
  | nil | free | file | lastLink => cases hend
  | here _ ih | up _ ih | directory _ _ _ ih => exact ih hend
  | link _ hnode _ => exact hfree _ _ hnode

theorem Leads.walks (hfree : tree.LinkFree) {links : Nat} {names : List String}
    (h : Leads tree followLast links place names target) :
    Walks tree followLast place names (.reached target) := by
  cases h with
  | stop h => exact h
  | link h _ => exact absurd h (Walks.not_atLink hfree)

/-- Where a path into a directory leads, if it is not too long. -/
theorem lookup_join_of (hfree : tree.LinkFree) (hname : PlainName name) (hentry : IsEntry name)
    (hnul : '\x00' ∉ name.toList)
    (hdirectory : tree.lookup true directory = .ok (.present o .directory))
    (hnode : tree.node? (o ++ [name]) = some (.file contents))
    (hsize : (Path.join directory name).utf8ByteSize ≤ pathLimit) :
    tree.lookup followLast (Path.join directory name) =
      .ok (.present (o ++ [name]) (.file contents)) := by
  obtain ⟨⟨hnul', hne, -⟩, hleads⟩ := lookup_iff.1 hdirectory
  obtain ⟨between, hjoin, hbetween⟩ := Path.join_eq directory hname
  have hwalk : Walks tree true [] (namesOf directory) (.reached (.present o .directory)) := by
    have hall := hleads.walks hfree
    have hwalkable := walkable_stepsOf directory
    obtain hsteps | hsteps := stepsOf_eq directory
    · exact hsteps ▸ hall
    · rw [hsteps] at hall hwalkable
      obtain ⟨o', hrest, ho', hpoint⟩ | ⟨_, _, _, heq, -⟩ :=
        hall.split (by simp) (List.forall_mem_append.1 hwalkable).1 passable_root
      · have hend : o' = o := by
          have hplain := hpoint.walkPlain_eq
          simp only [walkPlain, if_true, Except.ok.injEq, Stop.reached.injEq,
            Target.present.injEq] at hplain
          exact hplain.1
        exact hend ▸ hrest
      · cases heq
  refine lookup_iff.2 ⟨⟨?_, ?_, hsize⟩, ?_⟩
  · simp [hjoin, hnul', hbetween, hnul]
  · intro hempty
    simp [hjoin, hne] at hempty
  · rw [stepsOf_join hname hne]
    exact .stop (hwalk.append (.file hentry hnode))

/-- What can stand in a directory under a name. -/
structure FileName (name : String) : Prop extends PlainName name where
  size_le : name.utf8ByteSize ≤ nameLimit
  no_nul : '\x00' ∉ name.toList

instance (name : String) : Decidable (FileName name) :=
  decidable_of_iff (PlainName name ∧ name.utf8ByteSize ≤ nameLimit ∧ '\x00' ∉ name.toList)
    ⟨fun ⟨hplain, hsize, hnul⟩ => ⟨hplain, hsize, hnul⟩,
      fun h => ⟨h.toPlainName, h.size_le, h.no_nul⟩⟩

theorem FileName.isEntry (h : FileName name) : IsEntry name := ⟨h.ne_here, h.ne_up, h.size_le⟩

/-- All names in the tree are such ones. -/
def Named (P : String → Prop) (tree : FileTree) : Prop :=
  ∀ place, (tree.node? place).isSome → ∀ name ∈ place, P name

theorem isSome_node?_of_mem (h : (place, node) ∈ tree.entries) : (tree.node? place).isSome := by
  unfold node?
  split
  · rfl
  · rw [Option.isSome_map, List.find?_isSome]
    exact ⟨_, h, by simp⟩

theorem named_of_entries {P : String → Prop}
    (h : ∀ entry ∈ tree.entries, ∀ name ∈ entry.1, P name) : tree.Named P := by
  intro place hplace
  obtain ⟨node, hnode⟩ := Option.isSome_iff_exists.1 hplace
  by_cases hroot : place = []
  · simp [hroot]
  · exact h _ (mem_entries_of_node hnode hroot)

theorem linkFree_of_entries (h : ∀ entry ∈ tree.entries, ∀ target, entry.2 ≠ .link target) :
    tree.LinkFree := by
  intro place target hnode
  by_cases hroot : place = []
  · simp [hroot, node?] at hnode
  · exact h _ (mem_entries_of_node hnode hroot) target rfl

/-- The names listed in a directory are those of what stands in it. -/
theorem mem_names : name ∈ tree.names o ↔ (tree.node? (o ++ [name])).isSome := by
  rw [names, List.mem_filterMap]
  constructor
  · rintro ⟨⟨place, node⟩, hmem, hname⟩
    obtain ⟨hplace, hlast⟩ := Option.ite_none_right_eq_some.1 hname
    obtain ⟨front, rfl⟩ := List.getLast?_eq_some_iff.1 hlast
    rw [List.dropLast_concat] at hplace
    exact hplace ▸ isSome_node?_of_mem hmem
  · intro hsome
    obtain ⟨node, hnode⟩ := Option.isSome_iff_exists.1 hsome
    exact ⟨_, mem_entries_of_node hnode (by simp), by simp⟩

/-- A path that goes to `name` behind `n` points. -/
def pointed (name : String) (n : Nat) : String :=
  "/" ++ String.join (List.replicate n "./") ++ name

theorem pointed_toList (name : String) (n : Nat) :
    (pointed name n).toList = '/' :: ((List.replicate n ['.', '/']).flatten ++ name.toList) := by
  simp [pointed, String.toList_join, List.flatMap_replicate]

theorem pointed_size (name : String) (n : Nat) :
    (pointed name n).utf8ByteSize = 2 * n + 1 + name.utf8ByteSize := by
  have hpoints : (String.join (List.replicate n "./")).utf8ByteSize = 2 * n := by
    induction n with
    | zero => rfl
    | succ n ih =>
        rw [List.replicate_succ, String.join_cons, String.utf8ByteSize_append, ih]
        have hpoint : "./".utf8ByteSize = 2 := rfl
        omega
  rw [pointed, String.utf8ByteSize_append, String.utf8ByteSize_append, hpoints]
  have hslash : "/".utf8ByteSize = 1 := rfl
  omega

theorem pointed_last {name : String} (hname : PlainName name) (n : Nat) :
    (pointed name n).toList.getLast? ≠ some '/' := by
  cases hend : name.toList.getLast? with
  | none => exact absurd (by simpa using hend) hname.ne_empty
  | some c =>
      have hc : c ≠ '/' := by
        rintro rfl
        exact hname.no_slash (List.mem_of_getLast? hend)
      rw [pointed_toList, ← List.cons_append, List.getLast?_append, hend]
      simpa using hc

theorem dropSlashes_eq {path : String} (h : path.toList.getLast? ≠ some '/') :
    dropSlashes path = path := by
  have hkept : path.toList.reverse.dropWhile (· == '/') = path.toList.reverse := by
    rw [List.getLast?_eq_head?_reverse] at h
    cases hlast : path.toList.reverse with
    | nil => rfl
    | cons c cs =>
        rw [hlast] at h
        exact List.dropWhile_cons_of_neg (by simpa using h)
  unfold dropSlashes
  rw [hkept]
  split
  · rfl
  next hreverse => rw [List.reverse_reverse, String.ofList_toList]

theorem stepsOf_pointed {name : String} (hname : PlainName name) (n : Nat) :
    stepsOf (pointed name n) = List.replicate n "." ++ [name] := by
  have hsplit : ∀ n, Path.splitSlash ((List.replicate n ['.', '/']).flatten ++ name.toList) =
      List.replicate n ['.'] ++ [name.toList] := by
    intro n
    induction n with
    | zero =>
        rw [List.replicate_zero, List.flatten_nil, List.nil_append, Path.splitSlash_eq,
          List.splitOn_eq_singleton hname.no_slash]
        rfl
    | succ n ih => simp [List.replicate_succ, Path.splitSlash, ih]
  rw [stepsOf, if_neg (pointed_last hname n), Path.segments, pointed_toList, Path.splitSlash,
    if_pos rfl, hsplit]
  have hpoints : (List.replicate n ".").filter (· ≠ "") = List.replicate n "." := by
    rw [List.filter_eq_self]
    intro s hs
    rw [List.eq_of_mem_replicate hs]
    rfl
  have hkept : [name].filter (· ≠ "") = [name] := by simp [hname.ne_empty]
  rw [List.map_cons, List.map_append, List.map_replicate, List.map_singleton,
    String.ofList_toList, List.filter_cons_of_neg (by simp), List.filter_append, hkept]
  exact congrArg (· ++ [name]) hpoints

theorem walks_points {names : List String} {stop : Stop}
    (h : Walks tree followLast place names stop) (n : Nat) :
    Walks tree followLast place (List.replicate n "." ++ names) stop := by
  induction n with
  | zero => exact h
  | succ n ih => exact .here ih

/-- The path leads to a directory of that name under the root. -/
theorem lookup_pointed {name : String} (hname : PlainName name) (hentry : IsEntry name)
    (hnul : '\x00' ∉ name.toList) (hnode : tree.node? [name] = some .directory) {n : Nat}
    (hsize : (pointed name n).utf8ByteSize ≤ pathLimit) :
    tree.lookup followLast (pointed name n) = .ok (.present [name] .directory) := by
  refine lookup_iff.2 ⟨⟨?_, ?_, hsize⟩, .stop ?_⟩
  · rw [pointed_toList]
    simp [hnul]
  · intro hempty
    have htext := pointed_toList name n
    rw [hempty] at htext
    cases htext
  · rw [stepsOf_pointed hname]
    have hnil : Walks tree followLast [name] [] _ := .nil
    rw [hnode] at hnil
    exact walks_points (.directory hentry hnode hnil) n

end FileTree

end HandlerWeave
