import HandlerWeave.Proofs.FileTree.Walks

/-!
The places that looking a path up can lead to. Their names are never empty, never points, and hold
no slash, so the path of a place has exactly the names of the place for its parts.
-/
namespace HandlerWeave

namespace Path

theorem splitSlash_eq (cs : List Char) : splitSlash cs = cs.splitOn '/' := by
  induction cs with
  | nil => rfl
  | cons c cs ih =>
      rw [List.splitOn_cons_eq_if_modifyHead, splitSlash, ih]
      by_cases h : c = '/'
      · simp [h]
      · simp only [h, if_false, beq_iff_eq]
        cases hs : cs.splitOn '/' with
        | nil => exact absurd hs (List.splitOn_ne_nil _ _)
        | cons segment rest => rfl

theorem slash_notMem_of_mem_splitSlash {cs segment : List Char} (h : segment ∈ splitSlash cs) :
    '/' ∉ segment := by
  induction cs generalizing segment with
  | nil => simp_all [splitSlash]
  | cons c cs ih =>
      simp only [splitSlash] at h
      split at h
      · obtain rfl | h := List.mem_cons.1 h
        · simp
        · exact ih h
      next hc =>
        split at h
        · rw [List.mem_singleton.1 h, List.mem_singleton]
          exact Ne.symm hc
        next segment' rest hs =>
          obtain rfl | h := List.mem_cons.1 h
          · simpa [Ne.symm hc] using ih (hs ▸ List.mem_cons_self)
          · exact ih (hs ▸ List.mem_cons_of_mem _ h)

theorem slash_notMem_of_mem_segments {path segment : String} (h : segment ∈ segments path) :
    '/' ∉ segment.toList := by
  obtain ⟨cs, hcs, rfl⟩ := List.mem_map.1 h
  simpa using slash_notMem_of_mem_splitSlash hcs

end Path

/-- A name that a place can have in it. -/
structure PlainName (name : String) : Prop where
  ne_empty : name ≠ ""
  ne_here : name ≠ "."
  ne_up : name ≠ ".."
  no_slash : '/' ∉ name.toList

instance (name : String) : Decidable (PlainName name) :=
  decidable_of_iff (name ≠ "" ∧ name ≠ "." ∧ name ≠ ".." ∧ '/' ∉ name.toList)
    ⟨fun ⟨hempty, hhere, hup, hslash⟩ => ⟨hempty, hhere, hup, hslash⟩,
      fun h => ⟨h.ne_empty, h.ne_here, h.ne_up, h.no_slash⟩⟩

namespace Place

theorem segments_path {place : Place} (h : ∀ name ∈ place, PlainName name) (hne : place ≠ []) :
    Path.segments place.path = "" :: place := by
  have hpieces : ∀ cs ∈ place.map String.toList, '/' ∉ cs := by
    intro cs hcs
    obtain ⟨name, hname, rfl⟩ := List.mem_map.1 hcs
    exact (h name hname).no_slash
  have hsplit : (String.intercalate "/" place).toList.splitOn '/' = place.map String.toList := by
    rw [String.toList_intercalate]
    exact List.splitOn_intercalate '/' hpieces (by simpa using hne)
  have hcons : place.path.toList = '/' :: (String.intercalate "/" place).toList := by
    simp [Place.path]
  rw [Path.segments, hcons, Path.splitSlash, if_pos rfl, Path.splitSlash_eq, hsplit]
  simp

theorem components_path {place : Place} (h : ∀ name ∈ place, PlainName name) :
    Path.components place.path = .root :: place.map .name := by
  have habsolute : Path.isAbsolute place.path = true := by simp [Place.path, Path.isAbsolute]
  simp only [Path.components, habsolute, if_true, List.cons.injEq, true_and]
  by_cases hne : place = []
  · subst hne
    decide
  · rw [segments_path h hne, List.filter_cons_of_neg (by simp), List.filter_eq_self.2]
    · apply List.map_congr_left
      intro name hname
      simp [Path.Component.ofSegment, (h name hname).ne_here, (h name hname).ne_up]
    · intro name hname
      simp [(h name hname).ne_empty, (h name hname).ne_here]

/-- Different places have paths that differ in their parts. -/
theorem path_inj {p q : Place} (hp : ∀ name ∈ p, PlainName name) (hq : ∀ name ∈ q, PlainName name)
    (h : Path.components p.path = Path.components q.path) : p = q := by
  rw [components_path hp, components_path hq, List.cons.injEq] at h
  exact (List.map_inj_right fun _ _ e => Path.Component.name.inj e).1 h.2

end Place

namespace FileTree

/-- A place that can be walked to: it and the places above it are there. -/
structure Standing (tree : FileTree) (place : Place) : Prop where
  present : ∀ above, above <+: place → (tree.node? above).isSome
  plain : ∀ name ∈ place, PlainName name

variable {tree : FileTree}

theorem standing_root : tree.Standing [] where
  present above h := by
    have hroot : above = [] := List.prefix_nil.1 h
    simp [hroot, node?]
  plain name h := by cases h

theorem Standing.dropLast {place : Place} (h : tree.Standing place) :
    tree.Standing place.dropLast where
  present above ha := h.present above (ha.trans (List.dropLast_prefix place))
  plain name hn := h.plain name (List.dropLast_subset place hn)

theorem Standing.append {place : Place} (h : tree.Standing place) {name : String}
    (hname : PlainName name) (hnode : (tree.node? (place ++ [name])).isSome) :
    tree.Standing (place ++ [name]) where
  present above ha := by
    obtain rfl | ha := List.prefix_concat_iff.1 ha
    · exact hnode
    · exact h.present above ha
  plain other ho := by
    cases List.mem_append.1 ho with
    | inl ho => exact h.plain other ho
    | inr ho =>
        rwa [List.mem_singleton.1 ho]

/-- Names as they stand in a path: a point, two points or a plain name. -/
def Walkable (names : List String) : Prop := ∀ name ∈ names, name ≠ "" ∧ '/' ∉ name.toList

theorem walkable_stepsOf (path : String) : Walkable (stepsOf path) := by
  have hsegments : Walkable ((Path.segments path).filter (· ≠ "")) := by
    intro name hname
    obtain ⟨hmem, hne⟩ := List.mem_filter.1 hname
    exact ⟨by simpa using hne, Path.slash_notMem_of_mem_segments hmem⟩
  unfold stepsOf
  dsimp only
  split
  · intro name hname
    cases List.mem_append.1 hname with
    | inl hname => exact hsegments name hname
    | inr hname =>
        rw [List.mem_singleton.1 hname]
        exact ⟨by decide, by decide⟩
  · exact hsegments

/-- What a path can lead to. -/
def Target.Sound (tree : FileTree) : Target → Prop
  | .present place node => tree.Standing place ∧ tree.node? place = some node
  | .absent place => tree.node? place = none

/-- Where a walk along names can stop. -/
def Stop.Sound (tree : FileTree) : Stop → Prop
  | .reached target => target.Sound tree
  | .atLink place _ rest => tree.Standing place ∧ Walkable rest

theorem IsEntry.plainName {name : String} (h : IsEntry name)
    (hname : name ≠ "" ∧ '/' ∉ name.toList) : PlainName name :=
  ⟨hname.1, h.ne_here, h.ne_up, hname.2⟩

variable {followLast : Bool} {names : List String} {place : Place}

theorem Walks.sound {stop : Stop} (h : Walks tree followLast place names stop)
    (hnames : Walkable names) (hplace : tree.Standing place) : stop.Sound tree := by
  induction h with
  | @nil place =>
      obtain ⟨node, hnode⟩ := Option.isSome_iff_exists.1 (hplace.present place List.prefix_rfl)
      exact ⟨hplace, by rw [hnode, Option.getD_some]⟩
  | here _ ih => exact ih (List.forall_mem_cons.1 hnames).2 hplace
  | up _ ih => exact ih (List.forall_mem_cons.1 hnames).2 hplace.dropLast
  | free _ hnode => exact hnode
  | file hname hnode | lastLink hname hnode _ =>
      have hplain := hname.plainName (List.forall_mem_cons.1 hnames).1
      exact ⟨hplace.append hplain (by simp [hnode]), hnode⟩
  | directory hname hnode _ ih =>
      obtain ⟨hfirst, hrest⟩ := List.forall_mem_cons.1 hnames
      exact ih hrest (hplace.append (hname.plainName hfirst) (by simp [hnode]))
  | link _ _ _ => exact ⟨hplace, (List.forall_mem_cons.1 hnames).2⟩

theorem Leads.sound {links : Nat} {target : Target}
    (h : Leads tree followLast links place names target) (hnames : Walkable names)
    (hplace : tree.Standing place) : target.Sound tree := by
  induction h with
  | stop h => exact h.sound hnames hplace
  | @link _ _ _ spot link rest _ h _ ih =>
      obtain ⟨hspot, hrest⟩ := h.sound hnames hplace
      refine ih (List.forall_mem_append.2 ⟨walkable_stepsOf link, hrest⟩) ?_
      split
      · exact standing_root
      · exact hspot

theorem lookup_sound {path : String} {target : Target}
    (h : tree.lookup followLast path = .ok target) : target.Sound tree :=
  (lookup_iff.1 h).2.sound (walkable_stepsOf path) standing_root

theorem mem_entries_of_node {place : Place} {node : Node} (h : tree.node? place = some node)
    (hne : place ≠ []) : (place, node) ∈ tree.entries := by
  simp only [node?, hne, if_false, Option.map_eq_some_iff] at h
  obtain ⟨entry, hentry, rfl⟩ := h
  have hplace : entry.1 = place := by simpa using List.find?_some hentry
  rw [← hplace]
  exact List.mem_of_find?_eq_some hentry

/-- A path without links is that of a standing place. -/
theorem canonicalize_sound {path key : String} (h : tree.canonicalize path = .ok key) :
    ∃ place, key = Place.path place ∧ tree.Standing place := by
  unfold canonicalize at h
  split at h
  next place node hlookup =>
    cases h
    exact ⟨place, rfl, (lookup_sound hlookup).1⟩
  · cases h
  · cases h

/-- What is read is the text of one of the files. -/
theorem read_sound {path text : String} (h : tree.read path = .ok text) :
    ∃ place contents, (place, Node.file contents) ∈ tree.entries ∧
      String.fromUTF8? contents = some text := by
  unfold read at h
  split at h
  next place contents hlookup =>
    split at h
    next text' htext =>
      cases h
      have hnode := (lookup_sound hlookup).2
      have hne : place ≠ [] := by
        rintro rfl
        simp [node?] at hnode
      exact ⟨place, contents, mem_entries_of_node hnode hne, htext⟩
    · cases h
  all_goals cases h

end FileTree

end HandlerWeave
