import HandlerWeave.Proofs.FileTree.Places

/-!
What a path depends on. Looking it up reads the directories and links on its way and what it ends
at, so it leads to the same place in another tree that has these. A path to a name in a directory
leads through that directory.
-/
namespace HandlerWeave.FileTree

def Target.place : Target → Place
  | present place _ | absent place => place

variable {tree a b : FileTree} {followLast : Bool} {links : Nat} {place o : Place}
  {names xs ys : List String} {stop : Stop} {target : Target} {name path : String}

/-- Nothing stands at the place, or a file. -/
def CanHold (tree : FileTree) (place : Place) : Prop :=
  ∀ node, tree.node? place = some node → ∃ contents, node = .file contents

theorem CanHold.ne_root (h : tree.CanHold place) : place ≠ [] := by
  rintro rfl
  obtain ⟨contents, hnode⟩ := h .directory rfl
  cases hnode

/-- A directory that a walk can go on from: so are those above it. -/
structure Passable (tree : FileTree) (place : Place) : Prop where
  directory : ∀ above, above <+: place → tree.node? above = some .directory
  plain : ∀ name ∈ place, PlainName name

theorem Passable.node (h : tree.Passable place) : tree.node? place = some .directory :=
  h.directory place List.prefix_rfl

theorem passable_root : tree.Passable [] where
  directory above h := by
    rw [List.prefix_nil.1 h]
    rfl
  plain name h := by cases h

theorem Passable.dropLast (h : tree.Passable place) : tree.Passable place.dropLast where
  directory above ha := h.directory above (ha.trans (List.dropLast_prefix place))
  plain name hn := h.plain name (List.dropLast_subset place hn)

theorem Passable.append (h : tree.Passable place) (hname : PlainName name)
    (hnode : tree.node? (place ++ [name]) = some .directory) :
    tree.Passable (place ++ [name]) where
  directory above ha := by
    obtain rfl | ha := List.prefix_concat_iff.1 ha
    · exact hnode
    · exact h.directory above ha
  plain := List.forall_mem_append.2 ⟨h.plain, List.forall_mem_singleton.2 hname⟩

/-- What stands at the end of a walk stands in a directory that the walk has passed. -/
def Stop.Passed (tree : FileTree) : Stop → Prop
  | .reached target =>
    tree.Passable target.place.dropLast ∧ ∀ name ∈ target.place, PlainName name
  | .atLink place _ rest => tree.Passable place ∧ Walkable rest

theorem Passable.passed (h : tree.Passable place) (hname : PlainName name)
    (hplace : target.place = place ++ [name]) : (Stop.reached target).Passed tree := by
  rw [Stop.Passed, hplace, List.dropLast_concat]
  exact ⟨h, List.forall_mem_append.2 ⟨h.plain, List.forall_mem_singleton.2 hname⟩⟩

theorem Walks.passed (h : Walks tree followLast place names stop) (hnames : Walkable names)
    (hplace : tree.Passable place) : stop.Passed tree := by
  induction h with
  | nil => exact ⟨hplace.dropLast, hplace.plain⟩
  | here _ ih => exact ih (List.forall_mem_cons.1 hnames).2 hplace
  | up _ ih => exact ih (List.forall_mem_cons.1 hnames).2 hplace.dropLast
  | free hname _ | file hname _ | lastLink hname _ _ =>
      exact hplace.passed (hname.plainName (List.forall_mem_cons.1 hnames).1) rfl
  | directory hname hnode _ ih =>
      obtain ⟨hfirst, hrest⟩ := List.forall_mem_cons.1 hnames
      exact ih hrest (hplace.append (hname.plainName hfirst) hnode)
  | link _ _ _ => exact ⟨hplace, (List.forall_mem_cons.1 hnames).2⟩

theorem Leads.passed (h : Leads tree followLast links place names target)
    (hnames : Walkable names) (hplace : tree.Passable place) :
    (Stop.reached target).Passed tree := by
  induction h with
  | stop h => exact h.passed hnames hplace
  | @link _ _ _ spot link rest _ h _ ih =>
      obtain ⟨hspot, hrest⟩ := h.passed hnames hplace
      refine ih (List.forall_mem_append.2 ⟨walkable_stepsOf link, hrest⟩) ?_
      split
      · exact passable_root
      · exact hspot

theorem lookup_passed (h : tree.lookup followLast path = .ok target) :
    tree.Passable target.place.dropLast ∧ ∀ name ∈ target.place, PlainName name :=
  (lookup_iff.1 h).2.passed (walkable_stepsOf path) passable_root

/-- The directories and links of one tree are those of another, which may have more. -/
structure Ways (a b : FileTree) : Prop where
  directory : ∀ place, a.node? place = some .directory → b.node? place = some .directory
  link : ∀ place target, a.node? place = some (.link target) → b.node? place = some (.link target)

namespace Ways

theorem refl : Ways a a := ⟨fun _ => id, fun _ _ => id⟩

theorem trans {c : FileTree} (hab : Ways a b) (hbc : Ways b c) : Ways a c where
  directory place h := hbc.directory place (hab.directory place h)
  link place target h := hbc.link place target (hab.link place target h)

end Ways

theorem Passable.of_ways (h : a.Passable place) (hways : Ways a b) : b.Passable place where
  directory above ha := hways.directory above (h.directory above ha)
  plain := h.plain

/-- What stands at a place, as the end of a path. -/
def Target.at (tree : FileTree) (place : Place) : Target :=
  match tree.node? place with
  | some node => .present place node
  | none => .absent place

/-- The same stop with what now stands at its place. -/
def Stop.now (tree : FileTree) : Stop → Stop
  | .reached target => .reached (Target.at tree target.place)
  | .atLink place link rest => .atLink place link rest

theorem Walks.entry_at (hname : IsEntry name) (hhold : tree.CanHold (place ++ [name])) :
    Walks tree followLast place [name] (.reached (Target.at tree (place ++ [name]))) := by
  unfold Target.at
  split
  next node hnode =>
    obtain ⟨contents, rfl⟩ := hhold node hnode
    exact .file hname hnode
  next hnode => exact .free hname hnode

theorem Walks.of_ways (h : Walks a followLast place names stop) (hnames : Walkable names)
    (hplace : a.Passable place) (hways : Ways a b)
    (hend : ∀ target, stop = .reached target → a.CanHold target.place → b.CanHold target.place) :
    Walks b followLast place names (stop.now b) := by
  induction h with
  | @nil place =>
      have hnil : Walks b followLast place [] _ := .nil
      rw [(hplace.of_ways hways).node] at hnil
      rw [Stop.now, Target.place, Target.at, (hplace.of_ways hways).node]
      exact hnil
  | here _ ih => exact .here (ih (List.forall_mem_cons.1 hnames).2 hplace hend)
  | up _ ih => exact .up (ih (List.forall_mem_cons.1 hnames).2 hplace.dropLast hend)
  | free hname hnode =>
      exact .entry_at hname (hend _ rfl fun node heq => nomatch hnode.symm.trans heq)
  | file hname hnode =>
      exact .entry_at hname (hend _ rfl fun node heq =>
        ⟨_, Option.some.inj (heq.symm.trans hnode)⟩)
  | directory hname hnode _ ih =>
      obtain ⟨hfirst, hrest⟩ := List.forall_mem_cons.1 hnames
      exact .directory hname (hways.directory _ hnode)
        (ih hrest (hplace.append (hname.plainName hfirst) hnode) hend)
  | lastLink hname hnode hfollow =>
      rw [Stop.now, Target.place, Target.at, hways.link _ _ hnode]
      exact .lastLink hname (hways.link _ _ hnode) hfollow
  | link hname hnode hfollow => exact .link hname (hways.link _ _ hnode) hfollow

theorem Leads.of_ways (h : Leads a followLast links place names target) (hnames : Walkable names)
    (hplace : a.Passable place) (hways : Ways a b)
    (hend : a.CanHold target.place → b.CanHold target.place) :
    Leads b followLast links place names (Target.at b target.place) := by
  induction h with
  | stop h =>
      refine .stop (h.of_ways hnames hplace hways ?_)
      rintro _ ⟨⟩
      exact hend
  | @link _ _ _ spot link rest _ h _ ih =>
      obtain ⟨hspot, hrest⟩ := h.passed hnames hplace
      refine .link (h.of_ways hnames hplace hways (by simp)) (ih ?_ ?_ hend)
      · exact List.forall_mem_append.2 ⟨walkable_stepsOf link, hrest⟩
      · split
        · exact passable_root
        · exact hspot

/-- A path leads to the same place as long as its way stays, if a file there is not made a
directory. -/
theorem lookup_at_of_ways (hways : Ways a b) (h : a.lookup followLast path = .ok target)
    (hend : a.CanHold target.place → b.CanHold target.place) :
    b.lookup followLast path = .ok (Target.at b target.place) := by
  obtain ⟨hpath, hleads⟩ := lookup_iff.1 h
  exact lookup_iff.2
    ⟨hpath, hleads.of_ways (walkable_stepsOf path) passable_root hways hend⟩

theorem lookup_of_ways {node : Node} (hways : Ways a b)
    (h : a.lookup followLast path = .ok (.present place node)) (hb : b.node? place = some node) :
    b.lookup followLast path = .ok (.present place node) := by
  have hnode : a.node? place = some node := (lookup_sound h).2
  have hlookup := lookup_at_of_ways hways h fun hhold node' hnode' =>
    hhold node' (hnode.trans (hb.symm.trans hnode'))
  rwa [Target.place, Target.at, hb] at hlookup

/-- A walk with more names behind goes the way of the first ones, either to a directory and on from
there or to a link. -/
theorem Walks.split (h : Walks tree followLast place (xs ++ ys) stop) (hys : ys ≠ [])
    (hnames : Walkable xs) (hplace : tree.Passable place) :
    (∃ o, Walks tree true place xs (.reached (.present o .directory)) ∧ tree.Passable o ∧
      Walks tree followLast o ys stop) ∨
    ∃ spot link rest, stop = .atLink spot link (rest ++ ys) ∧
      Walks tree true place xs (.atLink spot link rest) := by
  induction xs generalizing place with
  | nil =>
      have hnil : Walks tree true place [] _ := .nil
      rw [hplace.node] at hnil
      exact .inl ⟨place, hnil, hplace, h⟩
  | cons x xs ih =>
      obtain ⟨hfirst, hrest⟩ := List.forall_mem_cons.1 hnames
      have hmore : xs ++ ys ≠ [] := by simp [hys]
      rw [List.cons_append] at h
      generalize htail : xs ++ ys = tail at h hmore
      cases h with
      | here h =>
          subst htail
          exact (ih h hrest hplace).imp (fun ⟨o, hxs, hrun⟩ => ⟨o, .here hxs, hrun⟩)
            fun ⟨spot, text, rest, heq, hxs⟩ => ⟨spot, text, rest, heq, .here hxs⟩
      | up h =>
          subst htail
          exact (ih h hrest hplace.dropLast).imp (fun ⟨o, hxs, hrun⟩ => ⟨o, .up hxs, hrun⟩)
            fun ⟨spot, text, rest, heq, hxs⟩ => ⟨spot, text, rest, heq, .up hxs⟩
      | free | file | lastLink => exact absurd rfl hmore
      | directory hname hnode h =>
          subst htail
          have hnext := hplace.append (hname.plainName hfirst) hnode
          exact (ih h hrest hnext).imp
            (fun ⟨o, hxs, hrun⟩ => ⟨o, .directory hname hnode hxs, hrun⟩)
            fun ⟨spot, text, rest, heq, hxs⟩ => ⟨spot, text, rest, heq, .directory hname hnode hxs⟩
      | link hname hnode hfollow =>
          subst htail
          exact .inr ⟨_, _, xs, rfl, .link hname hnode (by simp)⟩

theorem Leads.split (h : Leads tree followLast links place (xs ++ ys) target) (hys : ys ≠ [])
    (hnames : Walkable (xs ++ ys)) (hplace : tree.Passable place) :
    ∃ o more, Leads tree true links place xs (.present o .directory) ∧ tree.Passable o ∧
      Leads tree followLast more o ys target := by
  generalize hall : xs ++ ys = names at h
  induction h generalizing xs with
  | @stop links _ _ _ h =>
      subst hall
      have hfirst : Walkable xs := (List.forall_mem_append.1 hnames).1
      obtain ⟨o, hxs, ho, hrun⟩ | ⟨_, _, _, heq, -⟩ := h.split hys hfirst hplace
      · exact ⟨o, links, .stop hxs, ho, .stop hrun⟩
      · cases heq
  | @link links place _ spot link rest _ h hrest ih =>
      subst hall
      obtain ⟨hspot, hwalkable⟩ := h.passed hnames hplace
      have hfirst : Walkable xs := (List.forall_mem_append.1 hnames).1
      obtain ⟨o, hxs, ho, hrun⟩ | ⟨_, _, rest', heq, hxs⟩ := h.split hys hfirst hplace
      · exact ⟨o, links + 1, .stop hxs, ho, .link hrun hrest⟩
      · cases heq
        have hstart : tree.Passable (if Path.isAbsolute link then [] else spot) := by
          split
          · exact passable_root
          · exact hspot
        have hsteps : Walkable (stepsOf link ++ rest' ++ ys) := by
          rw [List.append_assoc]
          exact List.forall_mem_append.2 ⟨walkable_stepsOf link, hwalkable⟩
        obtain ⟨o, more, hleads, ho, hrun⟩ := ih hsteps hstart (List.append_assoc ..)
        exact ⟨o, more, .link hxs hleads, ho, hrun⟩

theorem Walks.append (h : Walks tree true place xs (.reached (.present o .directory)))
    (hrun : Walks tree followLast o ys stop) : Walks tree followLast place (xs ++ ys) stop := by
  generalize hend : Stop.reached (.present o .directory) = reached at h
  induction h with
  | nil =>
      rw [Stop.reached.injEq, Target.present.injEq] at hend
      exact hend.1 ▸ hrun
  | here _ ih => exact .here (ih hend)
  | up _ ih => exact .up (ih hend)
  | directory hname hnode _ ih => exact .directory hname hnode (ih hend)
  | lastLink _ _ hfollow => cases hfollow
  | free | file | link => cases hend

theorem Walks.append_atLink {spot : Place} {link : String} {rest : List String}
    (h : Walks tree true place xs (.atLink spot link rest)) (ys : List String) :
    Walks tree true place (xs ++ ys) (.atLink spot link (rest ++ ys)) := by
  generalize hend : Stop.atLink spot link rest = reached at h
  induction h with
  | nil | free | file | lastLink => cases hend
  | here _ ih => exact .here (ih hend)
  | up _ ih => exact .up (ih hend)
  | directory hname hnode _ ih => exact .directory hname hnode (ih hend)
  | link hname hnode _ =>
      cases hend
      exact .link hname hnode (by simp)

theorem Leads.append (h : Leads tree true links place xs (.present o .directory))
    (hrun : Walks tree true o ys (.reached target)) :
    Leads tree true links place (xs ++ ys) target := by
  generalize hend : Target.present o .directory = reached at h
  induction h with
  | stop h =>
      subst hend
      exact .stop (h.append hrun)
  | link h _ ih =>
      refine .link (h.append_atLink ys) ?_
      rw [← List.append_assoc]
      exact ih hend

end HandlerWeave.FileTree
