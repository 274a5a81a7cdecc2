import HandlerWeave.Proofs.FileTree.Ways

/-!
Writing files. A path that a file is written at leads to that file afterwards, and a path that led
to another place leads there still. Of two paths with different last names, neither a link, this is
always so.
-/
namespace HandlerWeave

namespace Path

theorem splitSlash_ne_nil (cs : List Char) : splitSlash cs ≠ [] := by
  rw [splitSlash_eq]
  exact List.splitOn_ne_nil _ _

theorem splitSlash_append {cs name : List Char} (hname : '/' ∉ name) :
    splitSlash (cs ++ '/' :: name) = splitSlash cs ++ [name] := by
  induction cs with
  | nil =>
      have hwhole : splitSlash name = [name] := by
        rw [splitSlash_eq, List.splitOn_eq_singleton hname]
      simp [splitSlash, hwhole]
  | cons c cs ih =>
      simp only [List.cons_append, splitSlash, ih]
      split
      · rfl
      · cases hs : splitSlash cs with
        | nil => exact absurd hs (splitSlash_ne_nil cs)
        | cons segment rest => rfl

theorem segments_eq_of_slash {path name : String} {front : List Char} (hname : PlainName name)
    (hpath : path.toList = front ++ '/' :: name.toList) :
    segments path = (splitSlash front).map String.ofList ++ [name] := by
  simp [segments, hpath, splitSlash_append hname.no_slash]

theorem isAbsolute_eq_false {name : String} (hname : PlainName name) : isAbsolute name = false := by
  rw [isAbsolute, beq_eq_false_iff_ne]
  exact fun hslash => hname.no_slash (List.mem_of_head? hslash)

/-- A path to a plain name ends in that name, which is its last segment. -/
theorem segments_join (directory : String) {name : String} (hname : PlainName name) :
    ∃ front rest, (join directory name).toList = front ++ name.toList ∧
      segments (join directory name) = rest ++ [name] := by
  have hwhole : segments name = [name] := by
    rw [segments, splitSlash_eq, List.splitOn_eq_singleton hname.no_slash]
    simp
  unfold join
  by_cases hempty : directory.isEmpty
  · exact ⟨[], [], by simp [hempty], by simp [hempty, hwhole]⟩
  rw [if_neg (by simp [isAbsolute_eq_false hname, hempty])]
  split
  next hslash =>
    obtain ⟨front, hfront⟩ := List.getLast?_eq_some_iff.1 (by simpa using hslash)
    have hpath : (directory ++ name).toList = front ++ '/' :: name.toList := by simp [hfront]
    exact ⟨front ++ ['/'], _, by simp [hfront], segments_eq_of_slash hname hpath⟩
  next hslash =>
    have hpath : (directory ++ "/" ++ name).toList = directory.toList ++ '/' :: name.toList := by
      simp
    exact ⟨directory.toList ++ ['/'], _, by simp, segments_eq_of_slash hname hpath⟩

end Path

namespace FileTree

namespace Target

/-- What a path leads to after a file was written at the place `p`. -/
def written (p : Place) (contents : ByteArray) (target : Target) : Target :=
  if target.place = p then present p (.file contents) else target

end Target

variable {tree after : FileTree} {p place other : Place} {node : Node} {contents : ByteArray}
  {name path text : String} {followLast : Bool} {links : Nat} {names : List String} {stop : Stop}
  {target : Target}

theorem node?_set :
    (tree.set place node).node? other =
      if other = place ∧ other ≠ [] then some node else tree.node? other := by
  obtain ⟨entries⟩ := tree
  by_cases hroot : other = []
  · simp [node?, hroot]
  simp only [node?, set, hroot, ne_eq, not_false_eq_true, and_true, if_false]
  induction entries with
  | nil =>
      by_cases h : other = place
      · simp [set.put, h]
      · simp [set.put, h, Ne.symm h]
  | cons entry entries ih =>
      obtain ⟨q, n⟩ := entry
      by_cases hq : q = place
      · subst hq
        by_cases h : other = q
        · simp [set.put, h]
        · simp [set.put, h, Ne.symm h]
      · by_cases h : q = other
        · subst h
          simp [set.put, hq]
        · simpa [set.put, hq, h] using ih

theorem node?_erase :
    (tree.erase place).node? other =
      if other = place ∧ other ≠ [] then none else tree.node? other := by
  by_cases hroot : other = []
  · simp [node?, hroot]
  simp only [node?, erase, hroot, ne_eq, not_false_eq_true, and_true, if_false, List.find?_filter]
  by_cases h : other = place
  · have hnone : tree.entries.find? (fun entry =>
        decide ((entry.1 != place) = true ∧ (entry.1 == other) = true)) = none := by
      rw [List.find?_eq_none]
      intro entry _
      simp [h]
    rw [if_pos h, hnone, Option.map_none]
  · rw [if_neg h]
    congr 2
    funext entry
    by_cases hentry : entry.1 = other <;> simp [hentry, h]

/-- A file that is written adds no way, and takes none where it can be held. -/
theorem ways_set_file : Ways (tree.set place (.file contents)) tree where
  directory other hnode := by
    rw [node?_set] at hnode
    split at hnode
    · cases hnode
    · exact hnode
  link other target hnode := by
    rw [node?_set] at hnode
    split at hnode
    · cases hnode
    · exact hnode

theorem ways_set_of_canHold (h : tree.CanHold place) :
    Ways tree (tree.set place (.file contents)) := by
  have hother : ∀ other node, tree.node? other = some node → (∀ old, node ≠ .file old) →
      (tree.set place (.file contents)).node? other = some node := by
    intro other node hnode hfile
    rw [node?_set, if_neg, hnode]
    rintro ⟨rfl, -⟩
    obtain ⟨old, heq⟩ := h node hnode
    exact hfile old heq
  exact ⟨fun other hnode => hother other _ hnode nofun,
    fun other target hnode => hother other _ hnode nofun⟩

theorem Target.at_set (h : target.Sound tree) (hat : tree.CanHold p) :
    Target.at (tree.set p (.file contents)) target.place = target.written p contents := by
  unfold Target.at Target.written
  rw [node?_set]
  by_cases hp : target.place = p
  · rw [if_pos ⟨hp, hp ▸ hat.ne_root⟩, if_pos hp, hp]
  · rw [if_neg fun heq => hp heq.1, if_neg hp]
    cases target with
    | present place node =>
        have hnode : tree.node? place = some node := h.2
        rw [Target.place, hnode]
    | absent place =>
        have hnode : tree.node? place = none := h
        rw [Target.place, hnode]

theorem CanHold.set (h : tree.CanHold place) : (tree.set p (.file contents)).CanHold place := by
  intro node hnode
  rw [node?_set] at hnode
  split at hnode
  · exact ⟨contents, (Option.some.inj hnode).symm⟩
  · exact h node hnode

theorem lookup_set (hat : tree.CanHold p) (h : tree.lookup followLast path = .ok target) :
    (tree.set p (.file contents)).lookup followLast path = .ok (target.written p contents) := by
  rw [← Target.at_set (lookup_sound h) hat]
  exact lookup_at_of_ways (ways_set_of_canHold hat) h CanHold.set

/-- A file is written to the place that its path leads to, where a file may be. -/
theorem write_eq (h : tree.write path text = .ok after) :
    ∃ target, tree.lookup true path = .ok target ∧ tree.CanHold target.place ∧
      after = tree.set target.place (.file text.toUTF8) := by
  unfold write writeBytes at h
  split at h
  next hlookup =>
    cases h
    obtain ⟨-, hfile⟩ := lookup_sound hlookup
    exact ⟨_, hlookup, fun node hnode => ⟨_, Option.some.inj (hnode.symm.trans hfile)⟩, rfl⟩
  · cases h
  next hlookup =>
    cases h
    have hfree := lookup_sound hlookup
    refine ⟨_, hlookup, fun node hnode => ?_, rfl⟩
    cases hnode.symm.trans hfree
  · cases h

theorem remove_eq (h : tree.remove path = .ok after) :
    ∃ place node, tree.lookup false path = .ok (.present place node) ∧ node ≠ .directory ∧
      after = tree.erase place := by
  unfold remove at h
  split at h
  · cases h
  next hdirectory hlookup =>
    cases h
    exact ⟨_, _, hlookup, hdirectory, rfl⟩
  · cases h
  · cases h

theorem fromUTF8?_toUTF8 (text : String) : String.fromUTF8? text.toUTF8 = some text := by
  rw [String.fromUTF8?, String.toUTF8_eq_toByteArray, dif_pos text.isValidUTF8]
  rfl

theorem read_write (h : tree.write path text = .ok after) : after.read path = .ok text := by
  obtain ⟨target, hlookup, hhold, rfl⟩ := write_eq h
  have hlookup' : (tree.set target.place (.file text.toUTF8)).lookup true path = .ok _ :=
    lookup_set hhold hlookup
  rw [Target.written, if_pos rfl] at hlookup'
  simp only [read, hlookup', fromUTF8?_toUTF8]

/-- No link of the tree has that name. -/
def NoLink (tree : FileTree) (name : String) : Prop :=
  ∀ place target, tree.node? (place ++ [name]) ≠ some (.link target)

/-- What was reached has that last name, or the names that follow the link end in it. -/
def Stop.EndsIn (name : String) : Stop → Prop
  | reached target => target.place.getLast? = some name
  | atLink _ _ rest => rest.getLast? = some name

/-- Where the last name is no link, a walk ends at a place of that name. -/
theorem Walks.last (hname : PlainName name) (hlink : tree.NoLink name)
    (h : Walks tree true place names stop) (hlast : names.getLast? = some name) :
    stop.EndsIn name := by
  induction h with
  | nil => cases hlast
  | @here _ rest _ h ih =>
      cases rest with
      | nil => exact absurd (Option.some.inj hlast).symm hname.ne_here
      | cons => exact ih hlast
  | @up _ rest _ h ih =>
      cases rest with
      | nil => exact absurd (Option.some.inj hlast).symm hname.ne_up
      | cons => exact ih hlast
  | free | file => exact List.getLast?_concat.trans hlast
  | @directory place first rest stop hfirst hnode h ih =>
      cases rest with
      | nil =>
          cases h
          exact List.getLast?_concat.trans hlast
      | cons => exact ih hlast
  | lastLink _ _ hfollow => cases hfollow
  | @link place first rest link _ hnode _ =>
      cases rest with
      | nil =>
          obtain rfl : first = name := Option.some.inj hlast
          exact absurd hnode (hlink place link)
      | cons => exact hlast

theorem Leads.last (hname : PlainName name) (hlink : tree.NoLink name)
    (h : Leads tree true links place names target) (hlast : names.getLast? = some name) :
    target.place.getLast? = some name := by
  induction h with
  | stop h => exact h.last hname hlink hlast
  | link h _ ih =>
      refine ih ?_
      rw [List.getLast?_append, h.last hname hlink hlast]
      rfl

theorem getLast?_join_ne_slash (directory : String) (hname : PlainName name) :
    (Path.join directory name).toList.getLast? ≠ some '/' := by
  obtain ⟨front, segments, htext, -⟩ := Path.segments_join directory hname
  intro hslash
  rw [htext, List.getLast?_append] at hslash
  cases hlast : name.toList.getLast? with
  | none => exact hname.ne_empty (by simpa using hlast)
  | some c =>
      rw [hlast] at hslash
      cases hslash
      exact hname.no_slash (List.mem_of_getLast? hlast)

/-- A plain name in a directory is the last step of its path. -/
theorem getLast?_stepsOf_join (directory : String) (hname : PlainName name) :
    (stepsOf (Path.join directory name)).getLast? = some name := by
  obtain ⟨front, segments, htext, hsegments⟩ := Path.segments_join directory hname
  have hend := getLast?_join_ne_slash directory hname
  simp [stepsOf, hend, hsegments, List.filter_append, hname.ne_empty]

theorem lookup_join_last {directory : String} (hname : PlainName name)
    (hlink : tree.NoLink name) (h : tree.lookup true (Path.join directory name) = .ok target) :
    target.place.getLast? = some name :=
  (lookup_iff.1 h).2.last hname hlink (getLast?_stepsOf_join directory hname)

/-- A file keeps its contents when one of another name is written beside it. -/
theorem read_write_other {directory other old : String} (hname : PlainName name)
    (hother : PlainName other) (hne : other ≠ name) (hlink : tree.NoLink name)
    (hlink' : tree.NoLink other) (hread : tree.read (Path.join directory other) = .ok old)
    (h : tree.write (Path.join directory name) text = .ok after) :
    after.read (Path.join directory other) = .ok old := by
  obtain ⟨target, hlookup, hhold, rfl⟩ := write_eq h
  unfold read at hread
  split at hread
  next place contents hlookup' =>
    have hplace : place ≠ target.place := by
      intro heq
      have hlast := lookup_join_last hother hlink' hlookup'
      rw [Target.place, heq, lookup_join_last hname hlink hlookup] at hlast
      exact hne (Option.some.inj hlast).symm
    have hafter : (tree.set target.place (.file text.toUTF8)).lookup true
        (Path.join directory other) = .ok _ := lookup_set hhold hlookup'
    rw [Target.written, Target.place, if_neg hplace] at hafter
    simpa only [read, hafter] using hread
  all_goals cases hread

end FileTree

end HandlerWeave
