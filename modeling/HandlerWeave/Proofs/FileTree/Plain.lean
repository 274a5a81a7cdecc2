import HandlerWeave.Proofs.FileTree.Growth
import Mathlib.Data.List.Induction

/-!
Trees that stand as files do where there are no links: every place once, in a directory, and under a
name that the system takes. Making directories, removing and writing leave such trees.
-/
namespace HandlerWeave

namespace Path

theorem mem_of_mem_splitSlash {cs segment : List Char} {c : Char} (h : segment ∈ splitSlash cs)
    (hc : c ∈ segment) : c ∈ cs := by
  induction cs generalizing segment with
  | nil => simp_all [splitSlash]
  | cons d cs ih =>
      simp only [splitSlash] at h
      split at h
      · obtain rfl | h := List.mem_cons.1 h
        · cases hc
        · exact List.mem_cons_of_mem _ (ih h hc)
      · split at h
        · rw [List.mem_singleton.1 h] at hc
          exact List.mem_singleton.1 hc ▸ List.mem_cons_self
        next first rest hs =>
          obtain rfl | h := List.mem_cons.1 h
          · obtain rfl | hc := List.mem_cons.1 hc
            · exact List.mem_cons_self
            · exact List.mem_cons_of_mem _ (ih (hs ▸ List.mem_cons_self) hc)
          · exact List.mem_cons_of_mem _ (ih (hs ▸ List.mem_cons_of_mem _ h) hc)

theorem mem_of_mem_segments {path segment : String} {c : Char} (h : segment ∈ segments path)
    (hc : c ∈ segment.toList) : c ∈ path.toList := by
  obtain ⟨cs, hcs, rfl⟩ := List.mem_map.1 h
  exact mem_of_mem_splitSlash hcs (by simpa using hc)

end Path

namespace FileTree

structure Plain (tree : FileTree) : Prop where
  distinct : (tree.entries.map (·.1)).Nodup
  named : tree.Named FileName
  linkFree : tree.LinkFree
  inside : ∀ place name, (tree.node? (place ++ [name])).isSome →
    tree.node? place = some .directory

variable {tree a b after : FileTree} {place : Place} {node : Node} {path text : String}
  {followLast : Bool} {target : Target} {contents : ByteArray}

/-- Where there are no links, names that can be walked lead to names that the system takes. -/
theorem Walks.fileNames (hfree : tree.LinkFree) {names : List String}
    (h : Walks tree followLast place names (.reached target))
    (hnames : ∀ name ∈ names, (name ≠ "" ∧ '/' ∉ name.toList) ∧ '\x00' ∉ name.toList)
    (hplace : ∀ name ∈ place, FileName name) : ∀ name ∈ target.place, FileName name := by
  have happend : ∀ {place : Place} {name : String}, IsEntry name →
      (name ≠ "" ∧ '/' ∉ name.toList) ∧ '\x00' ∉ name.toList →
      (∀ name ∈ place, FileName name) → ∀ other ∈ place ++ [name], FileName other :=
    fun hentry hname hplace => List.forall_mem_append.2
      ⟨hplace, List.forall_mem_singleton.2
        ⟨hentry.plainName hname.1, hentry.size_le, hname.2⟩⟩
  generalize hend : Stop.reached target = stop at h
  induction h with
  | nil =>
      cases hend
      exact hplace
  | here _ ih => exact ih (List.forall_mem_cons.1 hnames).2 hplace hend
  | up _ ih =>
      exact ih (List.forall_mem_cons.1 hnames).2
        (fun name hname => hplace name (List.dropLast_subset _ hname)) hend
  | free hname _ | file hname _ | lastLink hname _ _ =>
      cases hend
      exact happend hname (List.forall_mem_cons.1 hnames).1 hplace
  | directory hname _ _ ih =>
      obtain ⟨hfirst, hrest⟩ := List.forall_mem_cons.1 hnames
      exact ih hrest (happend hname hfirst hplace) hend
  | link _ hnode _ => exact absurd hnode (hfree _ _)

theorem lookup_fileNames (hfree : tree.LinkFree)
    (h : tree.lookup followLast path = .ok target) : ∀ name ∈ target.place, FileName name := by
  obtain ⟨⟨hnul, -, -⟩, hleads⟩ := lookup_iff.1 h
  refine (hleads.walks hfree).fileNames hfree (fun name hname => ?_) (by simp)
  refine ⟨walkable_stepsOf path name hname, fun hmem => ?_⟩
  have hsegment : name ∈ Path.segments path ∨ name = "." := by
    obtain hsteps | hsteps := stepsOf_eq path
    · rw [hsteps, namesOf] at hname
      exact .inl (List.mem_filter.1 hname).1
    · rw [hsteps, namesOf, List.mem_append] at hname
      exact hname.imp (fun h => (List.mem_filter.1 h).1) List.mem_singleton.1
  obtain hsegment | rfl := hsegment
  · exact hnul (Path.mem_of_mem_segments hsegment hmem)
  · exact absurd hmem (by decide)

theorem places_set (tree : FileTree) (place : Place) (node : Node) :
    (tree.set place node).entries.map (·.1) = tree.entries.map (·.1) ∨
      place ∉ tree.entries.map (·.1) ∧
        (tree.set place node).entries.map (·.1) = tree.entries.map (·.1) ++ [place] := by
  obtain ⟨entries⟩ := tree
  simp only [set]
  induction entries with
  | nil => exact .inr ⟨List.not_mem_nil, rfl⟩
  | cons entry entries ih =>
      obtain ⟨q, n⟩ := entry
      by_cases hq : q = place
      · exact .inl (by simp [set.put, hq])
      · simp only [set.put, hq, if_false, List.map_cons, List.cons.injEq, true_and, List.mem_cons,
          Ne.symm hq, false_or, List.cons_append]
        exact ih

namespace Plain

theorem passable (h : tree.Plain) (hnode : tree.node? place = some .directory) :
    tree.Passable place where
  directory above habove := by
    obtain ⟨rest, rfl⟩ := habove
    induction rest using List.reverseRecOn with
    | nil => simpa using hnode
    | append_singleton rest name ih =>
        rw [← List.append_assoc] at hnode
        exact ih (h.inside _ name (by rw [hnode]; rfl))
  plain name hname := (h.named place (by rw [hnode]; rfl) name hname).toPlainName

/-- Anything but a link can come to a place in a directory, if no directory goes for it. -/
theorem set (h : tree.Plain) (hnames : ∀ name ∈ place, FileName name)
    (hparent : tree.node? place.dropLast = some .directory)
    (hlink : ∀ target, node ≠ .link target)
    (hkept : tree.node? place = some .directory → node = .directory) :
    (tree.set place node).Plain where
  distinct := by
    obtain hsame | ⟨hnew, happend⟩ := places_set tree place node
    · exact hsame ▸ h.distinct
    · rw [happend, List.nodup_append]
      refine ⟨h.distinct, by simp, fun q hq r hr => ?_⟩
      rw [List.mem_singleton.1 hr]
      exact fun heq => hnew (heq ▸ hq)
  named q hq := by
    rw [node?_set] at hq
    split at hq
    next heq => exact heq.1 ▸ hnames
    · exact h.named q hq
  linkFree q target hq := by
    rw [node?_set] at hq
    split at hq
    · exact hlink target (Option.some.inj hq)
    · exact h.linkFree q target hq
  inside q name hq := by
    have hdirectory : tree.node? q = some .directory := by
      rw [node?_set] at hq
      split at hq
      next heq => simpa [← heq.1] using hparent
      · exact h.inside q name hq
    rw [node?_set]
    split
    next heq =>
      obtain rfl := heq.1
      rw [hkept hdirectory]
    · exact hdirectory

theorem erase (h : tree.Plain) (hnode : tree.node? place ≠ some .directory) :
    (tree.erase place).Plain where
  distinct := (h.distinct.sublist (List.filter_sublist.map _))
  named q hq := by
    rw [node?_erase] at hq
    split at hq
    · cases hq
    · exact h.named q hq
  linkFree q target hq := by
    rw [node?_erase] at hq
    split at hq
    · cases hq
    · exact h.linkFree q target hq
  inside q name hq := by
    have hdirectory : tree.node? q = some .directory := by
      rw [node?_erase] at hq
      split at hq
      · cases hq
      · exact h.inside q name hq
    rw [node?_erase, if_neg, hdirectory]
    rintro ⟨rfl, -⟩
    exact hnode hdirectory

theorem makeDirectory (h : a.Plain) (hmake : a.makeDirectory path = .ok b) : b.Plain := by
  unfold FileTree.makeDirectory add at hmake
  split at hmake
  · cases hmake
  next spot hlookup =>
    cases hmake
    exact h.set (lookup_fileNames h.linkFree hlookup) (lookup_passed hlookup).1.node nofun
      fun _ => rfl
  · cases hmake

theorem remove (h : a.Plain) (hremove : a.remove path = .ok b) : b.Plain := by
  obtain ⟨place, node, hlookup, hne, rfl⟩ := remove_eq hremove
  refine h.erase fun hdirectory => hne ?_
  exact Option.some.inj ((lookup_sound hlookup).2.symm.trans hdirectory)

theorem write (h : a.Plain) (hwrite : a.write path text = .ok b) : b.Plain := by
  obtain ⟨target, hlookup, hhold, rfl⟩ := write_eq hwrite
  refine h.set (lookup_fileNames h.linkFree hlookup) (lookup_passed hlookup).1.node nofun ?_
  intro hdirectory
  obtain ⟨contents, heq⟩ := hhold _ hdirectory
  cases heq

end Plain

theorem plain_of_entries (hdistinct : (tree.entries.map (·.1)).Nodup)
    (hnames : ∀ entry ∈ tree.entries, ∀ name ∈ entry.1, FileName name)
    (hlinks : ∀ entry ∈ tree.entries, ∀ target, entry.2 ≠ .link target)
    (hinside : ∀ entry ∈ tree.entries, tree.node? entry.1.dropLast = some .directory) :
    tree.Plain where
  distinct := hdistinct
  named := named_of_entries hnames
  linkFree := linkFree_of_entries hlinks
  inside place name hsome := by
    obtain ⟨node, hnode⟩ := Option.isSome_iff_exists.1 hsome
    simpa using hinside _ (mem_entries_of_node hnode (by simp))

end FileTree

end HandlerWeave
