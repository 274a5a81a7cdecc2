import HandlerWeave.FileTree

/-!
How a path is followed, as relations. A walk goes on along its names until it stops at what the last
one leads to or at a link, and following the path starts over behind every link. Properties of what
a path leads to are inductions over these rules.
-/
namespace HandlerWeave.FileTree

/-- A name that is looked up in a directory. -/
structure IsEntry (name : String) : Prop where
  ne_here : name ≠ "."
  ne_up : name ≠ ".."
  size_le : name.utf8ByteSize ≤ nameLimit

/-- Where the walk from a place along names stops. -/
inductive Walks (tree : FileTree) (followLast : Bool) : Place → List String → Stop → Prop
  | nil {place} :
      Walks tree followLast place []
        (.reached (.present place ((tree.node? place).getD .directory)))
  | here {place rest stop} (h : Walks tree followLast place rest stop) :
      Walks tree followLast place ("." :: rest) stop
  | up {place rest stop} (h : Walks tree followLast place.dropLast rest stop) :
      Walks tree followLast place (".." :: rest) stop
  | free {place name} (hname : IsEntry name) (hnode : tree.node? (place ++ [name]) = none) :
      Walks tree followLast place [name] (.reached (.absent (place ++ [name])))
  | file {place name contents} (hname : IsEntry name)
      (hnode : tree.node? (place ++ [name]) = some (.file contents)) :
      Walks tree followLast place [name]
        (.reached (.present (place ++ [name]) (.file contents)))
  | directory {place name rest stop} (hname : IsEntry name)
      (hnode : tree.node? (place ++ [name]) = some .directory)
      (h : Walks tree followLast (place ++ [name]) rest stop) :
      Walks tree followLast place (name :: rest) stop
  | lastLink {place name link} (hname : IsEntry name)
      (hnode : tree.node? (place ++ [name]) = some (.link link)) (hfollow : followLast = false) :
      Walks tree followLast place [name] (.reached (.present (place ++ [name]) (.link link)))
  | link {place name rest link} (hname : IsEntry name)
      (hnode : tree.node? (place ++ [name]) = some (.link link))
      (hfollow : ¬ (rest = [] ∧ followLast = false)) :
      Walks tree followLast place (name :: rest) (.atLink place link rest)

/-- What names lead to from a place, behind at most as many links. -/
inductive Leads (tree : FileTree) (followLast : Bool) :
    Nat → Place → List String → Target → Prop
  | stop {links place names target} (h : Walks tree followLast place names (.reached target)) :
      Leads tree followLast links place names target
  | link {links place names spot link rest target}
      (h : Walks tree followLast place names (.atLink spot link rest))
      (hrest : Leads tree followLast links (if Path.isAbsolute link then [] else spot)
        (stepsOf link ++ rest) target) :
      Leads tree followLast (links + 1) place names target

variable {tree : FileTree} {followLast : Bool} {links : Nat} {place : Place}
  {path : String} {names : List String} {stop : Stop} {target : Target}

theorem walkPlain_walks (h : walkPlain tree followLast place names = .ok stop) :
    Walks tree followLast place names stop := by
  induction names generalizing place with
  | nil =>
      cases h
      exact .nil
  | cons name rest ih =>
      simp only [walkPlain, Bool.not_eq_true'] at h
      split at h
      next heq =>
        rw [heq]
        exact .here (ih h)
      split at h
      next heq =>
        rw [heq]
        exact .up (ih h)
      split at h
      · cases h
      next hhere hup hsize =>
      have hname : IsEntry name := ⟨hhere, hup, Nat.le_of_not_gt hsize⟩
      split at h
      next hnode =>
        split at h
        next hrest =>
          cases h
          rw [hrest]
          exact .free hname hnode
        · cases h
      next hnode => exact .directory hname hnode (ih h)
      next hnode =>
        split at h
        next hrest =>
          cases h
          rw [hrest]
          exact .file hname hnode
        · cases h
      next hnode =>
        split at h
        next hlast =>
          cases h
          rw [hlast.1]
          exact .lastLink hname hnode hlast.2
        next hfollow =>
          cases h
          exact .link hname hnode hfollow

theorem Walks.walkPlain_eq (h : Walks tree followLast place names stop) :
    walkPlain tree followLast place names = .ok stop := by
  induction h with
  | nil => rfl
  | here _ ih => rw [walkPlain, if_pos rfl, ih]
  | up _ ih => rw [walkPlain, if_neg (by decide), if_pos rfl, ih]
  | free hname hnode | file hname hnode =>
      simp [walkPlain, hname.ne_here, hname.ne_up, Nat.not_lt.2 hname.size_le, hnode]
  | directory hname hnode _ ih =>
      simp [walkPlain, hname.ne_here, hname.ne_up, Nat.not_lt.2 hname.size_le, hnode, ih]
  | lastLink hname hnode hfollow | link hname hnode hfollow =>
      simp [walkPlain, hname.ne_here, hname.ne_up, Nat.not_lt.2 hname.size_le, hnode, hfollow]

theorem walk_iff :
    walk tree followLast links place names = .ok target ↔
      Leads tree followLast links place names target := by
  constructor
  · intro h
    induction links generalizing place names with
    | zero =>
        rw [walk] at h
        split at h
        · cases h
        next hwalk =>
          cases h
          exact .stop (walkPlain_walks hwalk)
        · cases h
    | succ links ih =>
        rw [walk] at h
        split at h
        · cases h
        next hwalk =>
          cases h
          exact .stop (walkPlain_walks hwalk)
        next hwalk => exact .link (walkPlain_walks hwalk) (ih h)
  · intro h
    induction h with
    | stop h => rw [walk, h.walkPlain_eq]
    | link h _ ih => rw [walk, h.walkPlain_eq, ← ih]

/-- What a path leads to. A path without names or with too many characters leads nowhere. -/
theorem lookup_iff :
    tree.lookup followLast path = .ok target ↔
      ('\x00' ∉ path.toList ∧ path ≠ "" ∧ path.utf8ByteSize ≤ pathLimit) ∧
        Leads tree followLast linkLimit [] (stepsOf path) target := by
  unfold lookup
  split
  next hnul => simp_all
  split
  next hempty => simp_all
  split
  next hlong => simp [Nat.not_le.2 hlong]
  next hnul hempty hlong =>
    rw [walk_iff]
    simp_all [Nat.le_of_not_gt hlong]

end HandlerWeave.FileTree
