import HandlerWeave.Proofs.FileTree.Sizes
import Mathlib.Data.List.Nodup

/-!
The search for sources in two trees, one after the other. Where the second has only lost and gained
entries that are not looked for, the search finds the same in the same order.
-/
namespace HandlerWeave

open FileTree

namespace Except

variable {ε α β : Type} {f g : α → Except ε (List β)} {xs : List α} {ys : List (List β)}

/-- What was found, or nothing. -/
def found (x : Except ε (List β)) : List β := x.toOption.getD []

theorem eq_ok_found {x : Except ε (List β)} {v : List β} (h : x = .ok v) : x = .ok (found x) := by
  rw [h]
  rfl

theorem mapM_eq_ok : xs.mapM f = .ok ys ↔
    (∀ x ∈ xs, f x = .ok (found (f x))) ∧ ys = xs.map fun x => found (f x) := by
  induction xs generalizing ys with
  | nil =>
      rw [List.mapM_nil]
      exact ⟨fun h => ⟨by simp, (Except.ok.inj h).symm⟩, fun h => congrArg _ h.2.symm⟩
  | cons x xs ih =>
      rw [List.mapM_cons]
      constructor
      · intro h
        obtain ⟨y, hy, h⟩ := bind_ok h
        obtain ⟨rest, hrest, h⟩ := bind_ok h
        cases h
        obtain ⟨hall, rfl⟩ := ih.1 hrest
        exact ⟨List.forall_mem_cons.2 ⟨eq_ok_found hy, hall⟩, by rw [List.map_cons, hy]; rfl⟩
      · rintro ⟨hall, rfl⟩
        obtain ⟨hx, hall⟩ := List.forall_mem_cons.1 hall
        rw [hx, ih.2 ⟨hall, rfl⟩]
        rfl

theorem mapM_congr (h : ∀ x ∈ xs, f x = g x) : xs.mapM f = xs.mapM g := by
  induction xs with
  | nil => rfl
  | cons x xs ih =>
      obtain ⟨hx, hxs⟩ := List.forall_mem_cons.1 h
      rw [List.mapM_cons, List.mapM_cons, hx, ih hxs]

end Except

namespace FileTree

variable {tree : FileTree} {place : Place} {name : String}

theorem Plain.names_nodup (h : tree.Plain) (place : Place) : (tree.names place).Nodup := by
  have hnames : tree.names place = (tree.entries.map (·.1)).filterMap fun p =>
      if p.dropLast = place then p.getLast? else none := by
    rw [List.filterMap_map]
    rfl
  rw [hnames]
  refine List.Nodup.filterMap ?_ h.distinct
  intro p q name hp hq
  obtain ⟨hfront, hlast⟩ := Option.ite_none_right_eq_some.1 hp
  obtain ⟨hfront', hlast'⟩ := Option.ite_none_right_eq_some.1 hq
  obtain ⟨front, rfl⟩ := List.getLast?_eq_some_iff.1 hlast
  obtain ⟨front', rfl⟩ := List.getLast?_eq_some_iff.1 hlast'
  simpa using hfront.trans hfront'.symm

end FileTree

namespace Discovery

variable {tree before after : FileTree} {place : Place} {name : String} {depth : Nat}
  {found : List String}

theorem namesInOrder_trans (a b c : String) (hab : namesInOrder a b = true)
    (hbc : namesInOrder b c = true) : namesInOrder a c = true := by
  simp only [namesInOrder, decide_eq_true_eq] at hab hbc ⊢
  exact String.le_trans hab hbc

theorem namesInOrder_total (a b : String) : (namesInOrder a b || namesInOrder b a) = true := by
  simpa [namesInOrder] using String.le_total a b

theorem mergeSort_inOrder (names : List String) :
    (names.mergeSort namesInOrder).Pairwise fun a b => namesInOrder a b = true :=
  List.pairwise_mergeSort namesInOrder_trans namesInOrder_total names

/-- Of two lists of names those that are in both come in one order. -/
theorem flatMap_mergeSort {α : Type} {xs ys : List String} (hxs : xs.Nodup) (hys : ys.Nodup)
    {f g : String → List α} (hboth : ∀ n ∈ xs, n ∈ ys → f n = g n)
    (hleft : ∀ n ∈ xs, n ∉ ys → f n = []) (hright : ∀ n ∈ ys, n ∉ xs → g n = []) :
    (xs.mergeSort namesInOrder).flatMap f = (ys.mergeSort namesInOrder).flatMap g := by
  have hperm : ((xs.mergeSort namesInOrder).filter (· ∈ ys)).Perm
      ((ys.mergeSort namesInOrder).filter (· ∈ xs)) := by
    refine (List.perm_ext_iff_of_nodup ?_ ?_).2 fun n => ?_
    · exact ((List.mergeSort_perm xs _).nodup_iff.2 hxs).filter _
    · exact ((List.mergeSort_perm ys _).nodup_iff.2 hys).filter _
    · simp [and_comm]
  have heq := hperm.eq_of_pairwise (fun a b _ _ hab hba => ?order)
    ((mergeSort_inOrder xs).filter _) ((mergeSort_inOrder ys).filter _)
  case order =>
    simp only [namesInOrder, decide_eq_true_eq] at hab hba
    exact String.le_antisymm hab hba
  have hshrink : ∀ (zs ws : List String) (h : String → List α), (∀ n ∈ zs, n ∉ ws → h n = []) →
      zs.flatMap h = (zs.filter (· ∈ ws)).flatMap h := by
    intro zs ws h hnone
    induction zs with
    | nil => rfl
    | cons z zs ih =>
        obtain ⟨hz, hzs⟩ := List.forall_mem_cons.1 hnone
        by_cases hmem : z ∈ ws
        · simp [hmem, ih hzs]
        · simp [hmem, ih hzs, hz hmem]
  rw [hshrink _ ys f fun n hn => hleft n (List.mem_mergeSort.1 hn),
    hshrink _ xs g fun n hn => hright n (List.mem_mergeSort.1 hn), ← heq]
  refine List.flatMap_congr fun n hn => ?_
  obtain ⟨hn, hmem⟩ := List.mem_filter.1 hn
  exact hboth n (List.mem_mergeSort.1 hn) (by simpa using hmem)

/-- The path of a name, if it is one to be found. -/
def own (place : Place) (name : String) : List String :=
  if Text.endsWith ".ts" name then [Place.path (place ++ [name])] else []

/-- What one name in a directory comes to. -/
def entry (tree : FileTree) (depth : Nat) (place : Place) (name : String) :
    Except DiscoveryError (List String) :=
  if tree.node? (place ++ [name]) = some .directory then do
    return own place name ++ (← below tree depth (Place.path (place ++ [name])))
  else .ok (own place name)

theorem below_place (h : tree.Plain) (hreach : Reachable place)
    (hdirectory : tree.node? place = some .directory) :
    below tree (depth + 1) (Place.path place) = do
      let found ← ((tree.names place).mergeSort namesInOrder).mapM (entry tree depth place)
      return found.flatten := by
  have hlookup : tree.lookup true (Place.path place) = .ok (.present place .directory) :=
    lookup_directory hreach (h.passable hdirectory)
  have hlist : tree.list (Place.path place) = .ok (tree.names place) := by
    rw [FileTree.list, hlookup]
  rw [below, hlist]
  simp only []
  congr 1
  refine Except.mapM_congr fun name hname => ?_
  have hnode := mem_names.1 (List.mem_mergeSort.1 hname)
  have hplain : PlainName name := (h.named _ hnode name (by simp)).toPlainName
  have hopens : opens tree (Place.path place) name =
      decide (tree.node? (place ++ [name]) = some .directory) := by
    rw [opens, hlookup]
    obtain ⟨node, hnode⟩ := Option.isSome_iff_exists.1 hnode
    cases node with
    | link target => exact absurd hnode (h.linkFree _ _)
    | file contents | directory => simp [hnode]
  have hown : ∀ inside : List String, (if Text.endsWith ".ts" name then
      Path.join (Place.path place) name :: inside else inside) = own place name ++ inside := by
    intro inside
    rw [own, Place.path_concat hreach.plain hplain]
    split <;> rfl
  simp only [entry, hopens, hown, decide_eq_true_eq, Place.path_concat hreach.plain hplain]
  split
  · rfl
  · exact congrArg Except.ok (List.append_nil _)

/-- What is found in a directory is what its names come to, one after the other. -/
theorem below_ok (h : tree.Plain) (hreach : Reachable place)
    (hdirectory : tree.node? place = some .directory) :
    below tree (depth + 1) (Place.path place) = .ok found ↔
      (∀ name ∈ tree.names place, ∃ part, entry tree depth place name = .ok part) ∧
        found = ((tree.names place).mergeSort namesInOrder).flatMap fun name =>
          Except.found (entry tree depth place name) := by
  rw [below_place h hreach hdirectory]
  constructor
  · intro hfound
    obtain ⟨parts, hparts, hfound⟩ := Except.bind_ok hfound
    cases hfound
    obtain ⟨hall, rfl⟩ := Except.mapM_eq_ok.1 hparts
    exact ⟨fun name hname => ⟨_, hall name (List.mem_mergeSort.2 hname)⟩, rfl⟩
  · rintro ⟨hall, rfl⟩
    rw [Except.mapM_eq_ok.2 ⟨fun name hname => ?_, rfl⟩]
    · rfl
    · obtain ⟨part, hpart⟩ := hall name (List.mem_mergeSort.1 hname)
      exact Except.eq_ok_found hpart

theorem reachable_of_below (h : tree.Plain) (hplain : ∀ name ∈ place, PlainName name)
    (hfound : below tree (depth + 1) (Place.path place) = .ok found) :
    Reachable place ∧ tree.node? place = some .directory := by
  have hspells := Spells.of_path hplain
  rw [below] at hfound
  split at hfound
  · cases hfound
  next names hlist =>
  unfold FileTree.list at hlist
  split at hlist
  next o hlookup =>
    obtain rfl : o = place := hspells.place_of_lookup h.linkFree hlookup
    exact ⟨.of_lookup h.linkFree hplain hlookup, (lookup_sound hlookup).2⟩
  all_goals cases hlist

/-- Of some paths those that are looked for are among the ones to be found. -/
def Covered (k : String → Bool) (wanted paths : List String) : Prop :=
  ∀ path ∈ paths, k path = true → path ∈ wanted

/-- A tree and a later one, with what is looked for in each of them and what is to be found. All
directories stay, and a new one can be reached. What is to be found is there before and after. -/
structure Sees (before after : FileTree) (k k' : String → Bool) (wanted : List String) : Prop where
  plain : before.Plain
  plain' : after.Plain
  directory : ∀ place, before.node? place = some .directory → after.node? place = some .directory
  fresh : ∀ place, after.node? place = some .directory →
    before.node? place = some .directory ∨ before.node? place = none ∧ Reachable place
  kept : ∀ place, Covered k wanted [Place.path place] → (before.node? place).isSome →
    (after.node? place).isSome → k (Place.path place) = k' (Place.path place)
  gone : ∀ place, Covered k wanted [Place.path place] → (before.node? place).isSome →
    after.node? place = none → k (Place.path place) = false
  new : ∀ place, before.node? place = none → (after.node? place).isSome →
    k' (Place.path place) = false

namespace Sees

variable {k k' : String → Bool} {wanted : List String} (h : Sees before after k k' wanted)

include h

theorem own_new (hnone : before.node? (place ++ [name]) = none)
    (hsome : (after.node? (place ++ [name])).isSome) : (own place name).filter k' = [] := by
  unfold own
  split
  · rw [List.filter_singleton, h.new _ hnone hsome]
    rfl
  · rfl

/-- In a new directory there is nothing that is looked for. -/
theorem below_fresh (hfresh : before.node? place = none) (hreach : Reachable place)
    (hdirectory : after.node? place = some .directory) :
    ∃ found, below after depth (Place.path place) = .ok found ∧ found.filter k' = [] := by
  induction depth generalizing place with
  | zero => exact ⟨[], rfl, rfl⟩
  | succ depth ih =>
      have hentry : ∀ name ∈ after.names place,
          ∃ found, entry after depth place name = .ok found ∧ found.filter k' = [] := by
        intro name hname
        have hnone : before.node? (place ++ [name]) = none := by
          rw [← Option.not_isSome_iff_eq_none]
          intro hsome
          cases (h.plain.inside place name hsome).symm.trans hfresh
        have hown := h.own_new hnone (mem_names.1 hname)
        by_cases hnode : after.node? (place ++ [name]) = some .directory
        · obtain hold | ⟨-, hreach⟩ := h.fresh _ hnode
          · cases hold.symm.trans hnone
          obtain ⟨inside, hinside, hfilter⟩ := ih hnone hreach hnode
          refine ⟨own place name ++ inside, ?_, by rw [List.filter_append, hown, hfilter]; rfl⟩
          rw [entry, if_pos hnode, hinside]
          rfl
        · exact ⟨own place name, if_neg hnode, hown⟩
      refine ⟨_, (below_ok h.plain' hreach hdirectory).2
        ⟨fun name hname => (hentry name hname).imp fun _ => And.left, rfl⟩, ?_⟩
      rw [List.filter_flatMap, List.flatMap_eq_nil_iff]
      intro name hname
      obtain ⟨part, hpart, hfilter⟩ := hentry name (List.mem_mergeSort.1 hname)
      rw [hpart]
      exact hfilter

theorem own_kept (hcovered : Covered k wanted (own place name))
    (hsome : (before.node? (place ++ [name])).isSome)
    (hsome' : (after.node? (place ++ [name])).isSome) :
    (own place name).filter k = (own place name).filter k' := by
  unfold own at hcovered ⊢
  split
  next hending =>
    rw [if_pos hending] at hcovered
    rw [List.filter_singleton, List.filter_singleton, h.kept _ hcovered hsome hsome']
  · rfl

theorem own_gone (hcovered : Covered k wanted (own place name))
    (hsome : (before.node? (place ++ [name])).isSome)
    (hnone : after.node? (place ++ [name]) = none) : (own place name).filter k = [] := by
  unfold own at hcovered ⊢
  split
  next hending =>
    rw [if_pos hending] at hcovered
    rw [List.filter_singleton, h.gone _ hcovered hsome hnone]
    rfl
  · rfl

/-- A name that is there later comes to what it came to before, as far as that is looked for. -/
theorem entry_again
    (hbelow : ∀ {place found}, (∀ name ∈ place, PlainName name) → Covered k wanted found →
      below before depth (Place.path place) = .ok found →
      ∃ found', below after depth (Place.path place) = .ok found' ∧
        found'.filter k' = found.filter k)
    (hplain : ∀ name ∈ place, PlainName name)
    (hentries : ∀ name ∈ before.names place, ∃ part, entry before depth place name = .ok part ∧
      Covered k wanted part)
    (hname : name ∈ after.names place) :
    ∃ part, entry after depth place name = .ok part ∧
      part.filter k' = if name ∈ before.names place then
        (Except.found (entry before depth place name)).filter k else [] := by
  have hsome := mem_names.1 hname
  by_cases hnode : after.node? (place ++ [name]) = some .directory
  case neg =>
    refine ⟨own place name, if_neg hnode, ?_⟩
    split
    next hold =>
      obtain ⟨part, hpart, hcovered⟩ := hentries name hold
      rw [entry, if_neg fun hbefore => hnode (h.directory _ hbefore)] at hpart ⊢
      cases hpart
      exact (h.own_kept hcovered (mem_names.1 hold) hsome).symm
    next hnew => exact h.own_new (by simpa [mem_names] using hnew) hsome
  case pos =>
    rw [entry, if_pos hnode]
    obtain hold | ⟨hnone, hreach⟩ := h.fresh _ hnode
    · have hmem : name ∈ before.names place := mem_names.2 (by rw [hold]; rfl)
      obtain ⟨part, hpart, hcovered⟩ := hentries name hmem
      rw [if_pos hmem, hpart]
      rw [entry, if_pos hold] at hpart
      obtain ⟨inside, hinside, hpart⟩ := Except.bind_ok hpart
      cases hpart
      obtain ⟨hown, hrest⟩ := List.forall_mem_append.1 hcovered
      have hplain' : PlainName name := (h.plain'.named _ hsome name (by simp)).toPlainName
      obtain ⟨inside', hinside', hfilter⟩ := hbelow
        (List.forall_mem_append.2 ⟨hplain, List.forall_mem_singleton.2 hplain'⟩) hrest hinside
      refine ⟨own place name ++ inside', by rw [hinside']; rfl, ?_⟩
      have hsame := h.own_kept hown (mem_names.1 hmem) hsome
      rw [List.filter_append, hfilter, ← hsame, ← List.filter_append]
      rfl
    · obtain ⟨inside, hinside, hfilter⟩ := h.below_fresh hnone hreach hnode
      refine ⟨own place name ++ inside, by rw [hinside]; rfl, ?_⟩
      rw [List.filter_append, hfilter, h.own_new hnone hsome, if_neg]
      · rfl
      · simp [mem_names, hnone]

/-- What is looked for below a directory is found in the later tree as it was before. -/
theorem below_again (hplain : ∀ name ∈ place, PlainName name) (hcovered : Covered k wanted found)
    (hfound : below before depth (Place.path place) = .ok found) :
    ∃ found', below after depth (Place.path place) = .ok found' ∧
      found'.filter k' = found.filter k := by
  induction depth generalizing place found with
  | zero =>
      cases hfound
      exact ⟨[], rfl, rfl⟩
  | succ depth ih =>
      obtain ⟨hreach, hdirectory⟩ := reachable_of_below h.plain hplain hfound
      obtain ⟨hparts, rfl⟩ := (below_ok h.plain hreach hdirectory).1 hfound
      have hentries : ∀ name ∈ before.names place,
          ∃ part, entry before depth place name = .ok part ∧ Covered k wanted part := by
        intro name hname
        obtain ⟨part, hpart⟩ := hparts name hname
        refine ⟨part, hpart, fun path hpath => hcovered path ?_⟩
        exact List.mem_flatMap.2 ⟨name, List.mem_mergeSort.2 hname, by rwa [hpart]⟩
      have hentry := fun name (hname : name ∈ after.names place) =>
        h.entry_again ih hplain hentries hname
      refine ⟨_, (below_ok h.plain' hreach (h.directory place hdirectory)).2
        ⟨fun name hname => (hentry name hname).imp fun _ => And.left, rfl⟩, ?_⟩
      rw [List.filter_flatMap, List.filter_flatMap]
      refine (flatMap_mergeSort (h.plain.names_nodup place) (h.plain'.names_nodup place)
        ?both ?left ?right).symm
      case both =>
        intro name hold hnew
        obtain ⟨part, hpart, hfilter⟩ := hentry name hnew
        rw [hpart]
        exact (hfilter.trans (if_pos hold)).symm
      case left =>
        intro name hold hgone
        have hnone : after.node? (place ++ [name]) = none := by simpa [mem_names] using hgone
        obtain ⟨part, hpart, hpartCovered⟩ := hentries name hold
        have hnode : before.node? (place ++ [name]) ≠ some .directory := by
          intro hbefore
          cases (h.directory _ hbefore).symm.trans hnone
        rw [entry, if_neg hnode] at hpart ⊢
        cases hpart
        exact h.own_gone hpartCovered (mem_names.1 hold) hnone
      case right =>
        intro name hnew hold
        obtain ⟨part, hpart, hfilter⟩ := hentry name hnew
        rw [hpart]
        exact hfilter.trans (if_neg hold)

end Sees

/-- What is kept of the paths found. -/
def isSource (tree : FileTree) (root output path : String) : Bool :=
  tree.isFile path && !Path.isWithin path output && !isSkipped root path

theorem sources_again {root : Place} {output output' : String}
    (h : Sees before after (isSource before (Place.path root) output)
      (isSource after (Place.path root) output') found)
    (hplain : ∀ name ∈ root, PlainName name) (hdirectory : before.isDirectory (Place.path root))
    (hdirectory' : after.isDirectory (Place.path root))
    (hfound : sources before (Place.path root) output = .ok found) :
    sources after (Place.path root) output' = .ok found := by
  rw [sources, hdirectory, startOf_path hplain] at hfound
  rw [sources, hdirectory', startOf_path hplain]
  obtain ⟨all, hall, hfound⟩ := Except.bind_ok hfound
  cases hfound
  obtain ⟨all', hall', hfilter⟩ := h.below_again hplain
    (fun path hpath hkept => List.mem_filter.2 ⟨hpath, hkept⟩) hall
  refine (congrArg (· >>= _) hall').trans ?_
  exact congrArg Except.ok hfilter

end Discovery

end HandlerWeave
