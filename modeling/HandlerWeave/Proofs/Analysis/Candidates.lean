import HandlerWeave.Proofs.Analysis.Modules
import HandlerWeave.Proofs.Project.Renewal

/-!
The files that an import can mean. All candidates lie in one directory, or in one inside it, so a
file that is new in a directory is never taken for one that was found outside of it before.
-/
namespace HandlerWeave

open FileTree

namespace Text

theorem eq_append_of_dropEnding? {ending text stem : String}
    (h : dropEnding? ending text = some stem) : text = stem ++ ending := by
  unfold dropEnding? at h
  dsimp only at h
  split at h
  next hdrop =>
    cases h
    refine String.toList_inj.1 ?_
    rw [String.toList_append, String.toList_ofList, ← hdrop, List.take_append_drop]
  · cases h

end Text

namespace Path

/-- What is put behind a text without another slash comes behind the last piece. -/
theorem exists_splitSlash_append (cs : List Char) : ∃ init last, '/' ∉ last ∧ ∀ xs, '/' ∉ xs →
    splitSlash (cs ++ xs) = init ++ [last ++ xs] := by
  induction cs with
  | nil =>
      refine ⟨[], [], List.not_mem_nil, fun xs hxs => ?_⟩
      rw [List.nil_append, splitSlash_eq, List.splitOn_eq_singleton hxs]
      rfl
  | cons c cs ih =>
      obtain ⟨init, last, hlast, happend⟩ := ih
      by_cases hc : c = '/'
      · refine ⟨[] :: init, last, hlast, fun xs hxs => ?_⟩
        rw [List.cons_append, splitSlash, if_pos hc, happend xs hxs]
        rfl
      cases init with
      | nil =>
          refine ⟨[], c :: last, by simp [hlast, Ne.symm hc], fun xs hxs => ?_⟩
          rw [List.cons_append, splitSlash, if_neg hc, happend xs hxs]
          rfl
      | cons first init =>
          refine ⟨(c :: first) :: init, last, hlast, fun xs hxs => ?_⟩
          rw [List.cons_append, splitSlash, if_neg hc, happend xs hxs]
          rfl

/-- What is put behind a path comes behind its last name. -/
theorem exists_namesOf_append (path : String) : ∃ front last, '/' ∉ last.toList ∧
    ∀ ending : String, '/' ∉ ending.toList →
      namesOf (path ++ ending) = front ++ [last ++ ending].filter (· ≠ "") := by
  obtain ⟨init, last, hlast, happend⟩ := exists_splitSlash_append path.toList
  refine ⟨(init.map String.ofList).filter (· ≠ ""), String.ofList last, by simpa using hlast,
    fun ending hending => ?_⟩
  have hsegments : segments (path ++ ending) =
      init.map String.ofList ++ [String.ofList last ++ ending] := by
    rw [segments, String.toList_append, happend _ hending, List.map_append, List.map_singleton,
      String.ofList_append, String.ofList_toList]
  rw [namesOf, hsegments, List.filter_append]

theorem join_append (directory name : String) {ending : String} (hending : '/' ∉ ending.toList) :
    join directory (name ++ ending) = join directory name ++ ending := by
  have habsolute : isAbsolute (name ++ ending) = isAbsolute name := by
    unfold isAbsolute
    rw [String.toList_append]
    cases name.toList with
    | cons c cs => rfl
    | nil =>
        rw [List.nil_append]
        exact beq_eq_false_iff_ne.2 fun hslash => hending (List.mem_of_head? hslash)
  unfold join
  rw [habsolute]
  split
  · rfl
  split <;> simp only [String.append_assoc]

end Path

theorem PlainName.append {name ending : String} (hending : PlainName ending)
    (hname : '/' ∉ name.toList) : PlainName (name ++ ending) := by
  have hsuffix : ∀ {text : String}, name ++ ending = text → ending.toList <:+ text.toList := by
    rintro _ rfl
    simp
  refine ⟨fun heq => ?_, fun heq => ?_, fun heq => ?_, by simp [hname, hending.no_slash]⟩
  · exact hending.ne_empty (String.toList_inj.1 (List.suffix_nil.1 (hsuffix heq)))
  · obtain h | h := List.suffix_cons_iff.1 (hsuffix heq)
    · exact hending.ne_here (String.toList_inj.1 h)
    · exact hending.ne_empty (String.toList_inj.1 (List.suffix_nil.1 h))
  · obtain h | h := List.suffix_cons_iff.1 (hsuffix heq)
    · exact hending.ne_up (String.toList_inj.1 h)
    obtain h | h := List.suffix_cons_iff.1 h
    · exact hending.ne_here (String.toList_inj.1 h)
    · exact hending.ne_empty (String.toList_inj.1 (List.suffix_nil.1 h))

/-- The endings that an import can leave out, and the index that it can. -/
theorem importCandidates_eq (directory specifier : String) :
    ∃ (path kept : String) (endings : List String), '/' ∉ kept.toList ∧
      (∀ ending ∈ endings, PlainName ending ∧ ending.toList.head? = some '.') ∧
      importCandidates directory specifier =
        endings.map (path ++ ·) ++ [Path.join (path ++ kept) "index.ts"] := by
  unfold importCandidates importFallback
  cases hstem : Text.dropEnding? ".js" specifier with
  | none =>
      refine ⟨Path.join directory specifier, "", [".ts", ".tsx"], by decide, by decide, ?_⟩
      simp
  | some stem =>
      rw [Text.eq_append_of_dropEnding? hstem, Path.join_append directory stem (by decide)]
      refine ⟨Path.join directory stem, ".js", [".ts", ".js.ts", ".js.tsx"], by decide, by decide,
        ?_⟩
      have hts : ".js" ++ ".ts" = ".js.ts" := rfl
      have htsx : ".js" ++ ".tsx" = ".js.tsx" := rfl
      simp only [String.append_assoc, hts, htsx]
      rfl

theorem stepsOf_append (path : String) {ending : String} (hending : PlainName ending) :
    stepsOf (path ++ ending) = namesOf (path ++ ending) := by
  unfold stepsOf
  rw [if_neg]
  · rfl
  intro hslash
  rw [String.toList_append, List.getLast?_append] at hslash
  cases hlast : ending.toList.getLast? with
  | none => exact hending.ne_empty (by simpa using hlast)
  | some c =>
      rw [hlast] at hslash
      cases hslash
      exact hending.no_slash (List.mem_of_getLast? hlast)

/-- All candidates go through one directory, and on from there by names that begin alike. -/
theorem importCandidates_steps (directory specifier : String) :
    ∃ (front : List String) (last : String) (early : List String) (index : String),
      importCandidates directory specifier = early ++ [index] ∧
      (∀ path ∈ early, ∃ ending : String, ending.toList.head? = some '.' ∧
        PlainName (last ++ ending) ∧ stepsOf path = front ++ [last ++ ending]) ∧
      ∃ inside : List String, stepsOf index = front ++ (inside ++ ["index.ts"]) ∧
        (last ≠ "" → last.toList.head? ≠ some '.' → ∀ name ∈ inside, PlainName name) := by
  obtain ⟨path, kept, endings, hkept, hendings, heq⟩ := importCandidates_eq directory specifier
  obtain ⟨front, last, hlast, hnames⟩ := Path.exists_namesOf_append path
  refine ⟨front, last, endings.map (path ++ ·), Path.join (path ++ kept) "index.ts", heq,
    fun candidate hcandidate => ?_, [last ++ kept].filter (· ≠ ""), ?_, fun hne hpoint => ?_⟩
  · obtain ⟨ending, hending, rfl⟩ := List.mem_map.1 hcandidate
    obtain ⟨hplain, hhead⟩ := hendings ending hending
    have happend := hplain.append hlast
    refine ⟨ending, hhead, happend, ?_⟩
    rw [stepsOf_append path hplain, hnames ending hplain.no_slash, List.filter_singleton]
    simp [happend.ne_empty]
  · have hindex : PlainName "index.ts" := by decide
    rw [← List.append_assoc, ← hnames kept hkept]
    by_cases hempty : path ++ kept = ""
    · rw [hempty]
      decide
    · exact stepsOf_join hindex hempty
  · intro name hname
    obtain ⟨hname, -⟩ := List.mem_filter.1 hname
    obtain rfl := List.mem_singleton.1 hname
    obtain ⟨c, cs, hcs⟩ := List.exists_cons_of_ne_nil fun hnil => hne (String.toList_inj.1 hnil)
    have hc : c ≠ '.' := by simpa [hcs] using hpoint
    refine ⟨by simp [hne], ?_, ?_, by simp [hlast, hkept]⟩
    · rw [ne_eq, ← String.toList_inj, String.toList_append, hcs]
      simp [hc]
    · rw [ne_eq, ← String.toList_inj, String.toList_append, hcs]
      simp [hc]

namespace FileTree

variable {tree before after : FileTree} {links : Nat} {f o q : Place} {target target' : Target}
  {front rest names : List String} {path candidate last ending : String} {old : ByteArray}

theorem Leads.unique {place : Place} (h : Leads tree true links place names target)
    (h' : Leads tree true links place names target') : target = target' :=
  Except.ok.inj ((walk_iff.2 h).symm.trans (walk_iff.2 h'))

namespace Renews

variable (h : Renews o before after)

include h

/-- What leads through a directory in the first tree leads through it in the second. -/
theorem leads_front (hwalkable : Walkable front) (hplace : before.Passable f)
    (hfront : Leads before true links [] front (.present f .directory)) :
    Leads after true links [] front (.present f .directory) := by
  have hnode := (hplace.of_ways h.ways).node
  have hafter := hfront.of_ways hwalkable passable_root h.ways fun hhold => by
    obtain ⟨contents, heq⟩ := hhold .directory hplace.node
    cases heq
  rwa [Target.place, Target.at, hnode] at hafter

/-- A candidate that is a file in the later tree only lies in the directory, and so does one that
was a file before. -/
theorem isFile_candidate (hpath : stepsOf path = front ++ [last ++ ending])
    (hname : PlainName (last ++ ending)) (hending : ending.toList.head? = some '.')
    (hcandidate : stepsOf candidate = front ++ rest) (hne : rest ≠ [])
    (hrest : last ≠ "" → last.toList.head? ≠ some '.' → ∀ name ∈ rest, PlainName name)
    (hlookup : before.lookup true candidate = .ok (.present q (.file old)))
    (houtside : ¬ o <+: q) (hfile : after.isFile path = true) : before.isFile path = true := by
  have hwalkable : Walkable (front ++ rest) := hcandidate ▸ walkable_stepsOf candidate
  have hwalkable' : Walkable (front ++ [last ++ ending]) := hpath ▸ walkable_stepsOf path
  obtain ⟨-, hleads⟩ := lookup_iff.1 hlookup
  rw [hcandidate] at hleads
  obtain ⟨f, _, hfront, hpassable, hleads⟩ := hleads.split hne hwalkable passable_root
  obtain ⟨r, contents, hlookup'⟩ := Project.isFile_iff.1 hfile
  obtain ⟨hvalid, hleads'⟩ := lookup_iff.1 hlookup'
  rw [hpath] at hleads'
  obtain ⟨f', _, hfront', -, hleads'⟩ := hleads'.split (by simp) hwalkable' passable_root
  have hsame :=
    (h.leads_front (List.forall_mem_append.1 hwalkable).1 hpassable hfront).unique hfront'
  cases hsame
  obtain hr | ⟨-, link, hlink⟩ := hleads'.entry hname
  case inr => exact absurd hlink (h.plain'.linkFree _ _)
  obtain rfl : r = f ++ [last ++ ending] := hr
  obtain ⟨old', hold⟩ | ⟨-, name, heq, hpoint⟩ := h.added _ _ (lookup_sound hlookup').2
  · have hentry : FileName (last ++ ending) := h.plain.named _ (by rw [hold]; rfl) _ (by simp)
    have hlast : Walks before true f [last ++ ending] _ := .file hentry.isEntry hold
    have hleads := hfront.append hlast
    rw [← hpath] at hleads
    exact Project.isFile_iff.2 ⟨_, old', lookup_iff.2 ⟨hvalid, hleads⟩⟩
  · exfalso
    obtain ⟨rfl, hlast⟩ := List.append_inj' heq rfl
    cases hlast
    have hlast : last ≠ "" := by
      rintro rfl
      exact hpoint (by simpa using hending)
    have hhead : last.toList.head? ≠ some '.' := by
      obtain ⟨c, cs, hcs⟩ := List.exists_cons_of_ne_nil fun hnil => hlast (String.toList_inj.1 hnil)
      rw [String.toList_append, hcs] at hpoint
      rw [hcs]
      exact hpoint
    have hdown := (hleads.walks h.plain.linkFree).place_of_down h.plain.linkFree fun name hname =>
      .inl (hrest hlast hhead name hname)
    exact houtside ⟨_, hdown.symm⟩

/-- An import that means a file outside of the directory still means it. -/
theorem importedFile_again {directory specifier : String}
    (hlookup : before.lookup true (importedFile before directory specifier) =
      .ok (.present q (.file old)))
    (houtside : ¬ o <+: q) :
    importedFile after directory specifier = importedFile before directory specifier := by
  obtain ⟨front, last, early, index, heq, hearly, inside, hindex, hinside⟩ :=
    importCandidates_steps directory specifier
  have hfile := Project.isFile_iff.2 ⟨q, old, hlookup⟩
  have hfound : (importCandidates directory specifier).find? before.isFile =
      some (importedFile before directory specifier) := by
    unfold importedFile at hfile ⊢
    cases hfind : (importCandidates directory specifier).find? before.isFile with
    | some path => rfl
    | none =>
        have hmem : importFallback directory specifier ∈ importCandidates directory specifier := by
          simp [importCandidates]
        rw [hfind] at hfile
        exact absurd hfile (List.find?_eq_none.1 hfind _ hmem)
  generalize importedFile before directory specifier = candidate at *
  obtain ⟨-, others, more, hsplit, hothers⟩ := List.find?_eq_some_iff_append.1 hfound
  obtain ⟨contents, -, hafter⟩ := h.lookup_file hlookup fun ⟨name, hq, _⟩ =>
    houtside ⟨[name], hq.symm⟩
  have hlast : others ++ (candidate :: more).dropLast = early := by
    rw [← List.dropLast_append_of_ne_nil (by simp), ← hsplit, heq, List.dropLast_concat]
  have hbefore : ∀ path ∈ others, path ∈ early := fun path hpath =>
    hlast ▸ List.mem_append_left _ hpath
  have hcandidate : candidate ∈ early ∨ candidate = index := by
    have hmem : candidate ∈ early ++ [index] := by
      rw [← heq, hsplit]
      simp
    simpa using hmem
  have hagain : (importCandidates directory specifier).find? after.isFile = some candidate := by
    refine List.find?_eq_some_iff_append.2
      ⟨Project.isFile_iff.2 ⟨q, contents, hafter⟩, others, more, hsplit, fun path hpath => ?_⟩
    rw [Bool.not_eq_true']
    refine Bool.eq_false_iff.2 fun hfile => ?_
    obtain ⟨ending, hending, hname, hsteps⟩ := hearly path (hbefore path hpath)
    have hold : before.isFile path = true := by
      obtain hmem | rfl := hcandidate
      · obtain ⟨_, -, hname', hsteps'⟩ := hearly candidate hmem
        exact h.isFile_candidate hsteps hname hending hsteps' (by simp)
          (fun _ _ => List.forall_mem_singleton.2 hname') hlookup houtside hfile
      · refine h.isFile_candidate hsteps hname hending hindex (by simp)
          (fun hne hpoint => List.forall_mem_append.2 ⟨hinside hne hpoint, ?_⟩) hlookup houtside
          hfile
        exact List.forall_mem_singleton.2 (by decide)
    simpa [hold] using hothers path hpath
  rw [importedFile, hagain]
  rfl

end Renews

end FileTree

end HandlerWeave
