import HandlerWeave.Proofs.Descriptor.Survival

/-!
Merging over and over. A merge recognises every entry that an earlier one made and drops it, so a
document keeps no trace of the handlers it was merged with before: only the last merge counts.
-/
namespace HandlerWeave.Descriptor

open Yaml

variable {handlers later : List Handler} {root : String} {defaults : BuildFallback}
  {entries resources : Entries} {document : Yaml}

/-- The document with these entries and resources. -/
def withResources (entries resources : Entries) : Yaml :=
  .mapping (Yaml.insert "Resources" (.mapping resources) entries)

/-- One document has a resource more than the other, and they are the same in all else. -/
def AddsResource (key : String) (resource without document : Yaml) : Prop :=
  ∃ entries before after, without = withResources entries (before ++ after) ∧
    document = withResources entries (before ++ (.string key, resource) :: after) ∧
    ∀ entry ∈ before ++ after, entry.1 ≠ .string key

/-- No resource that merges leave alone has the name of one of the handlers. -/
def NamesFree (handlers : List Handler) (document : Yaml) : Prop :=
  ∀ resources, resources? document = some resources → ∀ entry ∈ handAuthored resources,
    ∀ h ∈ handlers, entry.1 ≠ .string h.name

theorem merge_mapping (handlers : List Handler) (root : String) (defaults : BuildFallback)
    (entries : Entries) :
    merge handlers root defaults (.mapping entries) =
      match resourcesOf? ((find? "Resources" entries).getD .null) with
      | none => (.error .resources, .mapping (Yaml.insert "Resources" .null entries))
      | some resources =>
        (.ok (), withResources entries (mergeResources handlers root defaults resources)) := rfl

/-- Where a slot can stand for resources but holds no mapping, it stands for none. -/
theorem getD_resources? (h : resourcesOf? ((find? "Resources" entries).getD .null) =
    some resources) : (resources? (.mapping entries)).getD [] = resources := by
  cases hslot : find? "Resources" entries with
  | none =>
      rw [hslot] at h
      cases h
      simp [resources?, member?, untagged, hslot]
  | some slot =>
      rw [hslot, Option.getD_some] at h
      cases slot with
      | mapping resources =>
          cases h
          rw [resources?_mapping hslot]
          rfl
      | tagged tag value => cases h
      | null | bool | number | string | sequence =>
          simp only [resourcesOf?] at h
          split at h
          · cases h
          · cases h
            simp [resources?, member?, untagged, hslot, asMapping?]

/-- What a successful merge makes of a document depends on its entries and its resources, none where
it has no mapping of them, and any other merge into it succeeds as well. -/
theorem merge_eq_of_ok (hok : (merge handlers root defaults document).1 = .ok ()) :
    ∃ entries, ∀ later root' defaults', merge later root' defaults' document =
      (.ok (), withResources entries
        (mergeResources later root' defaults' ((resources? document).getD []))) := by
  cases document with
  | bool | number | string | sequence => cases hok
  | null => exact ⟨[], fun later root' defaults' => rfl⟩
  | tagged tag value =>
      cases hvalue : value.untagged with
      | null =>
          refine ⟨[], fun later root' defaults' => ?_⟩
          simp [merge, untagged, resources?, member?, hvalue, find?, resourcesOf?, isSubstantial,
            withResources]
      | _ => simp [merge, untagged, hvalue] at hok
  | mapping entries =>
      refine ⟨entries, fun later root' defaults' => ?_⟩
      rw [merge_mapping] at hok ⊢
      cases hresources : resourcesOf? ((find? "Resources" entries).getD .null) with
      | none =>
          rw [hresources] at hok
          cases hok
      | some resources => rw [getD_resources? hresources]

/-- A merge into resources that were merged into before keeps none of the entries made then. -/
theorem handAuthored_setHandlers
    (h : ∀ entry ∈ entries, namesHandler handlers entry = true →
      isFunctionResource entry.2 = true) :
    handAuthored (setHandlers root defaults handlers entries) = handAuthored entries := by
  induction handlers generalizing entries with
  | nil => rfl
  | cons x handlers ih =>
      have hmade := isFunctionResource_entryOf root defaults x
      have hold : ∀ entry ∈ entries, hasName x.name entry = true →
          isFunctionResource entry.2 = true := by
        intro entry hentry hname
        exact h entry hentry (by simp [namesHandler, hname])
      have hstep : ∀ entry ∈ Yaml.insert x.name (.mapping (entryOf root defaults x)) entries,
          namesHandler handlers entry = true → isFunctionResource entry.2 = true := by
        intro entry hentry hname
        cases mem_insert hentry with
        | inl heq => rw [heq, hmade]
        | inr hentry =>
            refine h entry hentry ?_
            obtain ⟨y, hy, hname⟩ := List.any_eq_true.1 hname
            exact List.any_eq_true.2 ⟨y, List.mem_cons_of_mem _ hy, hname⟩
      exact (ih hstep).trans (filter_insert_of_dropped (by simp [hmade])
        fun entry hentry hname => by simp [hold entry hentry hname])

theorem mergeResources_mergeResources
    (hfree : ∀ entry ∈ handAuthored resources, namesHandler handlers entry = false)
    (later : List Handler) (root' : String) (defaults' : BuildFallback) :
    mergeResources later root' defaults' (mergeResources handlers root defaults resources) =
      mergeResources later root' defaults' resources := by
  have hkept : handAuthored (mergeResources handlers root defaults resources) =
      handAuthored resources := by
    rw [mergeResources_eq, handAuthored_setHandlers]
    · exact (List.filter_filter ..).trans (by simp [handAuthored])
    · intro entry hentry hname
      rw [hfree entry hentry] at hname
      cases hname
  rw [mergeResources_eq later, hkept, mergeResources_eq]

theorem NamesFree.namesHandler (hfree : NamesFree handlers document) :
    ∀ entry ∈ handAuthored ((resources? document).getD []),
      namesHandler handlers entry = false := by
  intro entry hentry
  cases hresources : resources? document with
  | none =>
      rw [hresources] at hentry
      cases hentry
  | some resources =>
      rw [hresources] at hentry
      exact namesHandler_eq_false_iff.2 (hfree resources hresources entry hentry)

theorem merge_withResources (handlers : List Handler) (root : String) (defaults : BuildFallback)
    (entries resources : Entries) :
    merge handlers root defaults (withResources entries resources) =
      (.ok (), withResources entries (mergeResources handlers root defaults resources)) := by
  rw [withResources, merge_run (by rw [find?_insert, if_pos rfl]), insert_insert]
  rfl

theorem merge_merge (hfree : NamesFree handlers document)
    (hok : (merge handlers root defaults document).1 = .ok ()) (later : List Handler)
    (root' : String) (defaults' : BuildFallback) :
    merge later root' defaults' (merge handlers root defaults document).2 =
      merge later root' defaults' document := by
  obtain ⟨entries, heq⟩ := merge_eq_of_ok hok
  rw [heq, heq, merge_withResources, mergeResources_mergeResources hfree.namesHandler]

/-- Handlers of other names are set around an entry as if it were not there. -/
theorem setHandlers_around (root : String) (defaults : BuildFallback) {entry : Yaml × Yaml}
    (h : namesHandler handlers entry = false) (before after : Entries) :
    ∃ before' after', setHandlers root defaults handlers (before ++ after) = before' ++ after' ∧
      setHandlers root defaults handlers (before ++ entry :: after) =
        before' ++ entry :: after' := by
  induction handlers generalizing before after with
  | nil => exact ⟨before, after, rfl, rfl⟩
  | cons x handlers ih =>
      obtain ⟨hx, hrest⟩ := Bool.or_eq_false_iff.1 h
      obtain ⟨before', after', hwithout, hwith⟩ := insert_around hx
      obtain ⟨before'', after'', hwithout', hwith'⟩ := ih hrest before' after'
      refine ⟨before'', after'', ?_, ?_⟩
      · rw [setHandlers, List.foldl_cons, hwithout]
        exact hwithout'
      · rw [setHandlers, List.foldl_cons, hwith]
        exact hwith'

theorem hasName_setHandlers {key : String} (hentries : ∀ entry ∈ entries, hasName key entry = false)
    (hhandlers : ∀ x ∈ handlers, x.name ≠ key) :
    ∀ entry ∈ setHandlers root defaults handlers entries, hasName key entry = false := by
  have hfilter : (setHandlers root defaults handlers entries).filter (hasName key) = [] := by
    rw [filter_setHandlers fun x hx v => by simpa [hasName] using hhandlers x hx]
    exact List.filter_eq_nil_iff.2 fun entry hentry => by simp [hentries entry hentry]
  intro entry hentry
  simpa using List.filter_eq_nil_iff.1 hfilter entry hentry

/-- A handler of a new name adds its entry and changes no other. -/
theorem setHandlers_insert (root : String) (defaults : BuildFallback)
    {before after : List Handler} {h : Handler}
    (hentries : ∀ entry ∈ entries, hasName h.name entry = false)
    (hothers : ∀ x ∈ before ++ after, x.name ≠ h.name) :
    ∃ xs ys, setHandlers root defaults (before ++ after) entries = xs ++ ys ∧
      setHandlers root defaults (before ++ h :: after) entries =
        xs ++ (.string h.name, .mapping (entryOf root defaults h)) :: ys ∧
      ∀ entry ∈ xs ++ ys, hasName h.name entry = false := by
  have hbefore : ∀ entry ∈ setHandlers root defaults before entries,
      hasName h.name entry = false :=
    hasName_setHandlers hentries fun x hx => hothers x (List.mem_append_left _ hx)
  have hafter : namesHandler after
      (.string h.name, .mapping (entryOf root defaults h)) = false := by
    refine namesHandler_eq_false_iff.2 fun x hx heq => ?_
    exact hothers x (List.mem_append_right _ hx) (Yaml.string.inj heq).symm
  obtain ⟨xs, ys, hwithout, hwith⟩ :=
    setHandlers_around root defaults hafter (setHandlers root defaults before entries) []
  have happend : setHandlers root defaults (before ++ after) entries = xs ++ ys := by
    rw [setHandlers, List.foldl_append, ← hwithout, List.append_nil]
    rfl
  refine ⟨xs, ys, happend, ?_, ?_⟩
  · rw [setHandlers, List.foldl_append, List.foldl_cons, ← hwith]
    exact congrArg (setHandlers root defaults after) (insert_eq_append hbefore)
  · rw [← happend]
    exact hasName_setHandlers hentries hothers

/-- The documents merged with and without a handler of a new name differ by its entry. -/
theorem merge_adds {before after : List Handler} {h : Handler}
    (hok : (merge handlers root defaults document).1 = .ok ())
    (hfree : NamesFree [h] document) (hothers : ∀ x ∈ before ++ after, x.name ≠ h.name) :
    AddsResource h.name (.mapping (entryOf root defaults h))
      (merge (before ++ after) root defaults document).2
      (merge (before ++ h :: after) root defaults document).2 := by
  obtain ⟨entries, heq⟩ := merge_eq_of_ok hok
  have hentries : ∀ entry ∈ handAuthored ((resources? document).getD []),
      hasName h.name entry = false := by
    intro entry hentry
    simpa [namesHandler] using hfree.namesHandler entry hentry
  obtain ⟨xs, ys, hwithout, hwith, hkeys⟩ :=
    setHandlers_insert root defaults hentries hothers
  refine ⟨entries, xs, ys, ?_, ?_, ?_⟩
  · rw [heq, mergeResources_eq, hwithout]
  · rw [heq, mergeResources_eq, hwith]
  · intro entry hentry hkey
    have hname := hkeys entry hentry
    rw [hasName_iff.2 hkey] at hname
    cases hname

/-- Only the last of two merges counts, unless the first one took the place of a resource that
merges leave alone. So a merge made twice is as good as made once, and with a handler that is new to
the document, or no longer wanted, exactly its entry comes or goes. -/
theorem merge_forgets (hfree : NamesFree handlers document)
    (hok : (merge handlers root defaults document).1 = .ok ()) :
    let merged := (merge handlers root defaults document).2
    (∀ later root' defaults', merge later root' defaults' merged =
      merge later root' defaults' document) ∧
    merge handlers root defaults merged = (.ok (), merged) ∧
    (∀ before after h, handlers = before ++ after → (∀ x ∈ handlers, x.name ≠ h.name) →
      NamesFree [h] document → AddsResource h.name (.mapping (entryOf root defaults h)) merged
        (merge (before ++ h :: after) root defaults merged).2) ∧
    (∀ before after h, handlers = before ++ h :: after →
      (∀ x ∈ before ++ after, x.name ≠ h.name) →
      AddsResource h.name (.mapping (entryOf root defaults h))
        (merge (before ++ after) root defaults merged).2 merged) := by
  intro merged
  have hforgets : ∀ later root' defaults', merge later root' defaults' merged =
      merge later root' defaults' document := fun later root' defaults' =>
    merge_merge hfree hok later root' defaults'
  refine ⟨hforgets, ?again, ?added, ?removed⟩
  case again => rw [hforgets, ← hok]
  case added =>
    intro before after h heq hothers hnew
    rw [hforgets]
    subst heq
    exact merge_adds hok hnew hothers
  case removed =>
    intro before after h heq hothers
    rw [hforgets]
    subst heq
    refine merge_adds hok (fun resources hresources entry hentry x hx => ?_) hothers
    rw [List.mem_singleton.1 hx]
    exact hfree resources hresources entry hentry h (by simp)

/-- A bucket, and the entry of a handler that is no longer there. -/
def staleResources : Entries :=
  bucketResources ++
    [(.string "OldItem", .mapping [(.string "Type", .string functionKind)])]

def staleDocument : Yaml := .mapping [(.string "Resources", .mapping staleResources)]

theorem merge_forgets_stale :
    NamesFree [plainHandler "GetItem"] staleDocument ∧
      (merge [plainHandler "GetItem"] "/p" {} staleDocument).1 = .ok () ∧
      merge [plainHandler "PutItem"] "/p" {}
          (merge [plainHandler "GetItem"] "/p" {} staleDocument).2 =
        merge [plainHandler "PutItem"] "/p" {} staleDocument := by
  have hresources : handAuthored staleResources = bucketResources := by
    simp [handAuthored, staleResources, bucketResources, isFunctionResource, member?, untagged,
      find?, asString?, functionKind]
  have hfree : NamesFree [plainHandler "GetItem"] staleDocument := by
    intro resources h entry hentry x hx
    cases h
    rw [hresources, bucketResources, List.mem_singleton] at hentry
    rw [List.mem_singleton.1 hx, hentry]
    simp [plainHandler]
  have hok : (merge [plainHandler "GetItem"] "/p" {} staleDocument).1 = .ok () := by
    rw [staleDocument, merge_run rfl]
  exact ⟨hfree, hok, (merge_forgets hfree hok).1 _ _ _⟩

end HandlerWeave.Descriptor
