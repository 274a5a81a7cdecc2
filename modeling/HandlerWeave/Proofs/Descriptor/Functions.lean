import HandlerWeave.Proofs.Descriptor.Repetition
import Mathlib.Data.List.Nodup

/-!
The function entries of a merged document. Each handler finds one under its name, so that there is
one for each handler exactly if no two of them have one name.
-/
namespace HandlerWeave.Descriptor

open Yaml

variable {handlers : List Handler} {root : String} {defaults : BuildFallback}
  {entries resources : Entries} {document : Yaml}

def functionEntries (resources : Entries) : Entries :=
  resources.filter fun entry => isFunctionResource entry.2

/-- The resource that a merge makes for a handler. -/
def resourceOf (root : String) (defaults : BuildFallback) (h : Handler) : Yaml × Yaml :=
  (.string h.name, .mapping (entryOf root defaults h))

theorem functionEntries_handAuthored : functionEntries (handAuthored resources) = [] := by
  simp [functionEntries, handAuthored, List.filter_filter]

/-- Handlers of different names that replace no function each add a function. -/
theorem perm_functionEntries_setHandlers (hnames : (handlers.map (·.name)).Nodup)
    (hold : ∀ entry ∈ entries, namesHandler handlers entry = true →
      isFunctionResource entry.2 = false) :
    (functionEntries (setHandlers root defaults handlers entries)).Perm
      (functionEntries entries ++ handlers.map (resourceOf root defaults)) := by
  induction handlers generalizing entries with
  | nil => rw [List.map_nil, List.append_nil]; rfl
  | cons h handlers ih =>
      obtain ⟨hfirst, hnames⟩ := List.nodup_cons.1 hnames
      have hnew := isFunctionResource_entryOf root defaults h
      have hinsert : (functionEntries (Yaml.insert h.name (.mapping (entryOf root defaults h))
          entries)).Perm (resourceOf root defaults h :: functionEntries entries) :=
        perm_filter_insert hnew fun entry hentry hname =>
          hold entry hentry (by simp [namesHandler, hname])
      have hrest : ∀ entry ∈ Yaml.insert h.name (.mapping (entryOf root defaults h)) entries,
          namesHandler handlers entry = true → isFunctionResource entry.2 = false := by
        intro entry hentry hname
        cases mem_insert hentry with
        | inl heq =>
            obtain ⟨x, hx, hkey⟩ := List.any_eq_true.1 hname
            rw [heq, hasName_iff] at hkey
            exact absurd (List.mem_map.2 ⟨x, hx, (Yaml.string.inj hkey).symm⟩) hfirst
        | inr hentry => exact hold entry hentry (by simp_all [namesHandler])
      calc (functionEntries (setHandlers root defaults (h :: handlers) entries)).Perm
            (functionEntries (Yaml.insert h.name (.mapping (entryOf root defaults h)) entries) ++
              handlers.map (resourceOf root defaults)) := ih hnames hrest
        List.Perm _ (resourceOf root defaults h :: functionEntries entries ++
            handlers.map (resourceOf root defaults)) := hinsert.append_right _
        List.Perm _ _ := List.perm_middle.symm

/-- Under the name of a handler there is one function. -/
theorem functionEntries_mergeResources {h : Handler} (hh : h ∈ handlers) :
    ∃ h', (functionEntries (mergeResources handlers root defaults resources)).filter
      (hasName h.name) = [(.string h.name, .mapping (entryOf root defaults h'))] := by
  obtain ⟨h', heq⟩ := filter_hasName_setHandlers root defaults hh (handAuthored resources)
  refine ⟨h', ?_⟩
  have hsub : (functionEntries ((handAuthored resources).filter (hasName h.name)).tail).Sublist
      (functionEntries (handAuthored resources)) :=
    ((List.tail_sublist _).trans List.filter_sublist).filter _
  rw [functionEntries_handAuthored, List.sublist_nil] at hsub
  have hmade := isFunctionResource_entryOf root defaults h'
  rw [mergeResources_eq, functionEntries, List.filter_comm, heq, List.filter_cons, if_pos hmade]
  exact congrArg _ hsub

/-- A merge leaves one function for each handler exactly if their names are pairwise distinct. -/
theorem perm_functionEntries_iff :
    (functionEntries (mergeResources handlers root defaults resources)).Perm
        (handlers.map (resourceOf root defaults)) ↔ (handlers.map (·.name)).Nodup := by
  constructor
  · intro hperm
    rw [List.nodup_iff_count_le_one]
    intro name
    by_cases hname : name ∈ handlers.map (·.name)
    case neg => rw [List.count_eq_zero.2 hname]; exact Nat.zero_le 1
    case pos =>
      obtain ⟨h, hh, rfl⟩ := List.mem_map.1 hname
      obtain ⟨h', heq⟩ : ∃ h', (functionEntries
          (mergeResources handlers root defaults resources)).filter (hasName h.name) =
            [(.string h.name, .mapping (entryOf root defaults h'))] :=
        functionEntries_mergeResources hh
      have hlength := (hperm.filter (hasName h.name)).length_eq
      rw [heq, List.filter_map, List.length_map] at hlength
      have hkey : (hasName h.name ∘ resourceOf root defaults) = fun x => x.name == h.name := rfl
      rw [List.count, List.countP_map, List.countP_eq_length_filter]
      exact Nat.le_of_eq hlength.symm
  · intro hnames
    have hold : ∀ entry ∈ handAuthored resources, namesHandler handlers entry = true →
        isFunctionResource entry.2 = false := by
      intro entry hentry _
      simpa using (List.mem_filter.1 hentry).2
    have hperm : (functionEntries (mergeResources handlers root defaults resources)).Perm
        (functionEntries (handAuthored resources) ++ handlers.map (resourceOf root defaults)) :=
      perm_functionEntries_setHandlers hnames hold
    rwa [functionEntries_handAuthored] at hperm

theorem resources?_withResources (entries resources : Entries) :
    resources? (withResources entries resources) = some resources :=
  resources?_mapping (by rw [find?_insert, if_pos rfl])

/-- After a successful merge there is one function under the name of each handler, and there is one
for each handler exactly if their names are pairwise distinct. -/
theorem merge_functions (hok : (merge handlers root defaults document).1 = .ok ()) :
    ∃ merged, resources? (merge handlers root defaults document).2 = some merged ∧
      (∀ h ∈ handlers, ∃ h', (functionEntries merged).filter (hasName h.name) =
        [(.string h.name, .mapping (entryOf root defaults h'))]) ∧
      ((functionEntries merged).Perm (handlers.map (resourceOf root defaults)) ↔
        (handlers.map (·.name)).Nodup) := by
  obtain ⟨entries, heq⟩ := merge_eq_of_ok hok
  rw [heq]
  exact ⟨_, resources?_withResources .., fun h hh => functionEntries_mergeResources hh,
    perm_functionEntries_iff⟩

end HandlerWeave.Descriptor
