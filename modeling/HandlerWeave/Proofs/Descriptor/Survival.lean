import HandlerWeave.Descriptor
import HandlerWeave.Proofs.Yaml.Entries

/-!
What a merge leaves of the resources that are not functions. They are carried through in their
order, but for those whose key is also the name of a handler: there the handler's entry takes their
place.
-/
namespace HandlerWeave.Descriptor

open Yaml

variable {handlers : List Handler} {root : String} {defaults : BuildFallback}
  {entries resources : Entries} {document : Yaml}

/-- The resources that a merge does not make itself. -/
def handAuthored (resources : Entries) : Entries :=
  resources.filter fun entry => !isFunctionResource entry.2

/-- Some handler is named by the key of the entry. -/
def namesHandler (handlers : List Handler) (entry : Yaml × Yaml) : Bool :=
  handlers.any fun h => hasName h.name entry

theorem namesHandler_of_mem {h : Handler} (hh : h ∈ handlers) {v : Yaml} :
    namesHandler handlers (.string h.name, v) = true :=
  List.any_eq_true.2 ⟨h, hh, by simp [hasName]⟩

theorem namesHandler_eq_false_iff {entry : Yaml × Yaml} :
    namesHandler handlers entry = false ↔ ∀ h ∈ handlers, entry.1 ≠ .string h.name := by
  simp [namesHandler, Bool.eq_false_iff, hasName_iff]

theorem isFunctionResource_entryOf (root : String) (defaults : BuildFallback) (h : Handler) :
    isFunctionResource (.mapping (entryOf root defaults h)) = true := by
  simp [isFunctionResource, member?, untagged, entryOf, take, find?_insert, asString?]

def setHandlers (root : String) (defaults : BuildFallback) (handlers : List Handler)
    (entries : Entries) : Entries :=
  handlers.foldl
    (fun entries h => Yaml.insert h.name (.mapping (entryOf root defaults h)) entries) entries

theorem mergeResources_eq (handlers : List Handler) (root : String) (defaults : BuildFallback)
    (resources : Entries) :
    mergeResources handlers root defaults resources =
      setHandlers root defaults handlers (handAuthored resources) := rfl

theorem filter_setHandlers {p : Yaml × Yaml → Bool}
    (hp : ∀ h ∈ handlers, ∀ v, p (.string h.name, v) = false) :
    (setHandlers root defaults handlers entries).filter p = entries.filter p := by
  induction handlers generalizing entries with
  | nil => rfl
  | cons h handlers ih =>
      obtain ⟨hh, hrest⟩ := List.forall_mem_cons.1 hp
      exact (ih hrest).trans (filter_insert hh)

theorem tail_filter_insert {key other : String} {value : Yaml} :
    ((Yaml.insert other value entries).filter (hasName key)).tail =
      (entries.filter (hasName key)).tail := by
  by_cases h : other = key
  · rw [h, filter_hasName_insert, List.tail_cons]
  · rw [filter_insert]
    intro v
    simpa [hasName] using h

/-- Where a handler has the name of a key, the first entry of that key becomes that of a handler,
and no entry of the key is added. -/
theorem filter_hasName_setHandlers (root : String) (defaults : BuildFallback) {h : Handler}
    (hh : h ∈ handlers) (entries : Entries) :
    ∃ h', (setHandlers root defaults handlers entries).filter (hasName h.name) =
      (.string h.name, .mapping (entryOf root defaults h')) ::
        (entries.filter (hasName h.name)).tail := by
  induction handlers generalizing h entries with
  | nil => cases hh
  | cons x handlers ih =>
      by_cases hlater : ∃ h' ∈ handlers, h'.name = h.name
      · obtain ⟨y, hy, hname⟩ := hlater
        obtain ⟨h', heq⟩ := ih hy (Yaml.insert x.name (.mapping (entryOf root defaults x)) entries)
        rw [hname, tail_filter_insert] at heq
        exact ⟨h', heq⟩
      · have hx : h = x := by
          cases List.mem_cons.1 hh with
          | inl hx => exact hx
          | inr hh => exact absurd ⟨h, hh, rfl⟩ hlater
        subst hx
        have hrest : ∀ y ∈ handlers, ∀ v, hasName h.name (.string y.name, v) = false := by
          intro y hy v
          simpa [hasName] using fun hname => hlater ⟨y, hy, hname⟩
        refine ⟨h, ?_⟩
        rw [setHandlers, List.foldl_cons]
        exact (filter_setHandlers hrest).trans filter_hasName_insert

/-- Where no entry has the name of a handler, the handlers are added behind the entries. -/
theorem sublist_setHandlers (h : ∀ entry ∈ entries, namesHandler handlers entry = false) :
    entries.Sublist (setHandlers root defaults handlers entries) := by
  have hsame : (setHandlers root defaults handlers entries).filter
      (fun entry => !namesHandler handlers entry) = entries := by
    rw [filter_setHandlers, List.filter_eq_self]
    · intro entry hentry
      rw [h entry hentry]
      rfl
    · exact fun x hx v => by rw [namesHandler_of_mem hx]; rfl
  have hsub : ((setHandlers root defaults handlers entries).filter
      (fun entry => !namesHandler handlers entry)).Sublist
        (setHandlers root defaults handlers entries) := List.filter_sublist
  rwa [hsame] at hsub

/-- The entries that a merge does not make itself survive it exactly if none of them has a handler's
name for its key. -/
theorem sublist_mergeResources_iff :
    (handAuthored resources).Sublist (mergeResources handlers root defaults resources) ↔
      ∀ entry ∈ handAuthored resources, namesHandler handlers entry = false := by
  rw [mergeResources_eq]
  refine ⟨?_, sublist_setHandlers⟩
  intro hsub entry hentry
  rw [Bool.eq_false_iff]
  intro hnames
  obtain ⟨h, hh, hname⟩ := List.any_eq_true.1 hnames
  obtain ⟨h', heq⟩ := filter_hasName_setHandlers root defaults hh (handAuthored resources)
  have hfilter := hsub.filter (hasName h.name)
  rw [heq] at hfilter
  -- Both sides have as many entries of the key, so the handler's entry would be hand-authored.
  have hpos : 0 < ((handAuthored resources).filter (hasName h.name)).length :=
    List.length_pos_of_mem (List.mem_filter.2 ⟨hentry, hname⟩)
  have hall := hfilter.eq_of_length (by
    rw [List.length_cons, List.length_tail]
    omega)
  have hmem : (Yaml.string h.name, Yaml.mapping (entryOf root defaults h')) ∈
      (handAuthored resources).filter (hasName h.name) := hall ▸ List.mem_cons_self
  have hkind := (List.mem_filter.1 (List.mem_filter.1 hmem).1).2
  rw [isFunctionResource_entryOf] at hkind
  cases hkind

theorem merge_run (hslot : find? "Resources" entries = some (.mapping resources)) :
    merge handlers root defaults (.mapping entries) =
      (.ok (), .mapping (Yaml.insert "Resources"
        (.mapping (mergeResources handlers root defaults resources)) entries)) := by
  simp [merge, untagged, hslot, resourcesOf?]

theorem resources?_mapping (hslot : find? "Resources" entries = some (.mapping resources)) :
    resources? (.mapping entries) = some resources := by
  simp [resources?, member?, untagged, hslot, asMapping?]

/-- Where a merge succeeds, neither the document nor its resources have a tag. -/
theorem eq_mapping_of_merge_ok (hresources : resources? document = some resources)
    (hok : (merge handlers root defaults document).1 = .ok ()) :
    ∃ entries, document = .mapping entries ∧
      find? "Resources" entries = some (.mapping resources) := by
  cases document with
  | null | bool | number | string | sequence => cases hresources
  | tagged tag value =>
      cases hvalue : value.untagged with
      | null => simp [resources?, member?, untagged, hvalue] at hresources
      | _ => simp [merge, untagged, hvalue] at hok
  | mapping entries =>
      refine ⟨entries, rfl, ?_⟩
      cases hslot : find? "Resources" entries with
      | none => simp [resources?, member?, untagged, hslot] at hresources
      | some slot =>
          simp only [resources?, member?, untagged, hslot, Option.bind_some] at hresources
          cases slot with
          | null | bool | number | string | sequence => cases hresources
          | tagged tag value =>
              simp [merge, untagged, hslot, resourcesOf?, isSubstantial] at hok
          | mapping entries =>
              cases hresources
              rfl

theorem resources?_merge (hslot : find? "Resources" entries = some (.mapping resources)) :
    resources? (merge handlers root defaults (.mapping entries)).2 =
      some (mergeResources handlers root defaults resources) := by
  rw [merge_run hslot]
  exact resources?_mapping (by rw [find?_insert, if_pos rfl])

/-- Where a merge succeeds, the resources that are not functions keep keys, values and order
wherever the key is no handler's name, and all of them do so exactly if no key is. -/
theorem merge_keeps_handAuthored (hresources : resources? document = some resources)
    (hok : (merge handlers root defaults document).1 = .ok ()) :
    ∃ merged, resources? (merge handlers root defaults document).2 = some merged ∧
      merged.filter (fun entry => !namesHandler handlers entry) =
        (handAuthored resources).filter (fun entry => !namesHandler handlers entry) ∧
      ((handAuthored resources).Sublist merged ↔
        ∀ entry ∈ handAuthored resources, ∀ h ∈ handlers, entry.1 ≠ .string h.name) := by
  obtain ⟨entries, rfl, hslot⟩ := eq_mapping_of_merge_ok hresources hok
  refine ⟨_, resources?_merge hslot, ?_, ?_⟩
  · rw [mergeResources_eq, filter_setHandlers]
    exact fun h hh v => by rw [namesHandler_of_mem hh]; rfl
  · rw [sublist_mergeResources_iff]
    exact forall₂_congr fun entry _ => namesHandler_eq_false_iff

def bucketResources : Entries :=
  [(.string "DataBucket", .mapping [(.string "Type", .string "AWS::S3::Bucket")])]

def bucketDocument : Yaml := .mapping [(.string "Resources", .mapping bucketResources)]

theorem resources?_bucketDocument : resources? bucketDocument = some bucketResources := rfl

theorem merge_bucketDocument (handlers : List Handler) (root : String) (defaults : BuildFallback) :
    (merge handlers root defaults bucketDocument).1 = .ok () := by
  rw [bucketDocument, merge_run rfl]

theorem handAuthored_bucketResources : handAuthored bucketResources = bucketResources := rfl

def plainHandler (name : String) : Handler :=
  { name
    sourcePath := "/p/src/fn.ts"
    exported := "handler"
    metadata := .object []
    parameters := []
    returnType := "any"
    httpMethod := none
    httpPath := none
    references := [] }

theorem merge_keeps_handAuthored_bucket :
    resources? bucketDocument = some bucketResources ∧
      (merge [plainHandler "GetItem"] "/p" {} bucketDocument).1 = .ok () ∧
      ∃ merged, resources? (merge [plainHandler "GetItem"] "/p" {} bucketDocument).2 =
        some merged ∧ (handAuthored bucketResources).Sublist merged := by
  have hok := merge_bucketDocument [plainHandler "GetItem"] "/p" {}
  obtain ⟨merged, hmerged, -, hkept⟩ := merge_keeps_handAuthored resources?_bucketDocument hok
  refine ⟨rfl, hok, merged, hmerged, hkept.2 ?_⟩
  rw [handAuthored_bucketResources]
  simp [bucketResources, plainHandler]

/-- A handler with the name of a bucket takes its place. -/
theorem bucket_not_kept :
    ¬ ∀ (handlers : List Handler) (root : String) (defaults : BuildFallback) (document : Yaml)
      (resources : Entries), resources? document = some resources →
        (merge handlers root defaults document).1 = .ok () →
        ∃ merged, resources? (merge handlers root defaults document).2 = some merged ∧
          (handAuthored resources).Sublist merged := by
  intro hkept
  have hslot : find? "Resources" [(.string "Resources", .mapping bucketResources)] =
    some (.mapping bucketResources) := rfl
  obtain ⟨merged, hmerged, hsub⟩ :=
    hkept [plainHandler "DataBucket"] "/p" {} bucketDocument bucketResources
      resources?_bucketDocument (merge_bucketDocument ..)
  rw [bucketDocument, resources?_merge hslot] at hmerged
  cases hmerged
  have hfree := sublist_mergeResources_iff.1 hsub _ List.mem_cons_self
  cases hfree

end HandlerWeave.Descriptor
