import HandlerWeave.Descriptor
import HandlerWeave.Proofs.Yaml.Entries

/-!
What a handler's entry in the descriptor has of its metadata and what is stamped on it. Four
mappings are changed, each by setting a few keys: the entry itself, its metadata, its properties and
its build properties. Setting keys leaves every other entry as it is and every key in its place.
-/
namespace HandlerWeave.Yaml

variable {key : String} {value later : Yaml} {before after entries : List (Yaml × Yaml)}
  {pairs front back : List (String × Yaml)}

theorem keys_insert : (insert key value entries).map Prod.fst =
    entries.map Prod.fst ++ if (find? key entries).isSome then [] else [.string key] := by
  induction entries with
  | nil => rfl
  | cons entry entries ih =>
      rw [insert_cons, find?_cons]
      cases hname : hasName key entry with
      | true => simp [hasName_iff.1 hname]
      | false => simpa using ih

/-- The entry has none of these keys. -/
def isOther (pairs : List (String × Yaml)) (entry : Yaml × Yaml) : Bool :=
  pairs.all fun pair => !hasName pair.1 entry

/-- One mapping becomes the other when these keys are set: each has its value, in the place of the
key or behind all entries if there was none, and the other entries stay as they are. -/
structure Sets (pairs : List (String × Yaml)) (before after : List (Yaml × Yaml)) : Prop where
  value : ∀ pair ∈ pairs, find? pair.1 after = some pair.2
  keys : after.map Prod.fst = before.map Prod.fst ++
    ((pairs.map Prod.fst).filter fun key => (find? key before).isNone).map .string
  others : after.filter (isOther pairs) = before.filter (isOther pairs)

namespace Sets

theorem nil : Sets [] entries entries := ⟨nofun, by simp, rfl⟩

theorem find?_other (h : Sets pairs before after) (hkey : key ∉ pairs.map Prod.fst) :
    find? key after = find? key before := by
  have hfind : ∀ entries, find? key (entries.filter (isOther pairs)) = find? key entries := by
    intro entries
    induction entries with
    | nil => rfl
    | cons entry entries ih =>
        rw [List.filter_cons]
        cases hname : hasName key entry with
        | true =>
            have hother : isOther pairs entry = true := by
              refine List.all_eq_true.2 fun pair hpair => ?_
              rw [Bool.not_eq_true', Bool.eq_false_iff, Ne, hasName_iff, hasName_iff.1 hname]
              rintro ⟨⟩
              exact hkey (List.mem_map_of_mem hpair)
            rw [if_pos hother, find?_cons, find?_cons, if_pos hname, if_pos hname]
        | false =>
            rw [find?_cons, hname, if_neg Bool.false_ne_true, ← ih]
            split
            · rw [find?_cons, hname, if_neg Bool.false_ne_true]
            · rfl
  rw [← hfind after, ← hfind before, h.others]

theorem isOther_append (pairs more : List (String × Yaml)) : isOther (pairs ++ more) =
    fun entry => isOther more entry && isOther pairs entry := by
  funext entry
  simp [isOther, Bool.and_comm]

theorem isOther_named (hmem : key ∈ pairs.map Prod.fst) (value : Yaml) :
    isOther pairs (.string key, value) = false := by
  obtain ⟨pair, hpair, rfl⟩ := List.mem_map.1 hmem
  refine List.all_eq_false.2 ⟨pair, hpair, ?_⟩
  simp [hasName_string]

/-- A key is set that was not set before. -/
theorem add (h : Sets pairs before after) (hkey : key ∉ pairs.map Prod.fst) :
    Sets (pairs ++ [(key, value)]) before (insert key value after) where
  value pair hpair := by
    obtain hpair | hpair := List.mem_append.1 hpair
    · have hne : pair.1 ≠ key := fun heq => hkey (heq ▸ List.mem_map_of_mem hpair)
      rw [find?_insert, if_neg hne, h.value pair hpair]
    · obtain rfl := List.mem_singleton.1 hpair
      rw [find?_insert, if_pos rfl]
  keys := by
    rw [keys_insert, h.find?_other hkey, h.keys, List.append_assoc, List.map_append,
      List.filter_append, List.map_append]
    cases hfind : find? key before <;> simp [hfind]
  others := by
    have hnone : ∀ v, isOther (pairs ++ [(key, value)]) (.string key, v) = false :=
      isOther_named (by simp)
    rw [filter_insert hnone, isOther_append, ← List.filter_filter, ← List.filter_filter, h.others]

/-- A key that is there counts as set to the value it has. -/
theorem keep (h : Sets pairs before after) (hkey : key ∉ pairs.map Prod.fst)
    (hfind : find? key before = some value) : Sets (pairs ++ [(key, value)]) before after where
  value pair hpair := by
    obtain hpair | hpair := List.mem_append.1 hpair
    · exact h.value pair hpair
    · obtain rfl := List.mem_singleton.1 hpair
      rw [h.find?_other hkey, hfind]
  keys := by
    rw [h.keys, List.map_append, List.filter_append]
    simp [hfind]
  others := by
    rw [isOther_append, ← List.filter_filter, ← List.filter_filter, h.others]

end Sets

/-- Setting a key, another one and the first one again sets each of them once. -/
theorem insert_return {other : String} {new : Yaml} (hne : key ≠ other) :
    insert key later (insert other new (insert key value entries)) =
      insert other new (insert key later entries) := by
  have hkey : ∀ v, hasName key (.string key, v) = true ∧ hasName other (.string key, v) = false :=
    fun v => ⟨hasName_iff.2 rfl, by simpa [hasName_string] using hne⟩
  have hother : hasName key (.string other, new) = false := by
    simpa [hasName_string] using hne.symm
  induction entries with
  | nil => simp [insert_nil, insert_cons, hkey]
  | cons entry entries ih =>
      cases hfirst : hasName key entry with
      | true => simp [insert_cons, hfirst, hkey]
      | false =>
          cases hsecond : hasName other entry with
          | true => simp [insert_cons, hfirst, hsecond, hother, insert_insert]
          | false => simp [insert_cons, hfirst, hsecond, ih]

end HandlerWeave.Yaml

namespace HandlerWeave.Descriptor

open Yaml

/-- The mapping that stands under a key. -/
def mappingAt? (key : String) (entries : Entries) : Option Entries :=
  match find? key entries with
  | some (.mapping inner) => some inner
  | _ => none

/-- The entries that a handler's metadata is written as. -/
def writtenEntries (h : Handler) : Entries :=
  match h.metadata.toYaml? with
  | some (.mapping entries) => entries
  | _ => []

/-- The value of a key, unless it is missing or falsy. -/
def filledValue (entries : Entries) (key : String) (value : Yaml) : Yaml :=
  ((find? key entries).filter isSubstantial).getD value

theorem take_eq (entries : Entries) (key : String) (fallback : Entries) :
    take entries key fallback =
      ((mappingAt? key entries).getD fallback, Yaml.insert key .null entries) := by
  rw [take, mappingAt?]
  cases find? key entries with
  | none => rfl
  | some value => cases value <;> rfl

theorem sets_fill {pairs : List (String × Yaml)} {before after : Entries}
    (h : Sets pairs before after) (key : String) (value : Yaml) (hkey : key ∉ pairs.map Prod.fst) :
    Sets (pairs ++ [(key, filledValue before key value)]) before (fill after key value) := by
  unfold Descriptor.fill filledValue
  rw [h.find?_other hkey]
  cases hfind : find? key before with
  | none => exact h.add hkey
  | some own =>
      cases hown : isSubstantial own with
      | true => simpa [Option.filter, hown] using h.keep hkey hfind
      | false => simpa [Option.filter, hown] using h.add hkey

theorem mappingAt?_insert {key other : String} (hne : other ≠ key) (value : Yaml)
    (entries : Entries) :
    mappingAt? other (Yaml.insert key value entries) = mappingAt? other entries := by
  rw [mappingAt?, find?_insert, if_neg hne, mappingAt?]

/-- The build properties of an entry: those that are written, with the source to build and what they
leave open. -/
def stampedBuild (relative : String) (defaults : BuildFallback) (written : Entries) : Entries :=
  fill (fill (fill (Yaml.insert "EntryPoints" (.sequence [.string relative]) written)
    "Minify" (.bool false)) "Target" defaults.target) "Sourcemap" defaults.sourceMap

/-- Without the placeholders each key of an entry is set once. -/
theorem entryOf_eq (root : String) (defaults : BuildFallback) (h : Handler) :
    let relative := Path.relativeTo root h.sourcePath
    let metadata := (mappingAt? "Metadata" (writtenEntries h)).getD []
    let build := stampedBuild relative defaults ((mappingAt? "BuildProperties" metadata).getD [])
    let properties := (mappingAt? "Properties" (writtenEntries h)).getD
      [(.string "Events", .mapping [])]
    entryOf root defaults h = Yaml.insert "Properties"
      (.mapping (Yaml.insert "Handler"
        (.string (Artifact.entryPoint relative h.exported)) properties))
      (Yaml.insert "Metadata"
        (.mapping (Yaml.insert "BuildMethod" (.string bundler)
          (Yaml.insert "BuildProperties" (.mapping build) metadata)))
        (Yaml.insert "Type" (.string functionKind) (writtenEntries h))) := by
  have hMetadata : ("Metadata" : String) ≠ "Type" := by decide
  have hProperties : ("Properties" : String) ≠ "Type" := by decide
  have hBoth : ("Properties" : String) ≠ "Metadata" := by decide
  have hBuild : ("BuildProperties" : String) ≠ "BuildMethod" := by decide
  simp only [entryOf, take_eq, mappingAt?_insert hMetadata, mappingAt?_insert hProperties,
    mappingAt?_insert hBoth, insert_return hBuild, insert_return hBoth.symm, insert_insert]
  rfl

/-- An entry is its handler's metadata with keys set at four places: the kind of the resource, how
it is built, the source to build with what the metadata leaves open, and the exported handler. Keys
that the metadata has stay where they are, those it lacks come behind them in the order in which
they are set here, and everything else in it stays. Only where it has no mapping of properties do
these start out with an empty mapping of events. -/
theorem entryOf_stamps (root : String) (defaults : BuildFallback) (h : Handler) :
    let relative := Path.relativeTo root h.sourcePath
    let written := writtenEntries h
    let writtenMetadata := (mappingAt? "Metadata" written).getD []
    let writtenBuild := (mappingAt? "BuildProperties" writtenMetadata).getD []
    let writtenProperties := mappingAt? "Properties" written
    ∃ metadata build properties : Entries,
      Sets [("Type", .string functionKind), ("Metadata", .mapping metadata),
        ("Properties", .mapping properties)] written (entryOf root defaults h) ∧
      Sets [("BuildProperties", .mapping build), ("BuildMethod", .string bundler)]
        writtenMetadata metadata ∧
      Sets [("EntryPoints", .sequence [.string relative]),
        ("Minify", filledValue writtenBuild "Minify" (.bool false)),
        ("Target", filledValue writtenBuild "Target" defaults.target),
        ("Sourcemap", filledValue writtenBuild "Sourcemap" defaults.sourceMap)] writtenBuild build ∧
      Sets [("Handler", .string (Artifact.entryPoint relative h.exported))]
        (writtenProperties.getD [(.string "Events", .mapping [])]) properties ∧
      find? "Events" properties =
        (match writtenProperties with
        | none => some (.mapping [])
        | some given => find? "Events" given) := by
  intro relative written writtenMetadata writtenBuild writtenProperties
  have hproperties : Sets [("Handler", .string (Artifact.entryPoint relative h.exported))]
      (writtenProperties.getD [(.string "Events", .mapping [])]) _ := Sets.nil.add (by decide)
  have hsource : Sets [("EntryPoints", .sequence [.string relative])] writtenBuild _ :=
    Sets.nil.add (by decide)
  have hminify := sets_fill hsource "Minify" (.bool false) (by simp)
  have htarget := sets_fill hminify "Target" defaults.target (by simp)
  have hbuild := sets_fill htarget "Sourcemap" defaults.sourceMap (by simp)
  have hinner : Sets [("BuildProperties", .mapping (stampedBuild relative defaults writtenBuild))]
      writtenMetadata _ := Sets.nil.add (by decide)
  have hmetadata : Sets (_ ++ [("BuildMethod", .string bundler)]) writtenMetadata _ :=
    hinner.add (by simp)
  have hkind : Sets [("Type", .string functionKind)] written _ := Sets.nil.add (by decide)
  refine ⟨_, _, _, ?_, hmetadata, hbuild, hproperties, ?_⟩
  · rw [entryOf_eq]
    exact (hkind.add (by simp)).add (by simp)
  · rw [hproperties.find?_other (by simp)]
    cases writtenProperties <;> rfl

end HandlerWeave.Descriptor
