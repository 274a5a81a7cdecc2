import HandlerWeave.Proofs.Descriptor.Repetition

/-!
What a merge that fails leaves of a document. One that is no mapping stays as it is. One whose slot
for resources holds something else than a mapping loses what is in that slot, so that the next merge
finds no resources and succeeds.
-/
namespace HandlerWeave.Descriptor

open Yaml

variable {handlers later : List Handler} {root : String} {defaults : BuildFallback}
  {entries : Entries} {document lost : Yaml} {fault : ShapeError}

/-- Something stands where the resources of a document should. -/
structure Misplaced (entries : Entries) (lost : Yaml) : Prop where
  slot : find? "Resources" entries = some lost
  substantial : isSubstantial lost = true
  noMapping : ∀ resources, lost ≠ .mapping resources

theorem misplaced_of_resourcesOf?
    (h : resourcesOf? ((find? "Resources" entries).getD .null) = none) :
    ∃ lost, Misplaced entries lost := by
  cases hslot : find? "Resources" entries with
  | none =>
      rw [hslot] at h
      cases h
  | some lost =>
      rw [hslot, Option.getD_some] at h
      refine ⟨lost, hslot, ?_, ?_⟩
      · cases lost with
        | mapping | sequence | tagged => rfl
        | null | bool | number | string => simpa [resourcesOf?] using h
      · rintro resources rfl
        cases h

/-- The document with nothing in its slot for resources. -/
def emptied (entries : Entries) : Yaml := .mapping (Yaml.insert "Resources" .null entries)

theorem Misplaced.emptied_ne (h : Misplaced entries lost) : emptied entries ≠ .mapping entries := by
  intro heq
  have hslot : find? "Resources" (Yaml.insert "Resources" .null entries) = some lost := by
    rw [Yaml.mapping.inj heq, h.slot]
  rw [find?_insert, if_pos rfl] at hslot
  have hsubstantial := h.substantial
  rw [← Option.some.inj hslot] at hsubstantial
  cases hsubstantial

/-- An emptied document has no resources to start with. -/
theorem merge_emptied (handlers : List Handler) (root : String) (defaults : BuildFallback)
    (entries : Entries) :
    merge handlers root defaults (emptied entries) =
      (.ok (), withResources entries (mergeResources handlers root defaults [])) := by
  have hslot : (find? "Resources" (Yaml.insert "Resources" .null entries)).getD .null = .null := by
    rw [find?_insert, if_pos rfl, Option.getD_some]
  have hnone : resourcesOf? .null = some [] := rfl
  rw [emptied, merge_mapping, hslot, hnone]
  simp only [withResources, insert_insert]

/-- A merge fails for a document that is no mapping, and then leaves it, or for what is in the slot,
and then takes that out. -/
theorem merge_fails_cases (h : (merge handlers root defaults document).1 = .error fault) :
    (fault = .topLevel ∧ (merge handlers root defaults document).2 = document ∧
      ∀ entries, document ≠ .mapping entries) ∨
    (fault = .resources ∧ ∃ entries lost, document = .mapping entries ∧ Misplaced entries lost ∧
      (merge handlers root defaults document).2 = emptied entries) := by
  have hempty : merge handlers root defaults (.mapping []) =
      (.ok (), withResources [] (mergeResources handlers root defaults [])) := rfl
  have hother : ∀ {d : Yaml}, merge handlers root defaults d = (.error .topLevel, d) →
      (merge handlers root defaults d).1 = .error fault → (∀ entries, d ≠ .mapping entries) →
      fault = .topLevel ∧ (merge handlers root defaults d).2 = d ∧
        ∀ entries, d ≠ .mapping entries := by
    intro d hmerge hfault hne
    rw [hmerge] at hfault ⊢
    cases hfault
    exact ⟨rfl, rfl, hne⟩
  cases document with
  | mapping entries =>
      rw [merge_mapping] at h ⊢
      cases hslot : resourcesOf? ((find? "Resources" entries).getD .null) with
      | some resources =>
          rw [hslot] at h
          cases h
      | none =>
          rw [hslot] at h
          cases h
          obtain ⟨lost, hlost⟩ := misplaced_of_resourcesOf? hslot
          exact .inr ⟨rfl, entries, lost, rfl, hlost, rfl⟩
  | null =>
      have hmerge :
        merge handlers root defaults .null = merge handlers root defaults (.mapping []) :=
        rfl
      rw [hmerge, hempty] at h
      cases h
  | tagged tag value =>
      -- a tag in front of nothing does not count
      cases hvalue : value.untagged with
      | null =>
          have hmerge : merge handlers root defaults (.tagged tag value) =
              merge handlers root defaults (.mapping []) := by
            simp [merge, untagged, hvalue]
          rw [hmerge, hempty] at h
          cases h
      | bool | number | string | sequence | mapping | tagged =>
          exact .inl (hother (by simp [merge, untagged, hvalue]) h (by simp))
  | bool | number | string | sequence => exact .inl (hother rfl h (by simp))

/-- A merge that fails leaves the document as it was exactly if the document is no mapping. A
mapping keeps all its entries but the one for resources, which is set to null, and every later merge
makes of it what it makes of a document without resources. -/
theorem merge_fails (hfails : (merge handlers root defaults document).1 = .error fault) :
    ((merge handlers root defaults document).2 = document ↔ fault = .topLevel) ∧
      (fault = .topLevel ↔ ∀ entries, document ≠ .mapping entries) ∧
      ∀ entries, document = .mapping entries → ∃ lost, Misplaced entries lost ∧
        (merge handlers root defaults document).2 =
          .mapping (Yaml.insert "Resources" .null entries) ∧
        ∀ later root' defaults',
          merge later root' defaults' (merge handlers root defaults document).2 =
          (.ok (), withResources entries (mergeResources later root' defaults' [])) := by
  obtain ⟨rfl, hsame, hne⟩ | ⟨rfl, entries, lost, rfl, hlost, hafter⟩ := merge_fails_cases hfails
  · exact ⟨iff_of_true hsame rfl, iff_of_true rfl hne, fun entries h => absurd h (hne entries)⟩
  · refine ⟨iff_of_false ?_ nofun, iff_of_false nofun fun hne => hne entries rfl, ?_⟩
    · rw [hafter]
      exact hlost.emptied_ne
    · rintro _ ⟨⟩
      refine ⟨lost, hlost, hafter, fun later root' defaults' => ?_⟩
      rw [hafter, merge_emptied]

/-- A list stands where the resources should. -/
def listDocument : Yaml :=
  .mapping [(.string "Description", .string "items"),
    (.string "Resources", .sequence [.number (.int 1), .number (.int 2)])]

theorem merge_fails_list :
    (merge [] "/p" {} listDocument).1 = .error .resources ∧
      (merge [] "/p" {} listDocument).2 ≠ listDocument := by
  have hfails : (merge [] "/p" {} listDocument).1 = .error .resources := rfl
  exact ⟨hfails, fun hsame => nomatch (merge_fails hfails).1.1 hsame⟩

/-- The first merge fails and takes the list out of the document, so the second one succeeds. -/
theorem list_not_kept :
    merge [] "/p" {} listDocument = (.error .resources,
      .mapping [(.string "Description", .string "items"), (.string "Resources", .null)]) ∧
    merge [] "/p" {} (merge [] "/p" {} listDocument).2 = (.ok (),
      .mapping [(.string "Description", .string "items"), (.string "Resources", .mapping [])]) :=
  ⟨rfl, rfl⟩

end HandlerWeave.Descriptor
