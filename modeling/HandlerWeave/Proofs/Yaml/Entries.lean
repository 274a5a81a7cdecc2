import HandlerWeave.Yaml.Value

/-!
Setting a key of a mapping. The entry of that key is replaced in its place or added at the end, and
every other entry stays where it is.
-/
namespace HandlerWeave.Yaml

variable {key other : String} {value : Yaml} {entries : List (Yaml × Yaml)}

def hasName (key : String) (entry : Yaml × Yaml) : Bool :=
  match entry.1 with
  | .string k => k == key
  | _ => false

theorem hasName_string {k : String} : hasName key (.string k, value) = (k == key) := rfl

theorem hasName_iff {entry : Yaml × Yaml} : hasName key entry = true ↔ entry.1 = .string key := by
  obtain ⟨k, v⟩ := entry
  cases k with
  | string k => simp [hasName_string]
  | null | bool | number | sequence | mapping | tagged =>
      exact iff_of_false Bool.false_ne_true (by simp)

theorem find?_cons {entry : Yaml × Yaml} :
    find? key (entry :: entries) =
      if hasName key entry then some entry.2 else find? key entries := by
  obtain ⟨k, v⟩ := entry
  cases k with
  | string k => by_cases hk : k = key <;> simp [find?, hasName_string, hk]
  | null | bool | number | sequence | mapping | tagged => rfl

theorem insert_nil : insert key value [] = [(.string key, value)] := rfl

theorem insert_cons {entry : Yaml × Yaml} :
    insert key value (entry :: entries) =
      if hasName key entry then (.string key, value) :: entries
      else entry :: insert key value entries := by
  obtain ⟨k, v⟩ := entry
  cases k with
  | string k => by_cases hk : k = key <;> simp [insert, hasName_string, hk]
  | null | bool | number | sequence | mapping | tagged => rfl

theorem find?_insert :
    find? other (insert key value entries) =
      if other = key then some value else find? other entries := by
  have hself : ∀ rest, find? other ((.string key, value) :: rest) =
      if other = key then some value else find? other rest := by
    intro rest
    by_cases ho : other = key
    · rw [find?_cons, if_pos (hasName_iff.2 (ho ▸ rfl)), if_pos ho]
    · rw [find?_cons, if_neg (by simpa [hasName_string] using Ne.symm ho), if_neg ho]
  induction entries with
  | nil => exact hself []
  | cons entry rest ih =>
      rw [insert_cons]
      by_cases hname : hasName key entry = true
      · rw [if_pos hname, hself, find?_cons]
        by_cases ho : other = key
        · rw [if_pos ho, if_pos ho]
        · have hother : hasName other entry ≠ true := fun hother =>
            ho (string.inj ((hasName_iff.1 hother).symm.trans (hasName_iff.1 hname)))
          rw [if_neg ho, if_neg ho, if_neg hother]
      · rw [if_neg hname, find?_cons, find?_cons, ih]
        by_cases ho : other = key
        · subst ho
          rw [if_neg hname, if_pos rfl, if_pos rfl]
        · rw [if_neg ho, if_neg ho]

theorem insert_ne_nil : insert key value entries ≠ [] := by
  cases entries with
  | nil => exact List.cons_ne_nil _ _
  | cons entry rest =>
      rw [insert_cons]
      split <;> exact List.cons_ne_nil _ _

/-- Where a filter drops the new entry and the ones it can replace, it does not see the change. -/
theorem filter_insert_of_dropped {p : Yaml × Yaml → Bool} (hnew : p (.string key, value) = false)
    (hold : ∀ entry ∈ entries, hasName key entry = true → p entry = false) :
    (insert key value entries).filter p = entries.filter p := by
  induction entries with
  | nil => simp [insert_nil, hnew]
  | cons entry rest ih =>
      obtain ⟨hentry, hrest⟩ := List.forall_mem_cons.1 hold
      rw [insert_cons]
      by_cases hname : hasName key entry = true
      · simp [hname, hnew, hentry hname]
      · simp [hname, ih hrest, List.filter_cons]

/-- Where a filter keeps the new entry and drops the ones it can replace, it finds one more. -/
theorem perm_filter_insert {p : Yaml × Yaml → Bool} (hnew : p (.string key, value) = true)
    (hold : ∀ entry ∈ entries, hasName key entry = true → p entry = false) :
    ((insert key value entries).filter p).Perm ((.string key, value) :: entries.filter p) := by
  induction entries with
  | nil => rw [insert_nil, List.filter_cons_of_pos hnew]
  | cons entry rest ih =>
      obtain ⟨hentry, hrest⟩ := List.forall_mem_cons.1 hold
      rw [insert_cons]
      by_cases hname : hasName key entry = true
      · rw [if_pos hname, List.filter_cons_of_pos hnew,
          List.filter_cons_of_neg (by simp [hentry hname])]
      · rw [if_neg hname, List.filter_cons, List.filter_cons]
        split
        · exact ((ih hrest).cons entry).trans (.swap ..)
        · exact ih hrest

/-- Entries of other keys are found as before, in the same order. -/
theorem filter_insert {p : Yaml × Yaml → Bool} (hp : ∀ v, p (.string key, v) = false) :
    (insert key value entries).filter p = entries.filter p := by
  refine filter_insert_of_dropped (hp value) fun entry _ hname => ?_
  rw [show entry = (.string key, entry.2) from Prod.ext (hasName_iff.1 hname) rfl, hp]

/-- Of the entries of the key itself the first one is new. -/
theorem filter_hasName_insert :
    (insert key value entries).filter (hasName key) =
      (.string key, value) :: (entries.filter (hasName key)).tail := by
  have hself : hasName key (.string key, value) = true := hasName_iff.2 rfl
  induction entries with
  | nil => exact List.filter_cons_of_pos hself
  | cons entry rest ih =>
      rw [insert_cons]
      by_cases hname : hasName key entry = true
      · simp [hname, hself]
      · simp [hname, ih]

theorem insert_insert {later : Yaml} :
    insert key later (insert key value entries) = insert key later entries := by
  have hself : hasName key (.string key, value) = true := hasName_iff.2 rfl
  induction entries with
  | nil => rw [insert_nil, insert_cons, if_pos hself, insert_nil]
  | cons entry rest ih =>
      rw [insert_cons, insert_cons]
      by_cases hname : hasName key entry = true
      · simp [hname, insert_cons, hself]
      · simp [hname, insert_cons, ih]

/-- A new key goes to the end. -/
theorem insert_eq_append (h : ∀ entry ∈ entries, hasName key entry = false) :
    insert key value entries = entries ++ [(.string key, value)] := by
  induction entries with
  | nil => rfl
  | cons entry rest ih =>
      obtain ⟨hentry, hrest⟩ := List.forall_mem_cons.1 h
      rw [insert_cons, hentry, if_neg Bool.false_ne_true, ih hrest]
      rfl

theorem mem_insert {entry : Yaml × Yaml} (h : entry ∈ insert key value entries) :
    entry = (.string key, value) ∨ entry ∈ entries := by
  induction entries with
  | nil => exact .inl (List.mem_singleton.1 h)
  | cons first rest ih =>
      rw [insert_cons] at h
      by_cases hfirst : hasName key first = true
      · rw [if_pos hfirst] at h
        exact (List.mem_cons.1 h).imp_right (List.mem_cons_of_mem _)
      · rw [if_neg hfirst] at h
        cases List.mem_cons.1 h with
        | inl heq => exact .inr (heq ▸ List.mem_cons_self)
        | inr h => exact (ih h).imp_right (List.mem_cons_of_mem _)

/-- Setting a key changes the entries around one of another key as if that one were not there. -/
theorem insert_around {before after : List (Yaml × Yaml)} {entry : Yaml × Yaml}
    (h : hasName key entry = false) :
    ∃ before' after', insert key value (before ++ after) = before' ++ after' ∧
      insert key value (before ++ entry :: after) = before' ++ entry :: after' := by
  induction before with
  | nil => exact ⟨[], insert key value after, rfl, by simp [insert_cons, h]⟩
  | cons first before ih =>
      by_cases hfirst : hasName key first = true
      · exact ⟨(.string key, value) :: before, after, by simp [insert_cons, hfirst],
          by simp [insert_cons, hfirst]⟩
      · obtain ⟨before', after', hwithout, hwith⟩ := ih
        exact ⟨first :: before', after', by simp [insert_cons, hfirst, hwithout],
          by simp [insert_cons, hfirst, hwith]⟩

end HandlerWeave.Yaml
