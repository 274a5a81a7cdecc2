import HandlerWeave.Literal.Value
import Mathlib.Data.List.Basic

/-!
Entries written one after the other. A key keeps the place where it is written first and has the
value that it is given last.
-/
namespace HandlerWeave.Literal

variable {key : String} {value : Literal} {entries written : List (String × Literal)}

/-- The entry that gives `key` its value, of those that are written in this order. -/
def lastOf? (key : String) (written : List (String × Literal)) : Option (String × Literal) :=
  written.findRev? (·.1 == key)

/-- One entry for each key, in the order in which the keys are first written. -/
def lastEntries (written : List (String × Literal)) : List (String × Literal) :=
  (written.map Prod.fst).eraseDups.filterMap fun key => lastOf? key written

/-- All entries set, one after the other. -/
def insertAll (entries written : List (String × Literal)) : List (String × Literal) :=
  written.foldl (fun entries e => insert e.1 e.2 entries) entries

theorem lastOf?_cons (key : String) (entry : String × Literal) :
    lastOf? key (entry :: written) =
      (lastOf? key written).or (if entry.1 == key then some entry else none) := by
  rw [lastOf?, lastOf?, List.findRev?]
  cases written.findRev? (·.1 == key) <;> cases entry.1 == key <;> rfl

theorem lastOf?_mem {entry : String × Literal} (h : lastOf? key written = some entry) :
    entry ∈ written ∧ entry.1 = key := by
  rw [lastOf?, List.findRev?_eq_find?_reverse] at h
  exact ⟨List.mem_reverse.1 (List.mem_of_find?_eq_some h), by simpa using List.find?_some h⟩

/-- What is written under other keys has no say. -/
theorem lastOf?_filter {other : String} (h : key ≠ other) :
    lastOf? key (written.filter fun e => !e.1 == other) = lastOf? key written := by
  induction written with
  | nil => rfl
  | cons entry written ih =>
      rw [lastOf?_cons, List.filter_cons, ← ih]
      split
      · rw [lastOf?_cons]
      next hother =>
        have hkey : (entry.1 == key) = false := by
          have heq : entry.1 = other := by simpa using hother
          simpa [heq] using h.symm
        rw [hkey, if_neg (by decide), Option.or_none]

theorem insertAll_cons_insert (entry : String × Literal) :
    insertAll entries (entry :: written) = insertAll (insert entry.1 entry.2 entries) written := rfl

/-- The key that stands first stays first, and the others are set behind it. -/
theorem insertAll_cons (written : List (String × Literal)) :
    insertAll ((key, value) :: entries) written =
      ((lastOf? key written).getD (key, value)) ::
        insertAll entries (written.filter fun e => !e.1 == key) := by
  induction written generalizing value entries with
  | nil => rfl
  | cons entry written ih =>
      obtain ⟨other, new⟩ := entry
      rw [insertAll_cons_insert, lastOf?_cons, List.filter_cons]
      by_cases hkey : other = key
      · subst hkey
        rw [insert, if_pos rfl, ih]
        cases lastOf? other written <;> simp
      · rw [insert, if_neg (Ne.symm hkey), ih]
        cases lastOf? key written <;> simp [hkey, insertAll_cons_insert]

theorem insertAll_nil (written : List (String × Literal)) :
    insertAll [] written = lastEntries written := by
  induction hn : written.length using Nat.strongRecOn generalizing written with
  | ind n ih =>
      subst hn
      cases written with
      | nil => rfl
      | cons entry written =>
          obtain ⟨key, value⟩ := entry
          have hothers : insertAll [] (written.filter fun e => !e.1 == key) =
              ((written.map Prod.fst).filter fun other => !other == key).eraseDups.filterMap
                fun other => lastOf? other ((key, value) :: written) := by
            rw [ih _ (Nat.lt_succ_of_le (List.length_filter_le ..)) _ rfl, lastEntries,
              List.filter_map, Function.comp_def]
            refine List.filterMap_congr fun other hother => ?_
            have hne : other ≠ key := by
              simp only [List.mem_eraseDups, List.mem_map, List.mem_filter] at hother
              obtain ⟨e, ⟨-, he⟩, rfl⟩ := hother
              simpa using he
            rw [lastOf?_filter hne, lastOf?_cons]
            simp [hne.symm]
          rw [insertAll_cons_insert, insert, insertAll_cons, hothers, lastEntries, List.map_cons,
            List.eraseDups_cons, List.filterMap_cons, lastOf?_cons]
          cases lastOf? key written <;> simp

end HandlerWeave.Literal
