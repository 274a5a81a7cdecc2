import HandlerWeave.Proofs.Analysis.Machine
import HandlerWeave.Proofs.Types.Search
import HandlerWeave.Proofs.Types.Table

/-!
The names whose definition is on the stack. At every moment of a run they are pending and there
once, so that an entry with a text is never changed, and no entry is ever removed.
-/
namespace HandlerWeave.Analysis

open Source HandlerWeave.Types

variable {tree : FileTree} {c d : Moment}

/-- The ways in which a step changes the names on the stack and the table. -/
inductive NamesStep : List String → Table → List String → Table → Prop
  | same {names t} : NamesStep names t names t
  | start {names t n} (h : t.wanted n = true) : NamesStep names t (n :: names) (t.start n)
  | settle {names t n text references origin} :
      NamesStep (n :: names) t names (t.settle n text references origin)
  | leaveOut {names t n} : NamesStep (n :: names) t names (t.leaveOut n)

theorem Step.names (h : Step tree c d) :
    NamesStep c.defining c.state.types d.defining d.state.types := by
  cases h with
  | filesEnd | bindingsEnd | otherBinding | noEntry | handler | unsupported | known => exact .same
  | file h =>
      have htypes := (openModule_loads h).1.types
      simp only [Moment.defining, htypes]
      exact .same
  | @written work m stack a done =>
      cases work with
      | signature | type => exact .same
      | declaration n d => exact .settle
  | wanted h => exact .start h
  | found h hd =>
      have htypes := (search_loads h).1.types
      simp only [Moment.defining, htypes]
      exact .same
  | missing h =>
      have htypes := (search_loads h).1.types
      simp only [Moment.defining, missed_types, htypes]
      exact .leaveOut

/-- The names on the stack are there once, and pending. -/
structure Stacked (names : List String) (t : Table) : Prop where
  nodup : names.Nodup
  pending : ∀ n ∈ names, t.status? n = some .pending

theorem NamesStep.stacked {names names' : List String} {t t' : Table}
    (h : NamesStep names t names' t') (hs : Stacked names t) : Stacked names' t' := by
  cases h with
  | same => exact hs
  | @start _ _ n hwanted =>
      have hnew : n ∉ names := by
        intro hn
        rw [Table.wanted_eq_false.2 (.inl (hs.pending n hn))] at hwanted
        cases hwanted
      refine ⟨List.nodup_cons.2 ⟨hnew, hs.nodup⟩, ?_⟩
      intro m hm
      rw [Table.status?_start hwanted]
      split
      · rfl
      next hne => exact hs.pending m ((List.mem_cons.1 hm).resolve_left hne)
  | @settle _ _ n | @leaveOut _ _ n =>
      obtain ⟨hn, hnodup⟩ := List.nodup_cons.1 hs.nodup
      refine ⟨hnodup, ?_⟩
      intro m hm
      have hne : m ≠ n := fun h => hn (h ▸ hm)
      have hpending := hs.pending m (List.mem_cons_of_mem _ hm)
      simpa [Table.status?, Table.get?_settle, Table.get?_leaveOut, hne] using hpending

/-- What is pending is on the stack, unless it was pending before the run. -/
theorem NamesStep.pending {names names' : List String} {t t' : Table}
    (h : NamesStep names t names' t') (hs : Stacked names t)
    (hp : ∀ n, t.status? n = some .pending → n ∈ names) (n : String)
    (hn : t'.status? n = some .pending) : n ∈ names' := by
  cases h with
  | same => exact hp n hn
  | start hwanted =>
      rw [Table.status?_start hwanted] at hn
      split at hn
      next h => exact h ▸ List.mem_cons_self
      · exact List.mem_cons_of_mem _ (hp n hn)
  | settle =>
      rw [Table.status?_settle (hs.pending _ List.mem_cons_self)] at hn
      split at hn
      · cases hn
      next hne => exact (List.mem_cons.1 (hp n hn)).resolve_left hne
  | leaveOut =>
      rw [Table.status?_leaveOut (hs.pending _ List.mem_cons_self)] at hn
      split at hn
      · cases hn
      next hne => exact (List.mem_cons.1 (hp n hn)).resolve_left hne

/-- An entry with a text is not changed, since no name on the stack has one. -/
theorem NamesStep.rendered {names names' : List String} {t t' : Table}
    (h : NamesStep names t names' t') (hs : Stacked names t) {n : String} {D : Definition}
    (hD : t.get? n = some D) (hstatus : D.status = .rendered) : t'.get? n = some D := by
  have hrendered : t.status? n = some .rendered := Table.status?_eq_some.2 ⟨D, hD, hstatus⟩
  have hne : ∀ m, t.status? m = some .pending → n ≠ m := by
    rintro m hm rfl
    rw [hm] at hrendered
    cases hrendered
  cases h with
  | same => exact hD
  | @start _ _ m hwanted =>
      rw [Table.get?_start hwanted, if_neg]
      · exact hD
      · rintro rfl
        rw [Table.wanted_eq_false.2 (.inr hrendered)] at hwanted
        cases hwanted
  | settle => rw [Table.get?_settle, if_neg (hne _ (hs.pending _ List.mem_cons_self)), hD]
  | leaveOut => rw [Table.get?_leaveOut, if_neg (hne _ (hs.pending _ List.mem_cons_self)), hD]

/-- No entry is ever removed. -/
theorem NamesStep.entry {names names' : List String} {t t' : Table}
    (h : NamesStep names t names' t') {n : String} (hn : (t.get? n).isSome) :
    (t'.get? n).isSome := by
  cases h with
  | same => exact hn
  | start hwanted =>
      rw [Table.get?_start hwanted]
      split
      · rfl
      · exact hn
  | settle =>
      rw [Table.get?_settle]
      split
      · simpa using hn
      · exact hn
  | leaveOut =>
      rw [Table.get?_leaveOut]
      split
      · simpa using hn
      · exact hn

/-- A name that gets an entry is now on the stack. -/
theorem NamesStep.entered {names names' : List String} {t t' : Table}
    (h : NamesStep names t names' t') {n : String} (hn : (t'.get? n).isSome) :
    (t.get? n).isSome ∨ n ∈ names' := by
  cases h with
  | same => exact .inl hn
  | start hwanted =>
      rw [Table.get?_start hwanted] at hn
      split at hn
      next heq => exact .inr (heq ▸ List.mem_cons_self)
      · exact .inl hn
  | settle =>
      rw [Table.get?_settle] at hn
      split at hn
      · exact .inl (by simpa using hn)
      · exact .inl hn
  | leaveOut =>
      rw [Table.get?_leaveOut] at hn
      split at hn
      · exact .inl (by simpa using hn)
      · exact .inl hn

theorem NamesStep.blank {names names' : List String} {t t' : Table}
    (h : NamesStep names t names' t') (hs : Stacked names t) (ht : t.Blank) : t'.Blank := by
  intro n D hD hstatus
  cases h with
  | same => exact ht n D hD hstatus
  | @start _ _ m hwanted =>
      rw [Table.get?_start hwanted] at hD
      split at hD
      next heq =>
        subst heq
        cases hD
        cases hn : t.get? n with
        | none => exact ⟨rfl, rfl, nofun⟩
        | some D =>
            have hold : D.status ≠ .rendered := by
              intro hrendered
              rw [Table.wanted_eq_false.2 (.inr (Table.status?_eq_some.2 ⟨D, hn, hrendered⟩))]
                at hwanted
              cases hwanted
            obtain ⟨hreferences, horigin, -⟩ := ht n D hn hold
            exact ⟨hreferences, horigin, nofun⟩
      · exact ht n D hD hstatus
  | settle =>
      rw [Table.get?_settle] at hD
      split at hD
      · obtain ⟨D', -, rfl⟩ := Option.map_eq_some_iff.1 hD
        exact absurd rfl hstatus
      · exact ht n D hD hstatus
  | @leaveOut _ _ m =>
      rw [Table.get?_leaveOut] at hD
      split at hD
      next heq =>
        subst heq
        obtain ⟨D', hD', rfl⟩ := Option.map_eq_some_iff.1 hD
        obtain ⟨D'', hD'', hpending⟩ := Table.status?_eq_some.1 (hs.pending n List.mem_cons_self)
        cases hD'.symm.trans hD''
        have hold : D'.status ≠ .rendered := hpending ▸ nofun
        obtain ⟨hreferences, horigin, -⟩ := ht n D' hD' hold
        exact ⟨hreferences, horigin, fun _ => rfl⟩
      · exact ht n D hD hstatus

theorem NamesStep.keyed {names names' : List String} {t t' : Table}
    (h : NamesStep names t names' t') (ht : t.Keyed) : t'.Keyed := by
  cases h with
  | same => exact ht
  | start => exact ht.start
  | settle => exact ht.settle
  | leaveOut => exact ht.leaveOut

end HandlerWeave.Analysis
