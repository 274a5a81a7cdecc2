import HandlerWeave.Proofs.Analysis.Sources

/-!
What a run has written. A text that is begun stays among the texts of the run: first on the stack,
then, once it is finished, in a handler or in an entry of the table.
-/
namespace HandlerWeave.Analysis

open Source HandlerWeave.Types

variable {tree : FileTree} {given : List Module} {a b : Analysis} {c d : Moment}

theorem mem_works {w : Work} {m : Module} :
    (w, m) ∈ c.works ↔ (w, m) ∈ c.written ∨ ∃ rest, Call.writing w m rest ∈ c.calls := by
  simp only [Moment.works, List.mem_append, List.mem_filterMap]
  refine or_congr_right ⟨?_, ?_⟩
  · rintro ⟨call, hcall, hwork⟩
    cases call <;> cases hwork
    exact ⟨_, hcall⟩
  · rintro ⟨rest, hcall⟩
    exact ⟨_, hcall, rfl⟩

/-- The ways in which a step changes the texts begun. -/
inductive WorksStep (tree : FileTree) (c d : Moment) : Prop
  | same (h : ∀ x, x ∈ d.works ↔ x ∈ c.works)
  | signature (cls : ClassDef) (method : Method) (exported : String) (m : Module)
      (h : ∀ x, x ∈ d.works ↔ x ∈ c.works ∨ x = (.signature cls method exported, m))
  | declaration (name : QualifiedName) (m origin : Module) (decl : Declaration)
      (hcall : Call.locating name m ∈ c.calls)
      (hsearch : (search name m tree c.state).1 = .ok (.found origin))
      (h : ∀ x, x ∈ d.works ↔ x ∈ c.works ∨ x = (.declaration name.name decl, origin))

theorem Step.works (h : Step tree c d) : WorksStep tree c d := by
  cases h with
  | filesEnd | bindingsEnd | otherBinding | noEntry | file | missing | unsupported | known |
    wanted => exact .same fun x => Iff.rfl
  | written =>
      exact .same fun x => by
        simp only [Moment.works, List.filterMap_cons, Call.work?, List.mem_append, List.mem_cons,
          List.not_mem_nil, or_false, or_assoc]
  | @handler m b _ _ _ _ cls method =>
      exact .signature cls method b.name m fun x => by
        simp only [Moment.works, List.filterMap_cons, Call.work?, List.mem_append, List.mem_cons]
        grind
  | @found name m _ _ _ _ origin decl hsearch =>
      refine .declaration name m origin decl List.mem_cons_self (by rw [hsearch]) fun x => ?_
      simp only [Moment.works, List.filterMap_cons, Call.work?, List.mem_append, List.mem_cons]
      grind

theorem Step.works_subset (h : Step tree c d) : c.works ⊆ d.works := by
  intro x hx
  cases h.works with
  | same h => exact (h x).2 hx
  | signature _ _ _ _ h | declaration _ _ _ _ _ _ h => exact (h x).2 (.inl hx)

def Work.handler? (m : Module) : Work → Option Handler
  | signature c method exported => some (Handler.describe m c method exported)
  | declaration _ _ | type _ _ => none

/-- The handlers are those written, and the entries with a text are those written. -/
structure Moment.Recorded (c : Moment) : Prop where
  handlers : c.state.handlers = c.written.filterMap fun x => x.1.handler? x.2
  shown : ∀ n D, c.state.types.get? n = some D → D.status = .rendered →
    ∃ decl m, (Work.declaration n decl, m) ∈ c.written ∧ Shows m decl D
  entries : ∀ n decl m, (Work.declaration n decl, m) ∈ c.written →
    ∃ D, c.state.types.get? n = some D ∧ Shows m decl D

/-- A step writes nothing, or finishes the innermost text. -/
theorem Step.writes (h : Step tree c d) :
    (d.written = c.written ∧ d.state.handlers = c.state.handlers) ∨
      ∃ w m stack, c.calls = .writing w m [] :: stack ∧
        d = ⟨stack, w.finish m c.state, c.written ++ [(w, m)]⟩ := by
  cases h with
  | filesEnd | bindingsEnd | otherBinding | noEntry | handler | unsupported | known | wanted =>
      exact .inl ⟨rfl, rfl⟩
  | file h => exact .inl ⟨rfl, (openModule_loads h).1.handlers⟩
  | found h hd => exact .inl ⟨rfl, (search_loads h).1.handlers⟩
  | missing h => exact .inl ⟨rfl, (missed_handlers ..).trans (search_loads h).1.handlers⟩
  | written => exact .inr ⟨_, _, _, rfl, rfl⟩

theorem finish_handlers (w : Work) (m : Module) (a : Analysis) :
    (w.finish m a).handlers = a.handlers ++ (w.handler? m).toList := by
  cases w <;> simp [Work.finish, Work.handler?]

theorem Step.written_subset (h : Step tree c d) : c.written ⊆ d.written := by
  obtain ⟨hwritten, -⟩ | ⟨w, m, stack, -, rfl⟩ := h.writes
  · exact hwritten ▸ List.Subset.refl _
  · exact List.subset_append_left _ _

theorem Step.recorded (h : Step tree c d) (hs : Stacked c.defining c.state.types)
    (hc : c.Recorded) : d.Recorded where
  handlers := by
    obtain ⟨hwritten, hhandlers⟩ | ⟨w, m, stack, -, rfl⟩ := h.writes
    · rw [hwritten, hhandlers, hc.handlers]
    · rw [finish_handlers, hc.handlers, List.filterMap_append]
      cases hw : w.handler? m <;> simp [hw]
  shown n D hD hstatus := by
    obtain hD | ⟨decl, m, -, hwritten, hshows⟩ := h.shown hD hstatus
    · obtain ⟨decl, m, hmem, hshows⟩ := hc.shown n D hD hstatus
      exact ⟨decl, m, h.written_subset hmem, hshows⟩
    · exact ⟨decl, m, hwritten, hshows⟩
  entries n decl m hmem := by
    have hold : (Work.declaration n decl, m) ∈ c.written →
        ∃ D, d.state.types.get? n = some D ∧ Shows m decl D := by
      intro hmem
      obtain ⟨D, hD, hshows⟩ := hc.entries n decl m hmem
      exact ⟨D, h.names.rendered hs hD hshows.rendered, hshows⟩
    obtain ⟨hwritten, -⟩ | ⟨w, m', stack, hcalls, rfl⟩ := h.writes
    · exact hold (hwritten ▸ hmem)
    · cases List.mem_append.1 hmem with
      | inl hmem => exact hold hmem
      | inr hmem =>
          cases List.mem_singleton.1 hmem
          have hpending : c.state.types.status? n = some .pending :=
            hs.pending n (by simp [Moment.defining, hcalls, Call.defined?, Work.defined?])
          obtain ⟨D, hD, -⟩ := Table.status?_eq_some.1 hpending
          let shown : Definition :=
            { D with
              status := .rendered
              text := decl.text
              references := Mention.references decl.mentions
              origin := some m.path }
          refine ⟨shown, ?_, rfl, rfl, rfl, rfl⟩
          simp [Work.finish, Table.get?_settle, hD, shown]

/-- A text is kept unless it is one that was only asked for. -/
def Work.IsKept : Work → Prop
  | signature _ _ _ | declaration _ _ => True
  | type _ _ => False

/-- Every text begun is one that is kept, made from a module that was loaded. -/
def Moment.Sourced (c : Moment) : Prop :=
  ∀ w m, (w, m) ∈ c.works → m ∈ c.state.modules ∧ w.IsOf m ∧ w.IsKept

theorem Step.sourced (h : Step tree c d) (hvalid : c.Valid []) (hc : c.Sourced) : d.Sourced := by
  intro w m hmem
  have hold : (w, m) ∈ c.works → m ∈ d.state.modules ∧ w.IsOf m ∧ w.IsKept := by
    intro hmem
    obtain ⟨hm, hof⟩ := hc w m hmem
    exact ⟨h.modules hm, hof⟩
  have hnew : (w, m) ∈ c.works ∨ w.IsKept := by
    cases h.works with
    | same h => exact .inl ((h _).1 hmem)
    | signature _ _ _ _ h | declaration _ _ _ _ _ _ h =>
        cases (h _).1 hmem with
        | inl hmem => exact .inl hmem
        | inr heq =>
            cases heq
            exact .inr trivial
  obtain hmem | hkept := hnew
  · exact hold hmem
  obtain hwritten | ⟨rest, hcall⟩ := mem_works.1 hmem
  · obtain ⟨heq, -⟩ | ⟨w', m', stack, hcalls, rfl⟩ := h.writes
    · exact hold (mem_works.2 (.inl (heq ▸ hwritten)))
    · cases List.mem_append.1 hwritten with
      | inl hwritten => exact hold (mem_works.2 (.inl hwritten))
      | inr hwritten =>
          cases List.mem_singleton.1 hwritten
          exact hold (mem_works.2 (.inr ⟨[], hcalls ▸ List.mem_cons_self⟩))
  · obtain ⟨hm, hof, -⟩ := (h.valid hvalid).calls _ hcall
    exact ⟨hm.resolve_right List.not_mem_nil, hof, hkept⟩

end HandlerWeave.Analysis
