import HandlerWeave.Proofs.Analysis.History
import HandlerWeave.Proofs.Analysis.Runs

/-!
Adding files to a new analysis. Every reference that a text has come past is on its way to a text of
its own, or cannot be found; when the run is over, nothing is on its way any more.
-/
namespace HandlerWeave.Analysis

open Source HandlerWeave.Types

variable {tree : FileTree} {a b : Analysis} {c d : Moment} {q : QualifiedName} {m : Module}

/-- How a reference in `m` that has been come past may stand. -/
inductive Followed (tree : FileTree) (c : Moment) (q : QualifiedName) (m : Module) : Prop
  | rendered (h : c.state.types.status? q.name = some .rendered)
  | begun {decl origin rest}
      (h : Call.writing (.declaration q.name decl) origin rest ∈ c.calls)
  | searched (h : Call.locating q m ∈ c.calls)
  | notFound (h : (c.state.types.get? q.name).isSome)
      (hsought : ∀ origin, sought tree q m ≠ .ok (.found origin))

theorem Step.rendered (h : Step tree c d) (hs : Stacked c.defining c.state.types) {n : String}
    (hn : c.state.types.status? n = some .rendered) :
    d.state.types.status? n = some .rendered := by
  obtain ⟨D, hD, hstatus⟩ := Table.status?_eq_some.1 hn
  exact Table.status?_eq_some.2 ⟨D, h.names.rendered hs hD hstatus, hstatus⟩

theorem Step.begun (h : Step tree c d) (hs : Stacked c.defining c.state.types) {n : String}
    {decl : Declaration} {origin : Module} {rest : List Mention}
    (hcall : Call.writing (.declaration n decl) origin rest ∈ c.calls) :
    d.state.types.status? n = some .rendered ∨
      ∃ rest', Call.writing (.declaration n decl) origin rest' ∈ d.calls := by
  obtain hkept | ⟨stack, hcalls⟩ := h.kept hcall
  · exact .inr ⟨rest, hkept⟩
  cases h with
  | filesEnd | bindingsEnd | file | otherBinding | noEntry | handler | found | missing =>
      cases hcalls
  | unsupported | known =>
      cases hcalls
      exact .inr ⟨_, List.mem_cons_self⟩
  | wanted =>
      cases hcalls
      exact .inr ⟨_, List.mem_cons_of_mem _ List.mem_cons_self⟩
  | written =>
      cases hcalls
      have hpending := hs.pending n List.mem_cons_self
      exact .inl (by rw [Work.finish, Table.status?_settle hpending, if_pos rfl])

/-- A search is still under way, has found the declaration that is now being written, or has ended
in vain. -/
theorem Step.searched (h : Step tree c d) (hloaded : Loaded tree c.state)
    (hcall : Call.locating q m ∈ c.calls) :
    Call.locating q m ∈ d.calls ∨
      (∃ decl origin rest, Call.writing (.declaration q.name decl) origin rest ∈ d.calls) ∨
      ∀ origin, sought tree q m ≠ .ok (.found origin) := by
  obtain hkept | ⟨stack, hcalls⟩ := h.kept hcall
  · exact .inl hkept
  cases h with
  | filesEnd | bindingsEnd | file | otherBinding | noEntry | handler | unsupported | known | wanted
  | written => cases hcalls
  | found =>
      cases hcalls
      exact .inr (.inl ⟨_, _, _, List.mem_cons_self⟩)
  | missing hsearch =>
      cases hcalls
      obtain ⟨b, hrun, -⟩ := search_run hloaded q m
      rw [hrun] at hsearch
      refine .inr (.inr fun origin horigin => ?_)
      rw [horigin] at hsearch
      cases hsearch

theorem Step.followed (h : Step tree c d) (hs : Stacked c.defining c.state.types)
    (hloaded : Loaded tree c.state) (hq : Followed tree c q m) : Followed tree d q m := by
  cases hq with
  | rendered hq => exact .rendered (h.rendered hs hq)
  | begun hcall =>
      obtain hq | ⟨rest, hcall⟩ := h.begun hs hcall
      · exact .rendered hq
      · exact .begun hcall
  | searched hcall =>
      obtain hcall' | ⟨decl, origin, rest, hcall'⟩ | hsought := h.searched hloaded hcall
      · exact .searched hcall'
      · exact .begun hcall'
      -- Searched in vain, the name keeps the entry that it was started with.
      · refine .notFound (h.names.entry ?_) hsought
        have hmem : q.name ∈ c.defining := List.mem_filterMap.2 ⟨_, hcall, rfl⟩
        obtain ⟨D, hD, -⟩ := Table.status?_eq_some.1 (hs.pending _ hmem)
        exact hD ▸ rfl
  | notFound hq hsought => exact .notFound (h.names.entry hq) hsought

/-- Of every text, the references that it has come past are followed. -/
structure Moment.Met (tree : FileTree) (c : Moment) : Prop where
  written : ∀ w m, (w, m) ∈ c.written → ∀ q, .named q ∈ w.mentions → Followed tree c q m
  writing : ∀ w m rest, Call.writing w m rest ∈ c.calls → ∀ q, .named q ∈ w.mentions →
    .named q ∈ rest ∨ Followed tree c q m

/-- What holds at every moment while files are added to a new analysis. -/
structure Moment.Coherent (tree : FileTree) (c : Moment) : Prop where
  loaded : Loaded tree c.state
  valid : c.Valid []
  keyed : c.state.types.Keyed
  stacked : Stacked c.defining c.state.types
  pending : ∀ n, c.state.types.status? n = some .pending → n ∈ c.defining
  recorded : c.Recorded
  sourced : c.Sourced
  met : c.Met tree

/-- A name is known where it has a text or is defined further down the stack. -/
theorem Moment.Coherent.known (hc : c.Coherent tree) {w : Work} {m : Module} {rest : List Mention}
    {stack : List Call} (hcalls : c.calls = .writing w m (.named q :: rest) :: stack)
    (hknown : c.state.types.wanted q.name = false) : Followed tree c q m := by
  cases Table.wanted_eq_false.1 hknown with
  | inl hpending =>
      obtain ⟨call, hcall, hdefined⟩ := List.mem_filterMap.1 (hc.pending q.name hpending)
      cases call with
      | files | bindings => cases hdefined
      | locating q' m' =>
          rw [hcalls] at hcall
          -- Only the innermost call may still be searching, and that one is writing.
          cases List.mem_cons.1 hcall with
          | inl heq => cases heq
          | inr hcall => exact absurd (by simpa [hcalls] using hcall) (hc.valid.searching q' m')
      | writing w' m' rest' =>
          cases w' with
          | signature | type => cases hdefined
          | declaration n decl =>
              cases hdefined
              exact .begun hcall
  | inr hrendered => exact .rendered hrendered

/-- A text on the stack was there before with the same mentions to come, is new, or has just come
past one mention. -/
theorem Step.writing (h : Step tree c d) {w : Work} {m : Module} {rest : List Mention}
    (hcall : Call.writing w m rest ∈ d.calls) :
    Call.writing w m rest ∈ c.calls ∨ rest = w.mentions ∨
      (∃ text, Call.writing w m (.unsupported text :: rest) ∈ c.calls) ∨
      ∃ q stack, c.calls = .writing w m (.named q :: rest) :: stack ∧
        (c.state.types.wanted q.name = false ∨ Call.locating q m ∈ d.calls) := by
  cases h with
  | filesEnd | bindingsEnd | written | missing => exact .inl (List.mem_cons_of_mem _ hcall)
  | file | otherBinding | noEntry => exact .inl (by simpa using hcall)
  | handler =>
      cases List.mem_cons.1 hcall with
      | inl heq =>
          cases heq
          exact .inr (.inl rfl)
      | inr hcall => exact .inl (by simpa using hcall)
  | found =>
      cases List.mem_cons.1 hcall with
      | inl heq =>
          cases heq
          exact .inr (.inl rfl)
      | inr hcall => exact .inl (List.mem_cons_of_mem _ hcall)
  | unsupported =>
      cases List.mem_cons.1 hcall with
      | inl heq =>
          cases heq
          exact .inr (.inr (.inl ⟨_, List.mem_cons_self⟩))
      | inr hcall => exact .inl (List.mem_cons_of_mem _ hcall)
  | known hknown =>
      cases List.mem_cons.1 hcall with
      | inl heq =>
          cases heq
          exact .inr (.inr (.inr ⟨_, _, rfl, .inl hknown⟩))
      | inr hcall => exact .inl (List.mem_cons_of_mem _ hcall)
  | wanted =>
      cases List.mem_cons.1 ((List.mem_cons.1 hcall).resolve_left nofun) with
      | inl heq =>
          cases heq
          exact .inr (.inr (.inr ⟨_, _, rfl, .inr List.mem_cons_self⟩))
      | inr hcall => exact .inl (List.mem_cons_of_mem _ hcall)

theorem Step.met (h : Step tree c d) (hc : c.Coherent tree) : d.Met tree := by
  have hold : ∀ {q m}, Followed tree c q m → Followed tree d q m :=
    h.followed hc.stacked hc.loaded
  constructor
  · intro w m hmem q hq
    obtain ⟨hwritten, -⟩ | ⟨w', m', stack, hcalls, rfl⟩ := h.writes
    · exact hold (hc.met.written w m (hwritten ▸ hmem) q hq)
    · cases List.mem_append.1 hmem with
      | inl hmem => exact hold (hc.met.written w m hmem q hq)
      | inr hmem =>
          cases List.mem_singleton.1 hmem
          cases hc.met.writing w m [] (hcalls ▸ List.mem_cons_self) q hq with
          | inl hrest => cases hrest
          | inr hfollowed => exact hold hfollowed
  · intro w m rest hcall q hq
    obtain hcall | rfl | ⟨text, hcall⟩ | ⟨q', stack, hcalls, hnext⟩ := h.writing hcall
    · exact (hc.met.writing w m rest hcall q hq).imp_right hold
    · exact .inl hq
    · cases hc.met.writing w m _ hcall q hq with
      | inl hrest => exact .inl ((List.mem_cons.1 hrest).resolve_left nofun)
      | inr hfollowed => exact .inr (hold hfollowed)
    · cases hc.met.writing w m _ (hcalls ▸ List.mem_cons_self) q hq with
      | inl hrest =>
          cases List.mem_cons.1 hrest with
          | inl heq =>
              cases heq
              cases hnext with
              | inl hknown => exact .inr (hold (hc.known hcalls hknown))
              | inr hcall => exact .inr (.searched hcall)
          | inr hrest => exact .inl hrest
      | inr hfollowed => exact .inr (hold hfollowed)

theorem Step.loads (h : Step tree c d) (hc : Loaded tree c.state) : Loaded tree d.state := by
  cases h with
  | file h => exact (openModule_loads h).1.loaded hc
  | found h hd => exact (search_loads h).1.loaded hc
  | missing h =>
      intro m hm
      rw [missed_modules] at hm
      exact (search_loads h).1.loaded hc m hm
  | written => exact fun m hm => hc m (finish_modules .. ▸ hm)
  | filesEnd | bindingsEnd | otherBinding | noEntry | handler | unsupported | known | wanted =>
      exact hc

theorem Step.coherent (h : Step tree c d) (hc : c.Coherent tree) : d.Coherent tree where
  loaded := h.loads hc.loaded
  valid := h.valid hc.valid
  keyed := h.names.keyed hc.keyed
  stacked := h.names.stacked hc.stacked
  pending := h.names.pending hc.stacked hc.pending
  recorded := h.recorded hc.stacked hc.recorded
  sourced := h.sourced hc.valid hc.sourced
  met := h.met hc

def filesStart (paths : List String) : Moment := ⟨[.files paths], {}, []⟩

theorem filesStart_coherent (tree : FileTree) (paths : List String) :
    (filesStart paths).Coherent tree where
  loaded := loaded_empty
  valid := ⟨by simp [filesStart, Call.Valid], by simp [filesStart]⟩
  keyed := List.nodup_nil
  stacked := ⟨List.nodup_nil, fun n hn => absurd hn List.not_mem_nil⟩
  pending n hn := by cases hn
  recorded := ⟨rfl, fun _ _ => nofun, fun _ _ _ => nofun⟩
  sourced w m hm := by simp [Moment.works, filesStart, Call.work?] at hm
  met := ⟨fun _ _ => nofun, by simp [filesStart]⟩

theorem Reaches.coherent (h : Reaches tree c d) (hc : c.Coherent tree) : d.Coherent tree := by
  induction h with
  | refl => exact hc
  | tail _ hstep ih => exact hstep.coherent ih

end HandlerWeave.Analysis
