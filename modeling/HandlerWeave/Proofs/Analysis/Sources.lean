import HandlerWeave.Proofs.Analysis.Stack
import HandlerWeave.Proofs.Types.Chains

/-!
Where the texts of a run come from. At every moment each text begun, and each entry of the table
that has a text, is made from a declaration or class of a module that is known.
-/
namespace HandlerWeave

open Source

namespace Module

theorem name_of_class? {m : Module} {name : String} {c : ClassDef} (h : m.class? name = some c) :
    c.name = name := by
  simpa using List.find?_some h

end Module

theorem Handler.class?_eq_some {m : Module} {b : Binding} {c : ClassDef}
    (h : Handler.class? m b = some c) : m.class? c.name = some c := by
  simp only [Handler.class?, Option.bind_eq_bind, Option.bind_eq_some_iff] at h
  obtain ⟨_, _, name, _, c', hc, _, _, heq⟩ := h
  cases heq
  rw [Module.name_of_class? hc]
  exact hc

namespace Analysis

open HandlerWeave.Types

variable {tree : FileTree} {given : List Module} {a b : Analysis} {c d : Moment}

/-- A module that was loaded or handed to the analysis. -/
def Known (given : List Module) (a : Analysis) (m : Module) : Prop := m ∈ a.modules ∨ m ∈ given

theorem Known.mono {m : Module} (h : Known given a m) (hab : a.modules ⊆ b.modules) :
    Known given b m := h.imp_left (@hab m)

/-- An entry of the table is what a declaration of `m` is written as. -/
structure Shows (m : Module) (d : Declaration) (D : Definition) : Prop where
  rendered : D.status = .rendered
  text : D.text = d.text
  references : D.references = Mention.references d.mentions
  origin : D.origin = some m.path

/-- What a call works on is there: modules that are known, and the end of the mentions of a text
made from one. -/
def Call.Valid (given : List Module) (a : Analysis) : Call → Prop
  | files _ => True
  | bindings m _ => Known given a m
  | locating _ m => Known given a m
  | writing work m rest => Known given a m ∧ work.IsOf m ∧ rest <:+ work.mentions

theorem Call.Valid.mono {call : Call} (h : call.Valid given a) (hab : a.modules ⊆ b.modules) :
    call.Valid given b := by
  cases call with
  | files paths => trivial
  | bindings m rest | locating name m => exact Known.mono h hab
  | writing work m rest => exact ⟨h.1.mono hab, h.2⟩

theorem Step.modules (h : Step tree c d) : c.state.modules ⊆ d.state.modules := by
  cases h with
  | file h => exact (openModule_loads h).1.subset
  | found h hd => exact (search_loads h).1.subset
  | missing h => simpa using (search_loads h).1.subset
  | written => simp
  | filesEnd | bindingsEnd | otherBinding | noEntry | handler | unsupported | known | wanted =>
      exact List.Subset.refl _

/-- A step replaces the innermost call by valid ones, of which only the innermost may be looking for
a name. -/
theorem Step.calls (h : Step tree c d) (hc : ∀ call ∈ c.calls, call.Valid given c.state) :
    ∃ old new stack, c.calls = old :: stack ∧ d.calls = new ++ stack ∧
      (∀ call ∈ new, call.Valid given d.state) ∧ ∀ name m, Call.locating name m ∉ new.tail := by
  have hmodules := h.modules
  cases h with
  | @filesEnd stack | @bindingsEnd _ stack | @written _ _ stack | @missing _ _ stack =>
      exact ⟨_, [], stack, rfl, rfl, by simp, by simp⟩
  | @file path paths stack a b done m hopen =>
      refine ⟨_, [.bindings m m.bindings, .files paths], stack, rfl, rfl, ?_, by simp⟩
      simp only [List.forall_mem_cons, List.not_mem_nil, false_implies, implies_true, and_true]
      exact ⟨.inl ((openModule_loads hopen).2 m rfl), trivial⟩
  | @otherBinding m b rest stack | @noEntry m b rest stack =>
      have hm : Known given _ m := hc _ List.mem_cons_self
      exact ⟨_, [.bindings m rest], stack, rfl, rfl,
        List.forall_mem_singleton.2 (hm.mono hmodules), by simp⟩
  | @handler m b rest stack a done cls method hclass hmethod =>
      have hm : Known given a m := hc _ List.mem_cons_self
      refine ⟨_, [.writing (.signature cls method b.name) m (Handler.mentionsOf cls method),
        .bindings m rest], stack, rfl, rfl, ?_, by simp⟩
      simp only [List.forall_mem_cons, List.not_mem_nil, false_implies, implies_true, and_true]
      exact ⟨⟨hm, ⟨Handler.class?_eq_some hclass, hmethod⟩, List.suffix_rfl⟩, hm⟩
  | @unsupported work m _ rest stack | @known work m _ rest stack =>
      obtain ⟨hm, hof, hrest⟩ := hc _ List.mem_cons_self
      exact ⟨_, [.writing work m rest], stack, rfl, rfl,
        List.forall_mem_singleton.2 ⟨hm, hof, (List.suffix_cons _ _).trans hrest⟩, by simp⟩
  | @wanted work m name rest stack =>
      obtain ⟨hm, hof, hrest⟩ := hc _ List.mem_cons_self
      refine ⟨_, [.locating name m, .writing work m rest], stack, rfl, rfl, ?_, by simp⟩
      simp only [List.forall_mem_cons, List.not_mem_nil, false_implies, implies_true, and_true]
      exact ⟨hm, hm, hof, (List.suffix_cons _ _).trans hrest⟩
  | @found name m stack a b done origin decl hsearch hd =>
      have hm : Known given a m := hc _ List.mem_cons_self
      refine ⟨_, [.writing (.declaration name.name decl) origin decl.mentions], stack, rfl, rfl,
        List.forall_mem_singleton.2 ⟨?_, hd, List.suffix_rfl⟩, by simp⟩
      obtain rfl | horigin := ((search_loads hsearch).2 origin rfl).1
      · exact hm.mono hmodules
      · exact .inl horigin

/-- Every call on the stack is valid, and only the innermost one may be looking for a name. -/
structure Moment.Valid (given : List Module) (c : Moment) : Prop where
  calls : ∀ call ∈ c.calls, call.Valid given c.state
  searching : ∀ name m, Call.locating name m ∉ c.calls.tail

theorem Step.valid (h : Step tree c d) (hc : c.Valid given) : d.Valid given := by
  obtain ⟨old, new, stack, hcalls, hcalls', hnew, hsearching⟩ := h.calls hc.calls
  constructor
  · intro call hcall
    rw [hcalls', List.mem_append] at hcall
    cases hcall with
    | inl hcall => exact hnew call hcall
    | inr hcall => exact (hc.calls call (hcalls ▸ List.mem_cons_of_mem _ hcall)).mono h.modules
  · intro name m hmem
    have hstack : Call.locating name m ∉ stack := by simpa [hcalls] using hc.searching name m
    rw [hcalls'] at hmem
    cases new with
    | nil => exact hstack (List.mem_of_mem_tail hmem)
    | cons x new =>
        cases List.mem_append.1 hmem with
        | inl hmem => exact hsearching name m hmem
        | inr hmem => exact hstack hmem

/-- An entry with a text was there before a step, or shows the declaration that the step has
written. -/
theorem Step.shown (h : Step tree c d) {n : String} {D : Definition}
    (hD : d.state.types.get? n = some D) (hstatus : D.status = .rendered) :
    c.state.types.get? n = some D ∨ ∃ decl m, Call.writing (.declaration n decl) m [] ∈ c.calls ∧
      (Work.declaration n decl, m) ∈ d.written ∧ Shows m decl D := by
  cases h with
  | filesEnd | bindingsEnd | otherBinding | noEntry | handler | unsupported | known => exact .inl hD
  | file h => exact .inl ((openModule_loads h).1.types ▸ hD)
  | found h hd => exact .inl ((search_loads h).1.types ▸ hD)
  | wanted h =>
      rw [started_types, Table.get?_start h] at hD
      split at hD
      · cases hD
        cases hstatus
      · exact .inl hD
  | missing h =>
      rw [missed_types, Table.get?_leaveOut, (search_loads h).1.types] at hD
      split at hD
      · obtain ⟨D', -, rfl⟩ := Option.map_eq_some_iff.1 hD
        cases hstatus
      · exact .inl hD
  | @written work m stack a done =>
      cases work with
      | signature | type => exact .inl hD
      | declaration name decl =>
          change (a.types.settle _ _ _ _).get? n = some D at hD
          rw [Table.get?_settle] at hD
          split at hD
          next heq =>
            subst heq
            obtain ⟨D', -, rfl⟩ := Option.map_eq_some_iff.1 hD
            exact .inr ⟨decl, m, List.mem_cons_self, by simp, rfl, rfl, rfl, rfl⟩
          · exact .inl hD

/-- Every entry with a text shows a declaration of a module that is known. -/
def Genuine (given : List Module) (a : Analysis) : Prop :=
  ∀ n D, a.types.get? n = some D → D.status = .rendered →
    ∃ m d, Known given a m ∧ m.declaration? n = some d ∧ Shows m d D

theorem Genuine.mono (h : Genuine given a) (hmodules : a.modules ⊆ b.modules)
    (htypes : b.types = a.types) : Genuine given b := by
  intro n D hD hstatus
  obtain ⟨m, d, hm, hshows⟩ := h n D (htypes ▸ hD) hstatus
  exact ⟨m, d, hm.mono hmodules, hshows⟩

theorem Step.genuine (h : Step tree c d) (hc : c.Valid given) (ha : Genuine given c.state) :
    Genuine given d.state := by
  intro n D hD hstatus
  obtain hD | ⟨decl, m, hcall, -, hshows⟩ := h.shown hD hstatus
  · obtain ⟨m, decl, hm, hshows⟩ := ha n D hD hstatus
    exact ⟨m, decl, hm.mono h.modules, hshows⟩
  · obtain ⟨hm, hof, -⟩ := hc.calls _ hcall
    exact ⟨m, decl, hm.mono h.modules, hof, hshows⟩

theorem Reaches.stacked (h : Reaches tree c d) (hc : Stacked c.defining c.state.types) :
    Stacked d.defining d.state.types := by
  induction h with
  | refl => exact hc
  | tail _ hstep ih => exact hstep.names.stacked ih

theorem Reaches.valid (h : Reaches tree c d) (hc : c.Valid given) : d.Valid given := by
  induction h with
  | refl => exact hc
  | tail _ hstep ih => exact hstep.valid ih

theorem Reaches.genuine (h : Reaches tree c d) (hc : c.Valid given)
    (ha : Genuine given c.state) : Genuine given d.state := by
  induction h with
  | refl => exact ha
  | tail hreach hstep ih => exact hstep.genuine (Reaches.valid hreach hc) ih

theorem Reaches.rendered (h : Reaches tree c d) (hc : Stacked c.defining c.state.types) {n : String}
    {D : Definition} (hD : c.state.types.get? n = some D) (hstatus : D.status = .rendered) :
    d.state.types.get? n = some D := by
  induction h with
  | refl => exact hD
  | tail hreach hstep ih => exact hstep.names.rendered (Reaches.stacked hreach hc) ih hstatus

end Analysis

end HandlerWeave
