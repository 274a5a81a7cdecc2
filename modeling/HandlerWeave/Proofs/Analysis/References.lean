import HandlerWeave.Proofs.Analysis.Followed

/-!
The references that a finished analysis prints: those in the signatures of its handlers and those in
the declarations written. None is left pending, and each that can be found has a text.
-/
namespace HandlerWeave.Analysis

open Source HandlerWeave.Types

variable {tree : FileTree} {a b : Analysis} {c d : Moment} {paths : List String} {m : Module}
  {q : QualifiedName}

/-- The handler is read from that class and entry method of `m`. -/
structure ReadFrom (m : Module) (c : ClassDef) (method : Method) (h : Handler) : Prop where
  class_eq : m.class? h.name = some c
  method_eq : c.method? Handler.entryName = some method
  eq : h = Handler.describe m c method h.exported

/-- A reference written in `m` is printed, in the signature of a handler or in a declaration. -/
inductive Prints (a : Analysis) (m : Module) (q : QualifiedName) : Prop
  | signature {h c method} (hh : h ∈ a.handlers) (hm : m ∈ a.modules)
      (hread : ReadFrom m c method h) (hq : .named q ∈ Handler.mentionsOf c method)
  | declaration {n D d} (hD : a.types.get? n = some D) (hm : m ∈ a.modules)
      (hd : m.declaration? n = some d) (hshows : Shows m d D) (hq : .named q ∈ d.mentions)

/-- Adding files to a new analysis without an error is a run from start to end. -/
theorem addFiles_reaches (h : addFiles paths tree {} = (.ok (), a)) :
    ∃ done, Reaches tree (filesStart paths) ⟨[], a, done⟩ := by
  have hrun : Follows tree [.files paths] [] {} (addFiles paths tree {}) := addFiles_follows paths
  rw [h] at hrun
  exact hrun []

namespace Moment.Coherent

variable {done : List (Work × Module)} (hc : Moment.Coherent tree ⟨[], a, done⟩)

include hc

theorem not_pending (n : String) : a.types.status? n ≠ some .pending := fun hn =>
  List.not_mem_nil (hc.pending n hn)

theorem settled {n : String} (hn : (a.types.get? n).isSome) :
    a.types.status? n = some .rendered ∨ a.types.status? n = some .external := by
  obtain ⟨D, hD⟩ := Option.isSome_iff_exists.1 hn
  have hstatus : a.types.status? n = some D.status := Table.status?_eq_some.2 ⟨D, hD, rfl⟩
  have hpending := hc.not_pending n
  rw [hstatus] at hpending ⊢
  cases hs : D.status with
  | pending => exact absurd (congrArg some hs) hpending
  | rendered => exact .inl rfl
  | external => exact .inr rfl

theorem settled_of_followed (h : Followed tree ⟨[], a, done⟩ q m) :
    a.types.status? q.name = some .rendered ∨ a.types.status? q.name = some .external := by
  cases h with
  | rendered h => exact .inl h
  | begun h | searched h => cases h
  | notFound h => exact hc.settled h

/-- Every handler is read from a class of a module that was loaded. -/
theorem handler_read {h : Handler} (hh : h ∈ a.handlers) :
    ∃ m ∈ a.modules, ∃ c method, ReadFrom m c method h ∧
      (Work.signature c method h.exported, m) ∈ done := by
  rw [hc.recorded.handlers] at hh
  obtain ⟨⟨w, m⟩, hw, hhandler⟩ := List.mem_filterMap.1 hh
  cases w with
  | declaration | type => cases hhandler
  | signature c method exported =>
      cases hhandler
      obtain ⟨hm, ⟨hclass, hmethod⟩, -⟩ := hc.sourced _ m (mem_works.2 (.inl hw))
      exact ⟨m, hm, c, method, ⟨hclass, hmethod, rfl⟩, hw⟩

/-- What is printed was met while a text was written, and nothing else was. -/
theorem prints_iff : Prints a m q ↔ ∃ w, (w, m) ∈ done ∧ .named q ∈ w.mentions := by
  constructor
  · rintro (⟨hh, hm, hread, hq⟩ | ⟨hD, hm, hd, hshows, hq⟩)
    · obtain ⟨m', hm', c', method', hread', hw⟩ := hc.handler_read hh
      -- A path stands for one module, so this is the class that the signature was written from.
      have hpath : m.path = m'.path :=
        (congrArg Handler.sourcePath hread.eq).symm.trans (congrArg Handler.sourcePath hread'.eq)
      cases hc.loaded.eq_of_path hm hm' hpath
      cases hread.class_eq.symm.trans hread'.class_eq
      cases hread.method_eq.symm.trans hread'.method_eq
      exact ⟨_, hw, hq⟩
    · obtain ⟨d', m', hw, hshows'⟩ := hc.recorded.shown _ _ hD hshows.rendered
      obtain ⟨hm', hd', -⟩ := hc.sourced _ m' (mem_works.2 (.inl hw))
      have hpath : m.path = m'.path := Option.some.inj (hshows.origin.symm.trans hshows'.origin)
      cases hc.loaded.eq_of_path hm hm' hpath
      cases hd.symm.trans hd'
      exact ⟨_, hw, hq⟩
  · rintro ⟨w, hw, hq⟩
    obtain ⟨hm, hof, hkept⟩ := hc.sourced w m (mem_works.2 (.inl hw))
    cases w with
    | type => exact hkept.elim
    | signature c method exported =>
        have hh : Handler.describe m c method exported ∈ a.handlers := by
          rw [hc.recorded.handlers]
          exact List.mem_filterMap.2 ⟨_, hw, rfl⟩
        exact .signature hh hm ⟨hof.1, hof.2, rfl⟩ hq
    | declaration n d =>
        obtain ⟨D, hD, hshows⟩ := hc.recorded.entries n d m hw
        exact .declaration hD hm hof hshows hq

theorem followed_of_prints (h : Prints a m q) : Followed tree ⟨[], a, done⟩ q m := by
  obtain ⟨w, hw, hq⟩ := hc.prints_iff.1 h
  exact hc.met.written w m hw q hq

/-- The names that a text lists as its references have been settled. -/
theorem references_settled {w : Work} (hw : (w, m) ∈ done) {n : String}
    (hn : n ∈ Mention.references w.mentions) :
    a.types.status? n = some .rendered ∨ a.types.status? n = some .external := by
  obtain ⟨q, hq, rfl⟩ := Mention.mem_references.1 hn
  exact hc.settled_of_followed (hc.met.written w m hw q hq)

/-- Every declaration with a text is one of a module that was loaded. -/
theorem rendered_shown {D : Definition} (hD : D ∈ a.types.rendered) :
    ∃ m ∈ a.modules, ∃ d, m.declaration? D.name = some d ∧ Shows m d D ∧
      (Work.declaration D.name d, m) ∈ done := by
  obtain ⟨hmem, hstatus⟩ := List.mem_filter.1 hD
  have hget := hc.keyed.get? hmem
  obtain ⟨d, m, hw, hshows⟩ := hc.recorded.shown _ D hget (by simpa using hstatus)
  obtain ⟨hm, hof, -⟩ := hc.sourced _ m (mem_works.2 (.inl hw))
  exact ⟨m, hm, d, hof, hshows, hw⟩

/-- Once all is loaded, a search finds what it would find with nothing loaded. -/
theorem search_eq (q : QualifiedName) (m : Module) : (search q m tree a).1 = sought tree q m := by
  obtain ⟨b, hrun, -⟩ := search_run hc.loaded q m
  rw [hrun]

theorem rendered_of_prints (h : Prints a m q) {origin : Module}
    (hfound : (search q m tree a).1 = .ok (.found origin)) :
    a.types.status? q.name = some .rendered := by
  rw [hc.search_eq] at hfound
  cases hc.followed_of_prints h with
  | rendered h => exact h
  | begun h | searched h => cases h
  | notFound h hsought => exact absurd hfound (hsought origin)

end Moment.Coherent

/-- What a finished analysis has made of the references it prints. -/
structure Settled (tree : FileTree) (a : Analysis) : Prop where
  entries : ∀ D ∈ a.types.entries, D.status ≠ .pending
  handler_references : ∀ f ∈ a.handlers, ∀ n ∈ f.references,
    a.types.status? n = some .rendered ∨ a.types.status? n = some .external
  declaration_references : ∀ D ∈ a.types.rendered, ∀ n ∈ D.references,
    a.types.status? n = some .rendered ∨ a.types.status? n = some .external
  handlers : ∀ f ∈ a.handlers, ∃ m ∈ a.modules, ∃ c method, ReadFrom m c method f
  declarations : ∀ D ∈ a.types.rendered, ∃ m ∈ a.modules, ∃ d,
    m.declaration? D.name = some d ∧ Shows m d D
  printed : ∀ m q origin, Prints a m q → (search q m tree a).1 = .ok (.found origin) →
    a.types.status? q.name = some .rendered

/-- Where files are added to a new analysis without an error, the names pending at any moment are
those whose definition is on the stack, so in the end none is. Every name that a handler or a
declaration with a text refers to is then rendered or external, and every reference printed that
can be found from its module is rendered. -/
theorem addFiles_settles (h : addFiles paths tree {} = (.ok (), a)) :
    (∃ done, Reaches tree (filesStart paths) ⟨[], a, done⟩) ∧
    (∀ c, Reaches tree (filesStart paths) c → ∀ n,
      c.state.types.status? n = some .pending ↔ n ∈ c.defining) ∧
    Settled tree a := by
  obtain ⟨done, hreach⟩ := addFiles_reaches h
  have hc := Reaches.coherent hreach (filesStart_coherent tree paths)
  refine ⟨⟨done, hreach⟩, ?moments, ?settled⟩
  case moments =>
    intro c hreach n
    have hc := Reaches.coherent hreach (filesStart_coherent tree paths)
    exact ⟨hc.pending n, hc.stacked.pending n⟩
  case settled =>
    constructor
    case entries =>
      intro D hD hpending
      exact hc.not_pending D.name (Table.status?_eq_some.2 ⟨D, hc.keyed.get? hD, hpending⟩)
    case handler_references =>
      intro f hf n hn
      obtain ⟨m, -, c, method, hread, hw⟩ := hc.handler_read hf
      exact hc.references_settled hw (by rwa [hread.eq] at hn)
    case declaration_references =>
      intro D hD n hn
      obtain ⟨m, -, d, -, hshows, hw⟩ := hc.rendered_shown hD
      exact hc.references_settled hw (by rwa [hshows.references] at hn)
    case handlers =>
      intro f hf
      obtain ⟨m, hm, c, method, hread, -⟩ := hc.handler_read hf
      exact ⟨m, hm, c, method, hread⟩
    case declarations =>
      intro D hD
      obtain ⟨m, hm, d, hd, hshows, -⟩ := hc.rendered_shown hD
      exact ⟨m, hm, d, hd, hshows⟩
    case printed => exact fun m q origin hprints hfound => hc.rendered_of_prints hprints hfound

theorem eq_ok_of_isOk {result : Except ModuleError Unit × Analysis} (h : result.1.isOk = true) :
    result = (.ok (), result.2) := by
  obtain ⟨outcome, a⟩ := result
  cases outcome with
  | ok v => rfl
  | error e => cases h

theorem addFiles_settles_item :
    let run := addFiles ["/a.ts"] itemTree {}
    run = (.ok (), run.2) ∧ Settled itemTree run.2 ∧
      run.2.types.status? "Item" = some .rendered ∧
      run.2.types.status? "Date" = some .external ∧ run.2.handlers.length = 1 := by
  have hrun : (addFiles ["/a.ts"] itemTree {}).1.isOk = true ∧
      (addFiles ["/a.ts"] itemTree {}).2.types.status? "Item" = some .rendered ∧
      (addFiles ["/a.ts"] itemTree {}).2.types.status? "Date" = some .external ∧
      (addFiles ["/a.ts"] itemTree {}).2.handlers.length = 1 := by
    decide +kernel
  have hok := eq_ok_of_isOk hrun.1
  exact ⟨hok, (addFiles_settles hok).2.2, hrun.2⟩

end HandlerWeave.Analysis
