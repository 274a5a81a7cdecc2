import HandlerWeave.Proofs.Analysis.Machine
import HandlerWeave.Proofs.Types.Chains

/-!
Every run of an analysis is a run of the machine: it reaches the same state, or stops at the same
module that cannot be opened. In particular no bound on a chain of declarations ends it early.
-/
namespace HandlerWeave.Analysis

open Source HandlerWeave.Types

variable {tree : FileTree} {a b : Analysis} {before mid after stack : List Call}

/-- With the stack `before` the machine comes to the result of a call: to its state and the stack
`after`, or to its error. -/
def Follows (tree : FileTree) (before after : List Call) (a : Analysis)
    (result : Except ModuleError Unit × Analysis) : Prop :=
  ∀ done, match result with
    | (.ok _, b) => ∃ done', Reaches tree ⟨before, a, done⟩ ⟨after, b, done'⟩
    | (.error e, b) => ∃ c, Reaches tree ⟨before, a, done⟩ c ∧ Ends tree c (.error e) b

namespace Follows

theorem refl : Follows tree before before a (.ok (), a) := fun done => ⟨done, .refl⟩

theorem step {result : Except ModuleError Unit × Analysis}
    (h : ∀ done, ∃ done', Step tree ⟨before, a, done⟩ ⟨mid, b, done'⟩)
    (hrest : Follows tree mid after b result) : Follows tree before after a result := by
  intro done
  obtain ⟨done', hstep⟩ := h done
  have htail := hrest done'
  obtain ⟨outcome, b'⟩ := result
  cases outcome with
  | ok v =>
      obtain ⟨done'', hreach⟩ := htail
      exact ⟨done'', .head hstep hreach⟩
  | error e =>
      obtain ⟨c, hreach, hend⟩ := htail
      exact ⟨c, .head hstep hreach, hend⟩

theorem bind {x : AnalysisM Unit} {f : Unit → AnalysisM Unit}
    (hx : Follows tree before mid a (x tree a))
    (hf : ∀ b, x tree a = (.ok (), b) → Follows tree mid after b (f () tree b)) :
    Follows tree before after a ((x >>= f) tree a) := by
  intro done
  rw [AnalysisM.bind_run]
  have hhead := hx done
  cases hrun : x tree a with
  | mk outcome b =>
      rw [hrun] at hhead
      cases outcome with
      | error e => exact hhead
      | ok v =>
          obtain ⟨done', hreach⟩ := hhead
          have htail := hf b hrun done'
          simp only
          revert htail
          cases f () tree b with
          | mk outcome c =>
              cases outcome with
              | ok v =>
                  rintro ⟨done'', htail⟩
                  exact ⟨done'', hreach.trans htail⟩
              | error e =>
                  rintro ⟨stuck, htail, hend⟩
                  exact ⟨stuck, hreach.trans htail, hend⟩

/-- With no call left, the machine has come to an end with that result. -/
theorem ends {result : Except ModuleError Unit × Analysis} (h : Follows tree before [] a result) :
    ∃ e, Reaches tree ⟨before, a, []⟩ e ∧ Ends tree e result.1 result.2 := by
  obtain ⟨outcome, b⟩ := result
  cases outcome with
  | error e => exact h []
  | ok v =>
      obtain ⟨done, hreach⟩ := h []
      exact ⟨_, hreach, .returned⟩

end Follows

/-- The machine goes over the mentions of a text as `visit` does where it defines a name as `define`
does. -/
theorem visit_follows {define : QualifiedName → Module → AnalysisM Unit} {m : Module} {work : Work}
    (Good : Analysis → Prop)
    (hdefine : ∀ {name a rest}, Good a →
      Follows tree (.writing work m (.named name :: rest) :: stack)
        (.writing work m rest :: stack) a (define name m tree a))
    (hgood : ∀ {name a b}, Good a → define name m tree a = (.ok (), b) → Good b)
    (htold : ∀ {a diagnostics}, Good a → Good (a.told diagnostics))
    (mentions : List Mention) (h : Good a) :
    Follows tree (.writing work m mentions :: stack) (.writing work m [] :: stack) a
      (visit define m mentions tree a) := by
  induction mentions generalizing a with
  | nil => exact .refl
  | cons x mentions ih =>
      cases x with
      | named name => exact .bind (hdefine h) fun b hb => ih (hgood h hb)
      | unsupported text =>
          exact .bind (.step (fun done => ⟨done, .unsupported⟩) .refl) fun b hb => by
            cases hb
            exact ih (htold h)

theorem defineType_run (depth : Nat) (name : QualifiedName) (m : Module) :
    defineType (depth + 1) name m tree a =
      if a.types.wanted name.name then
        match search name m tree (a.started name.name) with
        | (.error e, b) => (.error e, b)
        | (.ok (.missing why), b) => (.ok (), b.missed name.name m why)
        | (.ok (.found origin), b) =>
          match origin.declaration? name.name with
          | none => (.ok (), b)
          | some d =>
            (visit (defineType depth) origin d.mentions >>= fun _ =>
              changeTypes (·.settle name.name d.text (Mention.references d.mentions) origin.path))
              tree b
      else (.ok (), a) := by
  rw [defineType]
  simp only [AnalysisM.bind_run, AnalysisM.get_run]
  cases hwanted : a.types.wanted name.name with
  | false => rfl
  | true =>
      simp only [AnalysisM.bind_run, AnalysisM.changeTypes_run, Bool.not_true, Bool.false_eq_true,
        if_false, if_true, started]
      cases search name m tree { a with types := a.types.start name.name } with
      | mk outcome b =>
          cases outcome with
          | error e => rfl
          | ok result =>
              cases result with
              | found origin =>
                  cases hd : origin.declaration? name.name with
                  | none => simp only [hd, AnalysisM.pure_run]
                  | some d =>
                      simp only [hd, Rendering.declaration_run, AnalysisM.bind_run]
                      cases visit (defineType depth) origin d.mentions tree b with
                      | mk outcome c => cases outcome <;> rfl
              | missing why =>
                  simp only [AnalysisM.bind_run, AnalysisM.get_run, AnalysisM.changeTypes_run,
                    missed]
                  split <;> rfl

/-- What a definition may do to the modules known, and to names whose definition is under way. -/
structure Extends (tree : FileTree) (a b : Analysis) : Prop where
  modules : ∀ m ∈ b.modules, m ∈ a.modules ∨ m.FromTree tree
  pending : ∀ n, a.types.status? n = some .pending → b.types.status? n = some .pending

namespace Extends

theorem refl : Extends tree a a := ⟨fun _ => .inl, fun _ => id⟩

theorem trans {c : Analysis} (hab : Extends tree a b) (hbc : Extends tree b c) :
    Extends tree a c where
  modules m hm := (hbc.modules m hm).elim (hab.modules m) .inr
  pending n hn := hbc.pending n (hab.pending n hn)

theorem of_loads (h : Loads tree a b) : Extends tree a b where
  modules _ hm := h.mem hm
  pending n hn := by rwa [h.types]

theorem of_started {name : String} (h : a.types.wanted name = true) :
    Extends tree a (a.started name) where
  modules _ := .inl
  pending n hn := by
    simp only [started, Table.status?_start h]
    split
    · rfl
    · exact hn

theorem of_told {diagnostics : List Diagnostic} : Extends tree a (a.told diagnostics) :=
  ⟨fun _ => .inl, fun _ => id⟩

/-- A change to the entry of a name that was wanted at first. -/
theorem of_change {c : Analysis} {name : String} (hwanted : a.types.wanted name = true)
    (h : Extends tree a b) (hmodules : c.modules = b.modules)
    (htypes : ∀ n, n ≠ name → c.types.status? n = b.types.status? n) : Extends tree a c where
  modules m hm := h.modules m (hmodules ▸ hm)
  pending n hn := by
    have hne : n ≠ name := by
      rintro rfl
      rw [Table.wanted_eq_false.2 (.inl hn)] at hwanted
      cases hwanted
    rw [htypes n hne]
    exact h.pending n hn

theorem declared {names : List String} (h : Extends tree a b) (ha : Universe tree names a) :
    Universe tree names b where
  files := ha.files
  loaded m hm := (h.modules m hm).elim (ha.loaded m) (ha.files m)

end Extends

theorem visit_extends {define : QualifiedName → Module → AnalysisM Unit} {m : Module}
    (hdefine : ∀ name a, Extends tree a (define name m tree a).2) (mentions : List Mention)
    (a : Analysis) : Extends tree a (visit define m mentions tree a).2 := by
  induction mentions generalizing a with
  | nil => exact .refl
  | cons x mentions ih =>
      cases x with
      | named name =>
          have hhead := hdefine name a
          rw [visit, AnalysisM.bind_run]
          cases hrun : define name m tree a with
          | mk outcome b =>
              rw [hrun] at hhead
              cases outcome with
              | error e => exact hhead
              | ok v => exact hhead.trans (ih b)
      | unsupported text =>
          rw [visit, AnalysisM.bind_run, AnalysisM.report_run]
          exact Extends.of_told.trans (ih _)

theorem defineType_extends (depth : Nat) (name : QualifiedName) (m : Module) (a : Analysis) :
    Extends tree a (defineType depth name m tree a).2 := by
  induction depth generalizing name m a with
  | zero => exact .refl
  | succ depth ih =>
      rw [defineType_run]
      split
      case isFalse => exact .refl
      case isTrue hwanted =>
        cases hrun : search name m tree (a.started name.name) with
        | mk outcome b =>
            have hload : Extends tree a b :=
              (Extends.of_started hwanted).trans (.of_loads (search_loads hrun).1)
            cases outcome with
            | error e => exact hload
            | ok result =>
                cases result with
                | missing why =>
                    exact .of_change hwanted hload (missed_modules ..) fun n hn => by
                      simp [Table.status?, Table.get?_leaveOut, hn]
                | found origin =>
                    simp only
                    cases origin.declaration? name.name with
                    | none => exact hload
                    | some d =>
                        have hvisit := hload.trans (visit_extends (ih · origin) d.mentions b)
                        simp only [AnalysisM.bind_run]
                        revert hvisit
                        cases visit (defineType depth) origin d.mentions tree b with
                        | mk outcome c =>
                            cases outcome with
                            | error e => exact id
                            | ok v =>
                                intro hvisit
                                exact .of_change hwanted hvisit rfl fun n hn => by
                                  simp [Table.status?, Table.get?_settle, hn]

/-- Where it has to start a name, a definition leaves fewer names that none is under way for. -/
theorem idle_search_lt {names : List String} {name : QualifiedName} {m origin : Module}
    (hwanted : a.types.wanted name.name = true) (hname : name.name ∈ names)
    (h : search name m tree (a.started name.name) = (.ok (.found origin), b)) :
    (idle names b.types).length < (idle names a.types).length := by
  rw [(search_loads h).1.types]
  exact idle_start_lt hname hwanted

/-- A declaration is written as by the machine where the definitions it leads to run as there. -/
theorem declaration_follows {names : List String} {depth : Nat} {name : String} {d : Declaration}
    {origin : Module}
    (hdefine : ∀ {q a rest}, Universe tree names a → (idle names a.types).length < depth →
      Follows tree (.writing (.declaration name d) origin (.named q :: rest) :: stack)
        (.writing (.declaration name d) origin rest :: stack) a (defineType depth q origin tree a))
    (huniverse : Universe tree names a) (hidle : (idle names a.types).length < depth) :
    Follows tree (.writing (.declaration name d) origin d.mentions :: stack) stack a
      ((visit (defineType depth) origin d.mentions >>= fun _ =>
        changeTypes
            (·.settle name d.text (Mention.references d.mentions) origin.path)) tree a) := by
  refine .bind (visit_follows
    (fun c => Universe tree names c ∧ (idle names c.types).length < depth)
    (fun h => hdefine h.1 h.2) ?good ?told d.mentions ⟨huniverse, hidle⟩) ?settle
  case good =>
    rintro q c c' ⟨hc, hidle⟩ hrun
    have hext : Extends tree c (defineType depth q origin tree c).2 :=
      defineType_extends depth q origin c
    rw [hrun] at hext
    exact ⟨hext.declared hc, Nat.lt_of_le_of_lt (idle_le hext.pending) hidle⟩
  case told =>
    rintro c diagnostics ⟨hc, hidle⟩
    exact ⟨Extends.of_told.declared hc, hidle⟩
  case settle => exact fun c _ => .step (fun done => ⟨_, .written⟩) .refl

/-- A definition follows the machine where its bound is above the number of names declared that no
definition is under way for. -/
theorem defineType_follows {names : List String} {depth : Nat} {name : QualifiedName} {m : Module}
    {work : Work} {rest : List Mention} (huniverse : Universe tree names a)
    (hm : m.names ⊆ names) (hdepth : (idle names a.types).length < depth) :
    Follows tree (.writing work m (.named name :: rest) :: stack)
      (.writing work m rest :: stack) a (defineType depth name m tree a) := by
  induction depth generalizing name m work rest stack a with
  | zero => exact absurd hdepth (Nat.not_lt_zero _)
  | succ depth ih =>
      rw [defineType_run]
      split
      case isFalse hwanted =>
        exact .step (fun done => ⟨done, .known (Bool.eq_false_iff.2 hwanted)⟩) .refl
      case isTrue hwanted =>
        refine .step (fun done => ⟨done, .wanted hwanted⟩) ?_
        cases hrun : search name m tree (a.started name.name) with
        | mk outcome b =>
            obtain ⟨hload, hfound⟩ := search_loads hrun
            have hb : Universe tree names b :=
              ((Extends.of_started hwanted).trans (.of_loads hload)).declared huniverse
            cases outcome with
            | error e => exact fun done => ⟨_, .refl, .notSearched hrun⟩
            | ok result =>
                cases result with
                | missing why => exact .step (fun done => ⟨done, .missing hrun⟩) .refl
                | found origin =>
                    obtain ⟨horigin, hdeclared⟩ := hfound origin rfl
                    obtain ⟨d, hd⟩ := Option.isSome_iff_exists.1 hdeclared
                    have hsub : origin.names ⊆ names := by
                      obtain rfl | horigin := horigin
                      · exact hm
                      · exact hb.loaded origin horigin
                    -- The name is declared and pending now, so that one level less is enough.
                    have hidle : (idle names b.types).length < depth :=
                      Nat.lt_of_lt_of_le
                        (idle_search_lt hwanted (hsub (Module.mem_names hd)) hrun)
                        (Nat.le_of_lt_succ hdepth)
                    simp only [hd]
                    exact .step (fun done => ⟨done, .found hrun hd⟩)
                      (declaration_follows (fun hc hidle => ih hc hsub hidle) hb hidle)

theorem define_follows {name : QualifiedName} {m : Module} {work : Work} {rest : List Mention} :
    Follows tree (.writing work m (.named name :: rest) :: stack)
      (.writing work m rest :: stack) a (define name m tree a) := by
  obtain ⟨bound, hbound, hlt⟩ := declaredNames_length_lt tree a m
  rw [define, AnalysisM.bind_run_ok tree a hbound]
  exact defineType_follows (universe_declaredNames tree a m) (names_subset_declaredNames tree a m)
    (Nat.lt_of_le_of_lt (List.length_filter_le ..) hlt)

/-- The mentions of a text that is not itself part of another one. -/
theorem visit_define_follows (work : Work) (m : Module) (mentions : List Mention) :
    Follows tree (.writing work m mentions :: stack) (.writing work m [] :: stack) a
      (visit define m mentions tree a) :=
  visit_follows (fun _ => True) (fun _ => define_follows) (fun _ _ => trivial) (fun _ => trivial)
    mentions trivial

theorem flatMap_zipIdx {α β : Type} (f : α → List β) (xs : List α) :
    (xs.zipIdx.flatMap fun x => f x.1) = xs.flatMap f := by
  have h : xs.zipIdx.map Prod.fst = xs := List.zipIdx_map_fst ..
  rw [← List.flatMap_map, h]

/-- A signature is written as it is without the analysis, and goes over its mentions. -/
theorem signature_run (m : Module) (c : ClassDef) (method : Method) (exported : String) :
    (signature m c method).run [] =
      (visit define m (Handler.mentionsOf c method) >>= fun _ =>
        pure (((Handler.describe m c method exported).parameters,
          (Handler.describe m c method exported).returnType),
          Mention.references (Handler.mentionsOf c method))) := by
  let scope := Handler.scopeOf c method
  have hparams := Rendering.mapM_write define m
    (fun x : Param × Nat => optionalPieces scope x.1.type)
    (fun x text => BoundParam.mk (Handler.bindingOf m c x.2 x.1).1
      (Handler.bindingOf m c x.2 x.1).2 x.1.name text) method.params.zipIdx
  rw [flatMap_zipIdx fun p : Param => Piece.mentions (optionalPieces scope p.type)] at hparams
  rw [Handler.mentionsOf, ← Rendering.pass_bind_run, Rendering.pass_append, signature]
  simp only [Rendering.optional_eq, map_eq_pure_bind, Rendering.write, bind_assoc, pure_bind]
    at hparams ⊢
  rw [hparams]
  simp only [bind_assoc, pure_bind]
  rfl

/-- Reading a class with an entry method goes over what its signature mentions, and describes the
handler as it is described without the analysis. -/
theorem readHandler_run (m : Module) (c : ClassDef) (method : Method) (exported : String)
    (hmethod : c.method? Handler.entryName = some method) :
    readHandler m c exported tree a =
      (visit define m (Handler.mentionsOf c method) >>= fun _ =>
        pure (some (Handler.describe m c method exported))) tree
          (a.told ((Handler.metadataOf m c).2 ++
            Handler.triggerDiagnostics m c (Handler.metadataOf m c).1)) := by
  simp only [readHandler, hmethod, signature_run m c method exported, AnalysisM.bind_run,
    AnalysisM.reportAll_run, told]
  cases visit define m (Handler.mentionsOf c method) tree _ with
  | mk outcome b => cases outcome <;> rfl

theorem addBinding_run {m : Module} {b : Binding} {c : ClassDef} {method : Method}
    (hclass : Handler.class? m b = some c) (hmethod : c.method? Handler.entryName = some method) :
    addBinding m b tree a =
      (visit define m (Handler.mentionsOf c method) >>= fun _ =>
        modify fun a => { a with handlers := a.handlers ++ [Handler.describe m c method b.name] })
          tree (a.told ((Handler.metadataOf m c).2 ++
            Handler.triggerDiagnostics m c (Handler.metadataOf m c).1)) := by
  simp only [addBinding, hclass, AnalysisM.bind_run, readHandler_run m c method b.name hmethod]
  cases visit define m (Handler.mentionsOf c method) tree _ with
  | mk outcome b => cases outcome <;> rfl

theorem addBinding_follows (m : Module) (b : Binding) (rest : List Binding) :
    Follows tree (.bindings m (b :: rest) :: stack) (.bindings m rest :: stack) a
      (addBinding m b tree a) := by
  cases hclass : Handler.class? m b with
  | none =>
      rw [addBinding, hclass]
      exact .step (fun done => ⟨done, .otherBinding hclass⟩) .refl
  | some c =>
      cases hmethod : c.method? Handler.entryName with
      | none =>
          simp only [addBinding, hclass, readHandler, hmethod, AnalysisM.bind_run,
            AnalysisM.reportAll_run]
          exact .step (fun done => ⟨done, .noEntry hclass hmethod⟩) .refl
      | some method =>
          rw [addBinding_run hclass hmethod]
          refine .step (fun done => ⟨done, .handler hclass hmethod⟩) (.bind
            (visit_define_follows (.signature c method b.name) m (Handler.mentionsOf c method)) ?_)
          intro d _
          exact .step (fun done => ⟨_, .written⟩) .refl

theorem addModule_follows (m : Module) :
    Follows tree (.bindings m m.bindings :: stack) stack a (addModule m tree a) := by
  rw [addModule]
  generalize m.bindings = rest
  induction rest generalizing a with
  | nil => exact .step (fun done => ⟨done, .bindingsEnd⟩) .refl
  | cons b rest ih => exact .bind (addBinding_follows m b rest) fun _ _ => ih

theorem addFile_follows (path : String) (paths : List String) :
    Follows tree (.files (path :: paths) :: stack) (.files paths :: stack) a
      (addFile path tree a) := by
  rw [addFile, AnalysisM.bind_run]
  cases hopen : openModule path tree a with
  | mk outcome b =>
      cases outcome with
      | error e => exact fun done => ⟨_, .refl, .notOpened hopen⟩
      | ok m => exact .step (fun done => ⟨done, .file hopen⟩) (addModule_follows m)

/-- Adding files runs as the machine does from those files. -/
theorem addFiles_follows (paths : List String) :
    Follows tree (.files paths :: stack) stack a (addFiles paths tree a) := by
  rw [addFiles]
  induction paths generalizing a with
  | nil => exact .step (fun done => ⟨done, .filesEnd⟩) .refl
  | cons path paths ih => exact .bind (addFile_follows path paths) fun _ _ => ih

/-- A project of one module, whose handler answers with a type declared beside it. -/
def itemTree : FileTree :=
  ⟨[(["a.ts"], .file (
    "interface Item { next?: Item; at: Date } " ++
    "@LambdaFunction({}) class A extends ApiHandler<Item> { handle() {} } " ++
    "export const a = new A().run;").toUTF8)]⟩

end HandlerWeave.Analysis
