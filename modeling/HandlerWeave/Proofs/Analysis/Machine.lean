import HandlerWeave.Handler.Find
import Mathlib.Logic.Relation

/-!
A run of an analysis, one step at a time. The calls that have not returned yet stand on a stack,
the innermost one first, so that a state in the middle of a run can be spoken of together with what
is still to be done there.
-/
namespace HandlerWeave.Analysis

open Source

/-- A text in the making. -/
inductive Work
  | signature (c : ClassDef) (method : Method) (exported : String)
  | declaration (name : String) (d : Declaration)
  | type (scope : List String) (node : TypeNode)

namespace Work

def mentions : Work → List Mention
  | signature c method _ => Handler.mentionsOf c method
  | declaration _ d => d.mentions
  | type scope node => node.mentions scope

/-- What is kept of a text written in `m`: a handler, an entry of the table, or nothing. -/
def finish (m : Module) : Work → Analysis → Analysis
  | signature c method exported, a =>
    { a with handlers := a.handlers ++ [Handler.describe m c method exported] }
  | declaration name d, a =>
    { a with types := a.types.settle name d.text (Mention.references d.mentions) m.path }
  | type _ _, a => a

def defined? : Work → Option String
  | declaration name _ => some name
  | signature _ _ _ | type _ _ => none

/-- The module holds what the text is made from. -/
def IsOf (m : Module) : Work → Prop
  | signature c method _ => m.class? c.name = some c ∧ c.method? Handler.entryName = some method
  | declaration name d => m.declaration? name = some d
  | type _ _ => True

end Work

inductive Call
  | files (paths : List String)
  | bindings (m : Module) (rest : List Binding)
  /-- A definition whose declaration is being looked for. -/
  | locating (name : QualifiedName) (m : Module)
  /-- A text that is being written. The mentions in `rest` have not been met yet. -/
  | writing (work : Work) (m : Module) (rest : List Mention)

namespace Call

def defined? : Call → Option String
  | locating name _ => some name.name
  | writing work _ _ => work.defined?
  | files _ | bindings _ _ => none

def work? : Call → Option (Work × Module)
  | writing work m _ => some (work, m)
  | _ => none

end Call

/-- A moment of a run. `written` are the texts finished since the run began. -/
structure Moment where
  calls : List Call
  state : Analysis
  written : List (Work × Module) := []

namespace Moment

/-- The names whose definition is on the stack. -/
def defining (c : Moment) : List String := c.calls.filterMap Call.defined?

def works (c : Moment) : List (Work × Module) := c.written ++ c.calls.filterMap Call.work?

end Moment

def told (a : Analysis) (diagnostics : List Diagnostic) : Analysis :=
  { a with diagnostics := a.diagnostics ++ diagnostics }

def started (a : Analysis) (name : String) : Analysis :=
  { a with types := a.types.start name }

/-- The state after `name`, mentioned in `m`, was looked for in vain. -/
def missed (a : Analysis) (name : String) (m : Module) (why : Types.Missing) : Analysis :=
  let left := { a with types := a.types.leaveOut name }
  if a.types.neverFailed name && !Types.ambientNames.contains name then
    left.told [.unresolvedType m.path name why.reason]
  else left

@[simp] theorem told_types (a : Analysis) (ds : List Diagnostic) : (a.told ds).types = a.types :=
  rfl

@[simp] theorem told_modules (a : Analysis) (ds : List Diagnostic) :
    (a.told ds).modules = a.modules := rfl

@[simp] theorem told_handlers (a : Analysis) (ds : List Diagnostic) :
    (a.told ds).handlers = a.handlers := rfl

@[simp] theorem started_modules (a : Analysis) (name : String) :
    (a.started name).modules = a.modules := rfl

@[simp] theorem started_types (a : Analysis) (name : String) :
    (a.started name).types = a.types.start name := rfl

@[simp] theorem started_handlers (a : Analysis) (name : String) :
    (a.started name).handlers = a.handlers := rfl

@[simp] theorem finish_modules (work : Work) (m : Module) (a : Analysis) :
    (work.finish m a).modules = a.modules := by
  cases work <;> rfl

@[simp] theorem missed_modules (a : Analysis) (name : String) (m : Module) (why : Types.Missing) :
    (a.missed name m why).modules = a.modules := by
  unfold missed
  split <;> rfl

@[simp] theorem missed_types (a : Analysis) (name : String) (m : Module) (why : Types.Missing) :
    (a.missed name m why).types = a.types.leaveOut name := by
  unfold missed
  split <;> rfl

@[simp] theorem missed_handlers (a : Analysis) (name : String) (m : Module)
    (why : Types.Missing) : (a.missed name m why).handlers = a.handlers := by
  unfold missed
  split <;> rfl

inductive Step (tree : FileTree) : Moment → Moment → Prop
  | filesEnd {stack a done} : Step tree ⟨.files [] :: stack, a, done⟩ ⟨stack, a, done⟩
  | file {path paths stack a b done m} (h : openModule path tree a = (.ok m, b)) :
      Step tree ⟨.files (path :: paths) :: stack, a, done⟩
        ⟨.bindings m m.bindings :: .files paths :: stack, b, done⟩
  | bindingsEnd {m stack a done} : Step tree ⟨.bindings m [] :: stack, a, done⟩ ⟨stack, a, done⟩
  | otherBinding {m b rest stack a done} (h : Handler.class? m b = none) :
      Step tree ⟨.bindings m (b :: rest) :: stack, a, done⟩ ⟨.bindings m rest :: stack, a, done⟩
  | noEntry {m b rest stack a done c} (h : Handler.class? m b = some c)
      (hmethod : c.method? Handler.entryName = none) :
      Step tree ⟨.bindings m (b :: rest) :: stack, a, done⟩
        ⟨.bindings m rest :: stack,
          (a.told ((Handler.metadataOf m c).2 ++
            Handler.triggerDiagnostics m c (Handler.metadataOf m c).1)).told
              [.missingEntryPoint m.path c.name], done⟩
  | handler {m b rest stack a done c method} (h : Handler.class? m b = some c)
      (hmethod : c.method? Handler.entryName = some method) :
      Step tree ⟨.bindings m (b :: rest) :: stack, a, done⟩
        ⟨.writing (.signature c method b.name) m (Handler.mentionsOf c method) ::
            .bindings m rest :: stack,
          a.told ((Handler.metadataOf m c).2 ++
            Handler.triggerDiagnostics m c (Handler.metadataOf m c).1), done⟩
  | written {work m stack a done} :
      Step tree ⟨.writing work m [] :: stack, a, done⟩
        ⟨stack, work.finish m a, done ++ [(work, m)]⟩
  | unsupported {work m text rest stack a done} :
      Step tree ⟨.writing work m (.unsupported text :: rest) :: stack, a, done⟩
        ⟨.writing work m rest :: stack, a.told [.unsupportedType m.path text], done⟩
  | known {work m name rest stack a done} (h : a.types.wanted name.name = false) :
      Step tree ⟨.writing work m (.named name :: rest) :: stack, a, done⟩
        ⟨.writing work m rest :: stack, a, done⟩
  | wanted {work m name rest stack a done} (h : a.types.wanted name.name = true) :
      Step tree ⟨.writing work m (.named name :: rest) :: stack, a, done⟩
        ⟨.locating name m :: .writing work m rest :: stack, a.started name.name, done⟩
  | found {name m stack a b done origin d}
      (h : Types.search name m tree a = (.ok (.found origin), b))
      (hd : origin.declaration? name.name = some d) :
      Step tree ⟨.locating name m :: stack, a, done⟩
        ⟨.writing (.declaration name.name d) origin d.mentions :: stack, b, done⟩
  | missing {name m stack a b done why}
      (h : Types.search name m tree a = (.ok (.missing why), b)) :
      Step tree ⟨.locating name m :: stack, a, done⟩ ⟨stack, b.missed name.name m why, done⟩

/-- How a run ends: with no call left, or where a module cannot be opened. -/
inductive Ends (tree : FileTree) : Moment → Except ModuleError Unit → Analysis → Prop
  | returned {a done} : Ends tree ⟨[], a, done⟩ (.ok ()) a
  | notOpened {path paths stack a b done e} (h : openModule path tree a = (.error e, b)) :
      Ends tree ⟨.files (path :: paths) :: stack, a, done⟩ (.error e) b
  | notSearched {name m stack a b done e} (h : Types.search name m tree a = (.error e, b)) :
      Ends tree ⟨.locating name m :: stack, a, done⟩ (.error e) b

abbrev Reaches (tree : FileTree) : Moment → Moment → Prop := Relation.ReflTransGen (Step tree)

variable {tree : FileTree} {c d e : Moment}

/-- A call stays on the stack unless it is the innermost one. -/
theorem Step.kept (h : Step tree c d) {call : Call} (hcall : call ∈ c.calls) :
    call ∈ d.calls ∨ ∃ stack, c.calls = call :: stack := by
  cases h <;> cases List.mem_cons.1 hcall with
    | inl heq =>
        subst heq
        exact .inr ⟨_, rfl⟩
    | inr hstack => exact .inl (by simp [hstack])

theorem Step.deterministic (hd : Step tree c d) (he : Step tree c e) : d = e := by
  cases hd <;> cases he <;> grind

theorem Ends.no_step {outcome : Except ModuleError Unit} {b : Analysis}
    (h : Ends tree c outcome b) : ¬ Step tree c d := by
  intro hd
  cases h <;> cases hd <;> grind

/-- Whatever a run passes through lies before its end. -/
theorem Reaches.before_end {outcome : Except ModuleError Unit} {b : Analysis}
    (he : Reaches tree c e) (hend : Ends tree e outcome b) (hd : Reaches tree c d) :
    Reaches tree d e := by
  induction hd with
  | refl => exact he
  | tail _ hstep ih =>
      obtain rfl | ⟨next, hnext, hrest⟩ := Relation.ReflTransGen.cases_head ih
      · exact absurd hstep hend.no_step
      -- The run to the end takes the same next step, of which there is only one.
      · rwa [hstep.deterministic hnext]

end HandlerWeave.Analysis
