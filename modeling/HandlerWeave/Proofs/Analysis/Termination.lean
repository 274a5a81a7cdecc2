import HandlerWeave.Proofs.Analysis.Sessions
import HandlerWeave.Proofs.Types.Visits

/-!
The writing of a type ends, however the types and the modules of a project lead back to one another.
The bounds that definitions and searches are run with never decide how.
-/
namespace HandlerWeave.Analysis

open Source HandlerWeave.Types

variable {tree : FileTree} {a b : Analysis} {c d e : Moment} {before after : List Call}
  {outcome outcome' : Except ModuleError Unit}

/-- Only finitely many steps are possible from a moment that leads to an end. -/
theorem Reaches.acc (h : Reaches tree c e) (hend : Ends tree e outcome b) :
    Acc (fun d c => Step tree c d) c := by
  induction h using Relation.ReflTransGen.head_induction_on with
  | refl => exact .intro _ fun d hd => absurd hd hend.no_step
  | head hstep _ ih => exact .intro _ fun d hd => hstep.deterministic hd ▸ ih

theorem Ends.unique {b' : Analysis} (h : Ends tree e outcome b) (h' : Ends tree e outcome' b') :
    outcome = outcome' ∧ b = b' := by
  cases h <;> cases h' <;> grind

/-- A run comes to one end. -/
theorem Reaches.ends_unique {e' : Moment} {b' : Analysis} (h : Reaches tree c e)
    (hend : Ends tree e outcome b) (h' : Reaches tree c e') (hend' : Ends tree e' outcome' b') :
    outcome = outcome' ∧ b = b' := by
  obtain rfl | ⟨d, hstep, -⟩ := Relation.ReflTransGen.cases_head (Reaches.before_end h hend h')
  · exact hend.unique hend'
  · exact absurd hstep hend'.no_step

/-- What runs as the machine does until no call is left comes to one result. -/
theorem Follows.unique {result result' : Except ModuleError Unit × Analysis}
    (h : Follows tree before [] a result) (h' : Follows tree before [] a result') :
    result = result' := by
  obtain ⟨e, hreach, hend⟩ := h.ends
  obtain ⟨e', hreach', hend'⟩ := h'.ends
  obtain ⟨houtcome, hstate⟩ := hreach.ends_unique hend hreach' hend'
  exact Prod.ext houtcome hstate

/-- Above the bound that it is run with, a definition does not depend on its bound. -/
theorem defineType_eq_define {bound depth : Nat} {name : QualifiedName} {m : Module}
    (hbound : chainBound m tree a = (.ok bound, a)) (hdepth : bound ≤ depth) :
    defineType depth name m tree a = define name m tree a := by
  obtain ⟨_, hbound', hlt⟩ := declaredNames_length_lt tree a m
  obtain rfl := Except.ok.inj (congrArg Prod.fst (hbound.symm.trans hbound'))
  have hidle : (idle (declaredNames tree a m) a.types).length < depth :=
    Nat.lt_of_le_of_lt (List.length_filter_le ..) (Nat.lt_of_lt_of_le hlt hdepth)
  -- Both are how the machine writes a text that mentions nothing but the name.
  let text : Work := .type [] (.reference name [])
  have hwritten : ∀ define : AnalysisM Unit,
      Follows tree [.writing text m [.named name]] [.writing text m []] a (define tree a) →
      Follows tree [.writing text m [.named name]] [] a (define tree a) := by
    intro define hdefine
    rw [← bind_pure define]
    exact .bind hdefine fun _ _ => .step (fun _ => ⟨_, .written⟩) .refl
  exact (hwritten _ (defineType_follows (universe_declaredNames tree a m)
    (names_subset_declaredNames tree a m) hidle)).unique (hwritten _ define_follows)

/-- The writing of a type ends, from any state of the table and of the modules known, and with it
every definition and search on the way. The steps of the machine, in which no bound on definitions
occurs, are finitely many, come to the same end, and at no moment define a name while it is being
defined. The bound on definitions changes nothing, and a search enters no module twice. -/
theorem textAndNames_terminates (tree : FileTree) (a : Analysis) (m : Module)
    (scope : List String) (node : TypeNode) :
    let start := (Request.type m scope node).start a
    let result := textAndNames m scope node tree a
    Acc (fun d c => Step tree c d) start ∧
    (∃ e, Reaches tree start e ∧ Ends tree e (result.1.map fun _ => ()) result.2) ∧
    ∀ c, Reaches tree start c → c.defining.Nodup ∧
      ∀ (name : QualifiedName) (n : Module),
        (∃ bound, ∀ depth, bound ≤ depth →
          defineType depth name n tree c.state = define name n tree c.state) ∧
        ∃ entered, entered.Nodup ∧ Visits tree name.name [] name.qualifier n c.state entered
          (search name n tree c.state) := by
  intro start result
  obtain ⟨e, hreach, hend⟩ := (Request.type m scope node).run_ends tree a
  refine ⟨hreach.acc hend, ⟨e, hreach, ?ends⟩, ?moments⟩
  case ends =>
    have hrun : (Request.type m scope node).run tree a =
        (result.1.map fun _ => (), result.2) := by
      change (textAndNames m scope node >>= fun _ => pure ()) tree a = _
      rw [AnalysisM.bind_run]
      simp only [result]
      cases textAndNames m scope node tree a with
      | mk outcome b => cases outcome <;> rfl
    rwa [hrun] at hend
  case moments =>
    intro c hc
    refine ⟨(Reaches.stacked hc (Request.start_stacked _ a)).nodup, fun name n => ⟨?_, ?_⟩⟩
    · exact ⟨_, fun depth hdepth => defineType_eq_define (chainBound_run tree c.state n) hdepth⟩
    · exact search_visits tree name n c.state

end HandlerWeave.Analysis
