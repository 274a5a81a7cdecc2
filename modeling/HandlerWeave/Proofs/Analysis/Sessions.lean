import HandlerWeave.Proofs.Analysis.Runs
import HandlerWeave.Proofs.Analysis.Sources

/-!
An analysis that is used again and again: files and modules are added and types are written one
after the other, each time with the files as they are then, and whether or not the last request
failed. What the table holds of a rendered name never changes again.
-/
namespace HandlerWeave.Analysis

open Source HandlerWeave.Types

inductive Request
  | file (path : String)
  | module (m : Module)
  | type (m : Module) (scope : List String) (node : TypeNode)

namespace Request

def run : Request → AnalysisM Unit
  | file path => addFile path
  | module m => addModule m
  | type m scope node => textAndNames m scope node >>= fun _ => pure ()

/-- The modules that come with a request. -/
def given : Request → List Module
  | file _ => []
  | module m | type m _ _ => [m]

def calls : Request → List Call
  | file path => [.files [path]]
  | module m => [.bindings m m.bindings]
  | type m scope node => [.writing (.type scope node) m (node.mentions scope)]

def start (r : Request) (a : Analysis) : Moment := ⟨r.calls, a, []⟩

@[simp] theorem start_state (r : Request) (a : Analysis) : (r.start a).state = a := rfl

end Request

/-- The state to which requests lead from `a`, each of them with the files as they are then. -/
def proceed (a : Analysis) (requests : List (FileTree × Request)) : Analysis :=
  requests.foldl (fun a r => (r.2.run r.1 a).2) a

/-- The modules that came with some requests. -/
def givenIn (requests : List (FileTree × Request)) : List Module :=
  requests.flatMap (·.2.given)

variable {tree : FileTree} {given more : List Module} {a b : Analysis} {c d : Moment}
  {request : Request} {requests : List (FileTree × Request)}

theorem Request.follows (request : Request) (tree : FileTree) (a : Analysis) :
    Follows tree request.calls [] a (request.run tree a) := by
  cases request with
  | file path =>
      rw [run, ← bind_pure (addFile path)]
      exact .bind (addFile_follows path []) fun b _ =>
        .step (fun done => ⟨done, .filesEnd⟩) .refl
  | module m => exact addModule_follows m
  | type m scope node =>
      rw [run, textAndNames, Rendering.type_run, bind_assoc]
      exact .bind (visit_define_follows (.type scope node) m (node.mentions scope))
        fun b _ => .step (fun done => ⟨_, .written⟩) .refl

/-- A request runs as the machine does. -/
theorem Request.run_ends (request : Request) (tree : FileTree) (a : Analysis) :
    ∃ c, Reaches tree (request.start a) c ∧
      Ends tree c (request.run tree a).1 (request.run tree a).2 :=
  (request.follows tree a).ends

theorem Ends.loads {outcome : Except ModuleError Unit} (h : Ends tree c outcome b) :
    Loads tree c.state b := by
  cases h with
  | returned => exact .refl
  | notOpened h => exact (openModule_loads h).1
  | notSearched h => exact (search_loads h).1

theorem Request.start_stacked (request : Request) (a : Analysis) :
    Stacked (request.start a).defining (request.start a).state.types := by
  cases request <;> exact ⟨List.nodup_nil, fun n hn => absurd hn List.not_mem_nil⟩

theorem Request.start_valid (request : Request) (a : Analysis) (hgiven : request.given ⊆ given) :
    (request.start a).Valid given := by
  cases request with
  | file path => exact ⟨by simp [start, calls, Call.Valid], by simp [start, calls]⟩
  | module m =>
      have hm : Known given a m := .inr (hgiven (List.mem_singleton_self m))
      exact ⟨List.forall_mem_singleton.2 hm, by simp [start, calls]⟩
  | type m scope node =>
      have hm : Known given a m := .inr (hgiven (List.mem_singleton_self m))
      exact ⟨List.forall_mem_singleton.2 ⟨hm, trivial, List.suffix_rfl⟩, by simp [start, calls]⟩

theorem Request.run_genuine (request : Request) (tree : FileTree) (hgiven : request.given ⊆ given)
    (ha : Genuine given a) : Genuine given (request.run tree a).2 := by
  obtain ⟨c, hreach, hend⟩ := request.run_ends tree a
  have hc := Reaches.genuine hreach (request.start_valid a hgiven) ha
  exact hc.mono hend.loads.subset hend.loads.types

theorem Request.run_rendered (request : Request) (tree : FileTree) {n : String} {D : Definition}
    (hD : a.types.get? n = some D) (hstatus : D.status = .rendered) :
    (request.run tree a).2.types.get? n = some D := by
  obtain ⟨c, hreach, hend⟩ := request.run_ends tree a
  rw [hend.loads.types]
  exact Reaches.rendered hreach (request.start_stacked a) hD hstatus

theorem proceed_genuine (hgiven : givenIn requests ⊆ given) (ha : Genuine given a) :
    Genuine given (proceed a requests) := by
  induction requests generalizing a with
  | nil => exact ha
  | cons r requests ih =>
      obtain ⟨hr, hrest⟩ := List.append_subset.1 hgiven
      exact ih hrest (r.2.run_genuine r.1 hr ha)

theorem proceed_rendered {n : String} {D : Definition} (hD : a.types.get? n = some D)
    (hstatus : D.status = .rendered) : (proceed a requests).types.get? n = some D := by
  induction requests generalizing a with
  | nil => exact hD
  | cons r requests ih => exact ih (r.2.run_rendered r.1 hD hstatus)

theorem genuine_empty : Genuine given {} := fun _ _ hD => nomatch hD

/-- At every moment of every use of an analysis, what is held of a rendered name is made from a
declaration of that name in a module that is known: the text is the one written without the
analysis, and the references are the names this text mentions, which no type parameter of the
declaration is among. What is held stays as it is ever after, in this request and in all that
follow. -/
theorem rendered_sound_and_final {earlier : List (FileTree × Request)} {tree : FileTree}
    {request : Request} {c : Moment} {n : String} {D : Definition}
    (hc : Reaches tree (request.start (proceed {} earlier)) c)
    (hD : c.state.types.get? n = some D) (hstatus : D.status = .rendered) :
    (∃ m d, Known (givenIn earlier ++ request.given) c.state m ∧ m.declaration? n = some d ∧
      D.origin = some m.path ∧ D.text = Piece.print d.pieces ∧
      D.references = ((Piece.mentions d.pieces).filterMap Mention.name?).eraseDups ∧
      ∀ q, .named q ∈ Piece.mentions d.pieces → isParameter d.scope q = false) ∧
    (∀ d, Reaches tree c d → d.state.types.get? n = some D) ∧
    (∀ later tree' (request' : Request) d,
      Reaches tree' (request'.start (proceed {} (earlier ++ (tree, request) :: later))) d →
        d.state.types.get? n = some D) := by
  have hstacked := Reaches.stacked hc (request.start_stacked _)
  refine ⟨?_, fun d hd => Reaches.rendered hd hstacked hD hstatus, ?_⟩
  · have hstart : Genuine (givenIn earlier ++ request.given) (proceed {} earlier) :=
      proceed_genuine (List.subset_append_left _ _) genuine_empty
    have hvalid := request.start_valid (proceed {} earlier)
      (List.subset_append_right (givenIn earlier) request.given)
    obtain ⟨m, d, hm, hdecl, hshows⟩ := Reaches.genuine hc hvalid hstart n D hD hstatus
    exact ⟨m, d, hm, hdecl, hshows.origin, hshows.text,
      hshows.references.trans (Mention.references_eq _), d.pieces_free⟩
  · intro later tree' request' d hd
    obtain ⟨e, hreach, hend⟩ := request.run_ends tree (proceed {} earlier)
    have he : (request.run tree (proceed {} earlier)).2.types.get? n = some D := by
      rw [hend.loads.types]
      exact Reaches.rendered (hreach.before_end hend hc) hstacked hD hstatus
    have hlater : (proceed {} (earlier ++ (tree, request) :: later)).types.get? n = some D := by
      rw [proceed, List.foldl_append, List.foldl_cons]
      exact proceed_rendered he hstatus
    exact Reaches.rendered hd (request'.start_stacked _) hlater hstatus

def itemRequests : List (FileTree × Request) := [(itemTree, .file "/a.ts")]

theorem rendered_sound_and_final_item :
    ∃ D, (proceed {} itemRequests).types.get? "Item" = some D ∧ D.status = .rendered ∧
      (∃ m d, Known (givenIn itemRequests ++ (Request.file "/a.ts").given)
        (proceed {} itemRequests) m ∧ m.declaration? "Item" = some d ∧ D.origin = some m.path ∧
        D.text = Piece.print d.pieces ∧
        D.references = ((Piece.mentions d.pieces).filterMap Mention.name?).eraseDups ∧
        ∀ q, .named q ∈ Piece.mentions d.pieces → isParameter d.scope q = false) ∧
      ∀ later, (proceed {} (itemRequests ++ (itemTree, .file "/a.ts") :: later)).types.get? "Item" =
        some D := by
  have hrun : (proceed {} itemRequests).types.status? "Item" = some .rendered := by
    decide +kernel
  obtain ⟨D, hD, hstatus⟩ := Table.status?_eq_some.1 hrun
  obtain ⟨hsound, -, hfinal⟩ :=
    @rendered_sound_and_final itemRequests itemTree (.file "/a.ts") (Request.start _ _) "Item" D
      .refl hD hstatus
  simp only [Request.start_state] at hsound
  refine ⟨D, hD, hstatus, hsound, fun later => ?_⟩
  have hlater := hfinal later itemTree (.file "/a.ts") (Request.start _ _) .refl
  rwa [Request.start_state] at hlater

end HandlerWeave.Analysis
