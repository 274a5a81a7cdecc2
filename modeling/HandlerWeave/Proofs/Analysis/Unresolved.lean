import HandlerWeave.Proofs.Analysis.References
import HandlerWeave.Proofs.Analysis.Sessions
import Mathlib.Data.List.Induction

/-!
Names that are looked for in vain. The entry of a name counts how often that has happened, and the
first time is reported, unless the name belongs to the language's own library. So a name is reported
once or never, however often it is mentioned and looked for again.
-/
namespace HandlerWeave

/-- The diagnostic reports that `name` was not found. -/
def Diagnostic.isUnresolved (name : String) : Diagnostic → Bool
  | .unresolvedType _ n _ => n == name
  | _ => false

namespace Analysis

open Source HandlerWeave.Types

variable {tree : FileTree} {a b : Analysis} {c d : Moment} {q : QualifiedName} {m : Module}
  {why : Missing} {n : String}

/-- The innermost call is a search that ends in vain. -/
def Moment.Misses (tree : FileTree) (c : Moment) (q : QualifiedName) (m : Module) (why : Missing) :
    Prop :=
  ∃ stack, c.calls = .locating q m :: stack ∧ (search q m tree c.state).1 = .ok (.missing why)

theorem Moment.Misses.pending (h : c.Misses tree q m why)
    (hs : Stacked c.defining c.state.types) : c.state.types.status? q.name = some .pending := by
  obtain ⟨stack, hcalls, -⟩ := h
  exact hs.pending q.name (by simp [Moment.defining, hcalls, Call.defined?])

/-- How often the analysis has reported that a name was not found. -/
def unresolved (a : Analysis) (name : String) : Nat :=
  a.diagnostics.countP (Diagnostic.isUnresolved name)

/-- Reading a handler class reports no name. -/
theorem isUnresolved_of_mem_read {c : ClassDef} {x : Diagnostic}
    (h : x ∈ (Handler.metadataOf m c).2 ++
      Handler.triggerDiagnostics m c (Handler.metadataOf m c).1) :
    x.isUnresolved n = false := by
  obtain h | h := List.mem_append.1 h
  · rw [Handler.metadataOf] at h
    revert h
    cases (m.classDecoration? c.name Handler.metadataDecorator).bind (·.arguments.head?) with
    | none =>
        intro h
        cases List.mem_singleton.1 h
        rfl
    | some argument =>
        intro h
        obtain ⟨excerpt, -, rfl⟩ := List.mem_map.1 h
        rfl
  · rw [Handler.triggerDiagnostics] at h
    split at h
    · cases List.mem_singleton.1 h
      rfl
    · cases h

/-- What a step does to the counts in the table and to the diagnostics. -/
inductive SearchStep (tree : FileTree) (c d : Moment) : Prop
  | missed (q : QualifiedName) (m : Module) (why : Missing) (h : c.Misses tree q m why)
      (htypes : d.state.types = c.state.types.leaveOut q.name)
      (hdiagnostics : d.state.diagnostics = c.state.diagnostics ++
        if c.state.types.neverFailed q.name && !ambientNames.contains q.name then
          [.unresolvedType m.path q.name why.reason] else [])
  | other (hfailures : ∀ n, d.state.types.failures n = c.state.types.failures n)
      (hexternal : ∀ n, d.state.types.status? n = some .external →
        c.state.types.status? n = some .external)
      (hdiagnostics : ∃ new, d.state.diagnostics = c.state.diagnostics ++ new ∧
        ∀ x ∈ new, ∀ n, x.isUnresolved n = false)

theorem SearchStep.of_types (htypes : d.state.types = c.state.types)
    (hdiagnostics : ∃ new, d.state.diagnostics = c.state.diagnostics ++ new ∧
      ∀ x ∈ new, ∀ n, x.isUnresolved n = false) : SearchStep tree c d :=
  .other (fun _ => by rw [htypes]) (fun _ => by rw [htypes]; exact id) hdiagnostics

theorem Step.searchStep (h : Step tree c d) : SearchStep tree c d := by
  cases h with
  | filesEnd | bindingsEnd | otherBinding | known => exact .of_types rfl ⟨[], by simp, by simp⟩
  | file h =>
      obtain ⟨hload, -⟩ := openModule_loads h
      exact .of_types hload.types ⟨[], by simp [hload.diagnostics], by simp⟩
  | found h =>
      obtain ⟨hload, -⟩ := search_loads h
      exact .of_types hload.types ⟨[], by simp [hload.diagnostics], by simp⟩
  | noEntry =>
      refine .of_types rfl ⟨_, List.append_assoc .., fun x hx n => ?_⟩
      obtain hx | hx := List.mem_append.1 hx
      · exact isUnresolved_of_mem_read hx
      · cases List.mem_singleton.1 hx
        rfl
  | handler => exact .of_types rfl ⟨_, rfl, fun x hx n => isUnresolved_of_mem_read hx⟩
  | unsupported =>
      refine .of_types rfl ⟨_, rfl, fun x hx n => ?_⟩
      cases List.mem_singleton.1 hx
      rfl
  | @wanted _ _ name _ _ _ _ h =>
      refine .other (fun _ => Table.failures_start h) (fun n hn => ?_)
        ⟨[], by simp [started], by simp⟩
      rw [started_types, Table.status?_start h] at hn
      split at hn
      · cases hn
      · exact hn
  | @written w m _ a =>
      cases w with
      | signature | type => exact .of_types rfl ⟨[], by simp [Work.finish], by simp⟩
      | declaration name =>
          refine .other (fun _ => Table.failures_settle) (fun n hn => ?_)
            ⟨[], by simp [Work.finish], by simp⟩
          simp only [Work.finish, Table.status?, Table.get?_settle] at hn
          split at hn
          · obtain ⟨D, hD, hstatus⟩ := Option.map_eq_some_iff.1 hn
            obtain ⟨D', -, rfl⟩ := Option.map_eq_some_iff.1 hD
            cases hstatus
          · exact hn
  | @missing q m stack a b _ why h =>
      obtain ⟨hload, -⟩ := search_loads h
      refine .missed q m why ⟨stack, rfl, by rw [h]⟩ ?_ ?_
      · rw [missed_types, hload.types]
      · rw [missed, hload.types]
        split
        · rw [told, hload.diagnostics]
        · rw [hload.diagnostics, List.append_nil]

theorem Step.failures_le (h : Step tree c d) (hs : Stacked c.defining c.state.types) (n : String) :
    c.state.types.failures n ≤ d.state.types.failures n := by
  cases h.searchStep with
  | missed q m why hmisses htypes =>
      rw [htypes, Table.failures_leaveOut (hmisses.pending hs)]
      split
      · exact Nat.le_succ _
      · exact Nat.le_refl _
  | other hfailures => exact Nat.le_of_eq (hfailures n).symm

theorem Reaches.failures_le (h : Reaches tree c d) (hs : Stacked c.defining c.state.types)
    (n : String) : c.state.types.failures n ≤ d.state.types.failures n := by
  induction h with
  | refl => exact Nat.le_refl _
  | tail hreach hstep ih => exact Nat.le_trans ih (hstep.failures_le (Reaches.stacked hreach hs) n)

/-- What the counts and the diagnostics tell of the searches that ended in vain. -/
structure Accounts (missed : QualifiedName → Module → Missing → Prop) (a : Analysis) : Prop where
  counted : ∀ n, a.types.failures n ≠ 0 → ∃ q m why, missed q m why ∧ q.name = n
  reported : ∀ n, a.unresolved n = if n ∈ ambientNames ∨ a.types.failures n = 0 then 0 else 1
  genuine : ∀ p n r, .unresolvedType p n r ∈ a.diagnostics →
    ∃ q m why, missed q m why ∧ q.name = n ∧ p = m.path ∧ r = why.reason
  external : ∀ n, a.types.status? n = some .external → a.types.failures n ≠ 0

namespace Accounts

variable {missed more : QualifiedName → Module → Missing → Prop}

theorem new : Accounts missed {} where
  counted _ hn := absurd rfl hn
  reported _ := (if_pos (.inr rfl)).symm
  genuine _ _ _ hmem := nomatch hmem
  external _ hn := nomatch hn

theorem mono (ha : Accounts missed a) (h : ∀ q m why, missed q m why → more q m why) :
    Accounts more a where
  counted n hn := by
    obtain ⟨q, m, why, hmissed, hname⟩ := ha.counted n hn
    exact ⟨q, m, why, h q m why hmissed, hname⟩
  reported := ha.reported
  genuine p n r hmem := by
    obtain ⟨q, m, why, hmissed, hrest⟩ := ha.genuine p n r hmem
    exact ⟨q, m, why, h q m why hmissed, hrest⟩
  external := ha.external

theorem loads (ha : Accounts missed a) (h : Loads tree a b) : Accounts missed b := by
  obtain ⟨new, rfl, -⟩ := h
  exact ⟨ha.counted, ha.reported, ha.genuine, ha.external⟩

/-- A search in vain is reported if it is the first for a name that is not of the library. -/
theorem miss (ha : Accounts missed a) (hmissed : missed q m why)
    (hpending : a.types.status? q.name = some .pending) (htypes : b.types = a.types.leaveOut q.name)
    (hdiagnostics : b.diagnostics = a.diagnostics ++
      if a.types.neverFailed q.name && !ambientNames.contains q.name then
        [.unresolvedType m.path q.name why.reason] else []) : Accounts missed b := by
  have hfailures : ∀ n, b.types.failures n =
      if n = q.name then a.types.failures n + 1 else a.types.failures n := fun n => by
    rw [htypes, Table.failures_leaveOut hpending]
  have hfirst : (a.types.neverFailed q.name && !ambientNames.contains q.name) = true ↔
      a.types.failures q.name = 0 ∧ q.name ∉ ambientNames := by
    rw [Bool.and_eq_true, Table.neverFailed_iff hpending]
    simp
  constructor
  case counted =>
    intro n hn
    rw [hfailures] at hn
    split at hn
    next heq => exact ⟨q, m, why, hmissed, heq.symm⟩
    · exact ha.counted n hn
  case reported =>
    intro n
    have hcount : b.unresolved n = a.unresolved n +
        if n = q.name ∧ a.types.failures q.name = 0 ∧ q.name ∉ ambientNames then 1 else 0 := by
      rw [unresolved, hdiagnostics, List.countP_append, unresolved]
      by_cases hreport : a.types.failures q.name = 0 ∧ q.name ∉ ambientNames
      · rw [if_pos (hfirst.2 hreport)]
        by_cases hn : n = q.name
        · simp [Diagnostic.isUnresolved, hreport, hn]
        · simp [Diagnostic.isUnresolved, hn, Ne.symm hn]
      · rw [if_neg (mt hfirst.1 hreport), if_neg fun h => hreport h.2]
        rfl
    rw [hcount, ha.reported, hfailures]
    by_cases hn : n = q.name
    · subst hn
      by_cases hambient : q.name ∈ ambientNames <;> by_cases hzero : a.types.failures q.name = 0 <;>
        simp [hambient, hzero]
    · simp [hn]
  case genuine =>
    intro p n r hmem
    rw [hdiagnostics] at hmem
    obtain hmem | hmem := List.mem_append.1 hmem
    · exact ha.genuine p n r hmem
    · split at hmem
      · cases List.mem_singleton.1 hmem
        exact ⟨q, m, why, hmissed, rfl, rfl, rfl⟩
      · cases hmem
  case external =>
    intro n hn
    rw [htypes, Table.status?_leaveOut hpending] at hn
    rw [hfailures]
    split
    · exact Nat.succ_ne_zero _
    next hne =>
      rw [if_neg hne] at hn
      exact ha.external n hn

theorem step (ha : Accounts missed c.state) (h : Step tree c d)
    (hs : Stacked c.defining c.state.types)
    (hmissed : ∀ q m why, c.Misses tree q m why → missed q m why) : Accounts missed d.state := by
  cases h.searchStep with
  | missed q m why hmisses htypes hdiagnostics =>
      exact ha.miss (hmissed q m why hmisses) (hmisses.pending hs) htypes hdiagnostics
  | other hfailures hexternal hdiagnostics =>
      obtain ⟨new, hdiagnostics, hnew⟩ := hdiagnostics
      constructor
      case counted => exact fun n hn => ha.counted n (hfailures n ▸ hn)
      case reported =>
        intro n
        have hnone : new.countP (Diagnostic.isUnresolved n) = 0 :=
          List.countP_eq_zero.2 fun x hx => by simp [hnew x hx n]
        rw [unresolved, hdiagnostics, List.countP_append, hnone, hfailures]
        exact ha.reported n
      case genuine =>
        intro p n r hmem
        rw [hdiagnostics] at hmem
        obtain hmem | hmem := List.mem_append.1 hmem
        · exact ha.genuine p n r hmem
        · exact absurd (hnew _ hmem n) (by simp [Diagnostic.isUnresolved])
      case external => exact fun n hn => hfailures n ▸ ha.external n (hexternal n hn)

theorem reaches (ha : Accounts missed c.state) (h : Reaches tree c d)
    (hs : Stacked c.defining c.state.types)
    (hmissed : ∀ e q m why, Reaches tree c e → e.Misses tree q m why → missed q m why) :
    Accounts missed d.state := by
  induction h with
  | refl => exact ha
  | tail hreach hstep ih =>
      exact ih.step hstep (Reaches.stacked hreach hs) fun q m why => hmissed _ q m why hreach

end Accounts

/-- While some requests are answered by a new analysis, one after the other, the search for `q`,
mentioned in `m`, ends in vain. -/
def SoughtInVain (requests : List (FileTree × Request)) (q : QualifiedName) (m : Module)
    (why : Missing) : Prop :=
  ∃ earlier tree request later c, requests = earlier ++ (tree, request) :: later ∧
    Reaches tree (request.start (proceed {} earlier)) c ∧ c.Misses tree q m why

theorem SoughtInVain.append {requests : List (FileTree × Request)}
    (h : SoughtInVain requests q m why) (more : List (FileTree × Request)) :
    SoughtInVain (requests ++ more) q m why := by
  obtain ⟨earlier, tree, request, later, c, rfl, hrest⟩ := h
  exact ⟨earlier, tree, request, later ++ more, c, by simp, hrest⟩

theorem proceed_append (a : Analysis) (earlier later : List (FileTree × Request)) :
    proceed a (earlier ++ later) = proceed (proceed a earlier) later := List.foldl_append

theorem Request.run_failures (request : Request) (tree : FileTree) (a : Analysis) (n : String) :
    a.types.failures n ≤ (request.run tree a).2.types.failures n := by
  obtain ⟨c, hreach, hend⟩ := request.run_ends tree a
  rw [hend.loads.types]
  exact Reaches.failures_le hreach (request.start_stacked a) n

theorem proceed_failures (requests : List (FileTree × Request)) (a : Analysis) (n : String) :
    a.types.failures n ≤ (proceed a requests).types.failures n := by
  induction requests generalizing a with
  | nil => exact Nat.le_refl _
  | cons r requests ih => exact Nat.le_trans (r.2.run_failures r.1 a n) (ih _)

/-- The search that ends in vain is counted by the time its request is answered. -/
theorem Moment.Misses.counted {request : Request} (h : c.Misses tree q m why)
    (hreach : Reaches tree (request.start a) c) :
    (request.run tree a).2.types.failures q.name ≠ 0 := by
  obtain ⟨e, he, hend⟩ := request.run_ends tree a
  have hstacked := Reaches.stacked hreach (request.start_stacked a)
  obtain ⟨stack, hcalls, hsearch⟩ := id h
  obtain ⟨calls, state, done⟩ := c
  cases hcalls
  have hstep : Step tree ⟨.locating q m :: stack, state, done⟩ ⟨stack, _, done⟩ :=
    .missing (Prod.ext hsearch rfl)
  have hcount := Reaches.failures_le
    (Reaches.before_end he hend (hreach.tail hstep)) (hstep.names.stacked hstacked) q.name
  rw [← hend.loads.types, missed_types, (search_loads (Prod.ext hsearch rfl)).1.types,
    Table.failures_leaveOut (h.pending hstacked), if_pos rfl] at hcount
  omega

theorem SoughtInVain.counted {requests : List (FileTree × Request)}
    (h : SoughtInVain requests q m why) : (proceed {} requests).types.failures q.name ≠ 0 := by
  obtain ⟨earlier, tree, request, later, c, rfl, hreach, hmisses⟩ := h
  have hcount := hmisses.counted hreach
  have hlater := proceed_failures later (request.run tree (proceed {} earlier)).2 q.name
  rw [proceed_append]
  exact Nat.ne_of_gt (Nat.lt_of_lt_of_le (Nat.pos_of_ne_zero hcount) hlater)

theorem accounts_proceed (requests : List (FileTree × Request)) :
    Accounts (SoughtInVain requests) (proceed {} requests) := by
  induction requests using List.reverseRecOn with
  | nil => exact .new
  | append_singleton earlier r ih =>
      obtain ⟨tree, request⟩ := r
      obtain ⟨c, hreach, hend⟩ := request.run_ends tree (proceed {} earlier)
      have hstart : Accounts (SoughtInVain (earlier ++ [(tree, request)]))
          (request.start (proceed {} earlier)).state :=
        ih.mono fun q m why hsought => hsought.append _
      rw [proceed_append]
      exact (hstart.reaches hreach (request.start_stacked _) fun e q m why he hmisses =>
        ⟨earlier, tree, request, [], e, rfl, he, hmisses⟩).loads hend.loads

/-- Files that are added one after the other are so many requests. -/
theorem proceed_files {paths : List String} (h : addFiles paths tree a = (.ok (), b)) :
    proceed a (paths.map fun path => (tree, .file path)) = b := by
  induction paths generalizing a with
  | nil => exact congrArg Prod.snd h
  | cons path paths ih =>
      have h : (addFile path >>= fun _ => addFiles paths) tree a = (.ok (), b) := h
      rw [AnalysisM.bind_run] at h
      split at h
      next c hfile =>
        rw [List.map_cons, proceed, List.foldl_cons, Request.run, hfile]
        exact ih h
      · cases h

/-- A name that is not of the library is reported exactly once if some search for it ended in vain,
and never otherwise; a name of the library is never reported. What is reported is the module and the
reason of such a search, and every name that is external at the end has had one. -/
theorem unresolved_reported_once (requests : List (FileTree × Request)) (n : String) :
    ((∃ q m why, SoughtInVain requests q m why ∧ q.name = n) → n ∉ ambientNames →
      (proceed {} requests).unresolved n = 1) ∧
    ((¬ ∃ q m why, SoughtInVain requests q m why ∧ q.name = n) →
      (proceed {} requests).unresolved n = 0) ∧
    (n ∈ ambientNames → (proceed {} requests).unresolved n = 0) ∧
    ((proceed {} requests).types.status? n = some .external → n ∉ ambientNames →
      (proceed {} requests).unresolved n = 1) ∧
    ∀ path reason, .unresolvedType path n reason ∈ (proceed {} requests).diagnostics →
      ∃ q m why, SoughtInVain requests q m why ∧ q.name = n ∧ path = m.path ∧
        reason = why.reason := by
  have haccounts := accounts_proceed requests
  have honce : (proceed {} requests).types.failures n ≠ 0 → n ∉ ambientNames →
      (proceed {} requests).unresolved n = 1 := fun hcount hambient => by
    rw [haccounts.reported, if_neg (not_or.2 ⟨hambient, hcount⟩)]
  refine ⟨?_, ?_, ?_, ?_, fun path => haccounts.genuine path n⟩
  · rintro ⟨q, m, why, hsought, rfl⟩
    exact honce hsought.counted
  · intro hnone
    rw [haccounts.reported, if_pos (.inr (Decidable.not_not.1 (mt (haccounts.counted n) hnone)))]
  · intro hambient
    rw [haccounts.reported, if_pos (.inl hambient)]
  · exact fun hexternal => honce (haccounts.external n hexternal)

/-- A project of two modules that mention an `Item`, and one of them a `Date`. -/
def remoteItemTree : FileTree :=
  ⟨[(["a"], .file (
      "@LambdaFunction() class A { handle(x: Item) {} } " ++
      "export const a = new A().m").toUTF8),
    (["b"], .file (
      "@LambdaFunction() class B { handle(x: Item, y: Date) {} } " ++
      "export const b = new B().m").toUTF8)]⟩

def remoteItemRequests : List (FileTree × Request) :=
  ["/a", "/b"].map fun path => (remoteItemTree, .file path)

theorem unresolved_reported_once_item :
    addFiles ["/a", "/b"] remoteItemTree {} = (.ok (), proceed {} remoteItemRequests) ∧
      (proceed {} remoteItemRequests).types.failures "Item" = 2 ∧
      (∃ q m why, SoughtInVain remoteItemRequests q m why ∧ q.name = "Item") ∧
      "Item" ∉ ambientNames ∧ (proceed {} remoteItemRequests).unresolved "Item" = 1 ∧
      (∃ q m why, SoughtInVain remoteItemRequests q m why ∧ q.name = "Date") ∧
      "Date" ∈ ambientNames ∧ (proceed {} remoteItemRequests).unresolved "Date" = 0 := by
  have hrun : (addFiles ["/a", "/b"] remoteItemTree {}).1.isOk = true ∧
      (addFiles ["/a", "/b"] remoteItemTree {}).2.types.failures "Item" = 2 ∧
      (addFiles ["/a", "/b"] remoteItemTree {}).2.types.failures "Date" = 1 := by
    decide +kernel
  have hok := eq_ok_of_isOk hrun.1
  have hproceed : proceed {} remoteItemRequests =
      (addFiles ["/a", "/b"] remoteItemTree {}).2 := proceed_files hok
  obtain ⟨-, hitem, hdate⟩ := hproceed ▸ hrun
  have hcounted := (accounts_proceed remoteItemRequests).counted
  have hsought := hcounted "Item" (by simp [hitem])
  have hname : "Item" ∉ ambientNames ∧ "Date" ∈ ambientNames := by decide
  exact ⟨hproceed ▸ hok, hitem, hsought, hname.1,
    (unresolved_reported_once remoteItemRequests "Item").1 hsought hname.1,
    hcounted "Date" (by simp [hdate]), hname.2,
    (unresolved_reported_once remoteItemRequests "Date").2.2.1 hname.2⟩

end Analysis

end HandlerWeave
