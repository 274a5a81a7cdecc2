import HandlerWeave.FileTree
import Mathlib.Order.Defs.Unbundled

/-!
Programs that can fail, alone and over a file tree. What such a program does to its tree is put
together from what its steps do, whether it fails or not.
-/
namespace HandlerWeave

namespace Except

variable {ε δ α β : Type}

theorem bind_ok {x : Except ε α} {f : α → Except ε β} {w : β} (h : (x >>= f) = .ok w) :
    ∃ v, x = .ok v ∧ f v = .ok w := by
  cases x with
  | error e => cases h
  | ok v => exact ⟨v, rfl, h⟩

theorem mapError_ok {x : Except ε α} {f : ε → δ} {v : α} (h : x.mapError f = .ok v) :
    x = .ok v := by
  cases x with
  | error e => cases h
  | ok w =>
      cases h
      rfl

theorem of_toOption_map {x : Except ε α} {f : α → β} {w : β} (h : x.toOption.map f = some w) :
    ∃ v, x = .ok v ∧ f v = w := by
  cases x with
  | error e => cases h
  | ok v => exact ⟨v, rfl, Option.some.inj h⟩

theorem mapM_ok {f : α → Except ε β} {xs : List α} {ys : List β} (h : xs.mapM f = .ok ys) :
    ∀ y ∈ ys, ∃ x ∈ xs, f x = .ok y := by
  induction xs generalizing ys with
  | nil =>
      cases h
      simp
  | cons x xs ih =>
      rw [List.mapM_cons] at h
      obtain ⟨y, hy, h⟩ := bind_ok h
      obtain ⟨rest, hrest, h⟩ := bind_ok h
      cases h
      refine List.forall_mem_cons.2 ⟨⟨x, List.mem_cons_self, hy⟩, fun z hz => ?_⟩
      obtain ⟨x', hx', hz⟩ := ih hrest z hz
      exact ⟨x', List.mem_cons_of_mem _ hx', hz⟩

end Except

namespace FileTree

/-- A program leaves a tree that is related to the one before it, whether it fails or not. -/
def Respects {ε α : Type} (R : FileTree → FileTree → Prop) (x : ExceptT ε (StateM FileTree) α) :
    Prop :=
  ∀ tree : FileTree, R tree (x tree).2

section

variable {ε α β : Type} {x : ExceptT ε (StateM FileTree) α}
  {f : α → ExceptT ε (StateM FileTree) β} {handler : ε → ExceptT ε (StateM FileTree) α}

theorem bind_run (x : ExceptT ε (StateM FileTree) α) (f : α → ExceptT ε (StateM FileTree) β)
    (tree : FileTree) :
    (x >>= f) tree = match x tree with
      | (.ok v, mid) => f v mid
      | (.error e, mid) => (.error e, mid) := by
  change (match x tree with
    | (outcome, mid) => ExceptT.bindCont f outcome mid) = _
  obtain ⟨_ | _, mid⟩ := x tree <;> rfl

/-- Of two programs one after the other the first fails, or the second ends the run. -/
theorem bind_cases {tree after : FileTree} {outcome : Except ε β}
    (h : (x >>= f) tree = (outcome, after)) :
    (∃ e, x tree = (.error e, after) ∧ outcome = .error e) ∨
      ∃ v mid, x tree = (.ok v, mid) ∧ f v mid = (outcome, after) := by
  rw [bind_run] at h
  revert h
  cases x tree with
  | mk first mid =>
      intro h
      cases first with
      | error e =>
          cases h
          exact .inl ⟨e, rfl, rfl⟩
      | ok v => exact .inr ⟨v, mid, rfl, h⟩

theorem tryCatch_run (x : ExceptT ε (StateM FileTree) α)
    (handler : ε → ExceptT ε (StateM FileTree) α) (tree : FileTree) :
    (tryCatch x handler) tree = match x tree with
      | (.ok v, mid) => (.ok v, mid)
      | (.error e, mid) => handler e mid := by
  change (match x tree with
    | (outcome, mid) => (match outcome with
      | .ok v => ExceptT.pure v
      | .error e => handler e : ExceptT ε (StateM FileTree) α) mid) = _
  obtain ⟨_ | _, mid⟩ := x tree <;> rfl

variable {R : FileTree → FileTree → Prop} [IsPreorder FileTree R]

namespace Respects

theorem bind (hx : Respects R x) (hf : ∀ v, Respects R (f v)) : Respects R (x >>= f) := by
  intro tree
  rw [bind_run]
  have hhead := hx tree
  revert hhead
  cases x tree with
  | mk outcome mid =>
      cases outcome with
      | error e => exact id
      | ok v => exact fun hhead => trans_of R hhead (hf v mid)

theorem tryCatch (hx : Respects R x) (hhandler : ∀ e, Respects R (handler e)) :
    Respects R (tryCatch x handler) := by
  intro tree
  rw [tryCatch_run]
  have hhead := hx tree
  revert hhead
  cases x tree with
  | mk outcome mid =>
      cases outcome with
      | error e => exact fun hhead => trans_of R hhead (hhandler e mid)
      | ok v => exact id

theorem pure (v : α) : Respects R (pure v : ExceptT ε (StateM FileTree) α) := fun tree =>
  refl_of R tree

theorem throw (e : ε) : Respects R (throw e : ExceptT ε (StateM FileTree) α) := fun tree =>
  refl_of R tree

theorem get : Respects R (get : ExceptT ε (StateM FileTree) FileTree) := fun tree => refl_of R tree

theorem forIn {body : β → ExceptT ε (StateM FileTree) PUnit} (hbody : ∀ v, Respects R (body v))
    (vs : List β) :
    Respects R (forIn vs PUnit.unit fun v _ => do body v; return .yield PUnit.unit) := by
  induction vs with
  | nil => exact pure _
  | cons v vs ih =>
      rw [List.forIn_cons]
      refine bind (bind (hbody v) fun _ => pure _) ?_
      rintro (_ | _)
      · exact pure _
      · exact ih

end Respects

/-- Making directories does what making one does, some number of times, at paths of one kind. -/
theorem makeDirectories_respects {P : String → Prop}
    (hparent : ∀ {path parent}, P path → Path.parent? path = some parent → P parent)
    (hmake : ∀ {a b : FileTree} {path}, P path → a.makeDirectory path = .ok b → R a b)
    (depth : Nat) {path : String} (hpath : P path) : Respects R (makeDirectories depth path) := by
  induction depth generalizing path with
  | zero => exact .throw _
  | succ depth ih =>
      have hattempt : Respects R (Action.change (·.makeDirectory path)) := by
        intro tree
        unfold Action.change
        split
        next h => exact hmake hpath h
        · exact refl_of R tree
      have hunless : ∀ e, Respects R (Action.unlessDirectory path e) := by
        intro e
        refine .bind .get fun tree => ?_
        split
        · exact .throw e
        · exact .pure _
      unfold makeDirectories
      split
      · exact .pure _
      refine .tryCatch hattempt fun e => ?_
      split
      · exact hunless e
      split
      · exact .throw e
      next parent hfound =>
        exact .bind (ih (hparent hpath hfound)) fun _ => .tryCatch hattempt hunless

end

end FileTree

end HandlerWeave
