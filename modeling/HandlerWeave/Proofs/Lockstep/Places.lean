import HandlerWeave.Proofs.Lockstep.Statements
import HandlerWeave.Proofs.Source.Nesting
import HandlerWeave.Proofs.Source.Splitting

/-!
Places in the tokens of a text, and how groups and bodies are passed at them.
-/
namespace HandlerWeave.Source

open Source.Parser

namespace Cursor

/-- The place between the tokens passed and the tokens ahead. -/
def between (passed ahead : List Token) (final : Token) : Cursor :=
  ⟨passed.getLast?, ahead, final⟩

variable {passed ahead : List Token} {final t : Token}

@[simp] theorem between_ahead : (between passed ahead final).ahead = ahead := rfl

@[simp] theorem between_left : (between passed ahead final).left = ahead.length := rfl

@[simp] theorem between_before : (between passed ahead final).before = passed.getLast? := rfl

@[simp] theorem between_token : (between passed (t :: ahead) final).token = t := rfl

@[simp] theorem between_kind : (between passed (t :: ahead) final).kind = t.kind := rfl

@[simp] theorem between_advance :
    (between passed (t :: ahead) final).advance = between (passed ++ [t]) ahead final := by
  simp [between, advance]

theorem ahead_advanceBy (c : Cursor) (n : Nat) : (c.advanceBy n).ahead = c.ahead.drop n := by
  induction n generalizing c with
  | zero => rfl
  | succ n ih =>
      rw [advanceBy, ih, advance]
      split
      next hnil => rw [hnil, List.drop_nil, List.drop_nil]
      next hcons => rw [hcons, List.drop_succ_cons]

theorem between_advanceBy (passed ts ahead : List Token) (final : Token) :
    (between passed (ts ++ ahead) final).advanceBy ts.length =
      between (passed ++ ts) ahead final := by
  induction ts generalizing passed with
  | nil => simp [advanceBy]
  | cons t ts ih =>
      rw [List.length_cons, advanceBy, List.cons_append, between_advance, ih, List.append_assoc]
      rfl

theorem between_advanceBy_take {n : Nat} (hn : n ≤ ahead.length) :
    (between passed ahead final).advanceBy n =
      between (passed ++ ahead.take n) (ahead.drop n) final := by
  have h := between_advanceBy passed (ahead.take n) (ahead.drop n) final
  rwa [List.take_append_drop, List.length_take, Nat.min_eq_left hn] at h

theorem ofTokens_append (front : List Token) (file : Token) :
    ofTokens (front ++ [file]) = between [] front file := by
  simp [ofTokens, between]

end Cursor

open Cursor in
/-- A group is passed up to the token that closes it. -/
theorem passGroup_between {passed ahead : List Token} {final t : Token} {closer : Token.Kind}
    {n : Nat} (hopens : t.kind.closing? = some closer) (h : Group.length [closer] ahead = .ok n) :
    passGroup (between passed (t :: ahead) final) =
      .ok ((), between (passed ++ t :: ahead.take n) (ahead.drop n) final) := by
  have hn := (Group.open?_take_length h []).1
  simp only [passGroup, between_kind, hopens, between_advance, between_ahead, h]
  rw [between_advanceBy_take hn, List.append_assoc]
  rfl

open Cursor in
/-- A group that does not end is not passed. -/
theorem passGroup_fails (passed : List Token) {ahead : List Token} (final : Token) {t : Token}
    {closer : Token.Kind}
    {fault : Group.Fault} (hopens : t.kind.closing? = some closer)
    (h : Group.length [closer] ahead = .error fault) :
    ∃ e, passGroup (between passed (t :: ahead) final) = .error e := by
  simp only [passGroup, between_kind, hopens, between_advance, between_ahead, h]
  cases fault with
  | unclosed => exact ⟨_, rfl⟩
  | mismatched n => exact ⟨_, rfl⟩

theorem passGroup_error {c : Cursor} {e : SyntaxError} (h : passGroup c = .error e) :
    e.cause ≠ .tooDeep := by
  unfold passGroup at h
  split at h
  · cases h
    nofun
  · split at h
    · cases h
    · cases h
      nofun
    · cases h
      nofun

namespace Grammar

variable {F : SyntaxError → SyntaxError → Prop} {N M : Cursor → Cursor → Prop} {c c' : Cursor}

/-- A token or a group on the way to a body is passed alike, whatever relates the two runs. -/
theorem bodyRound_agrees_of (hkind : c.kind = c'.kind)
    (hfile : c.kind = .endOfFile →
      F ⟨.expected "body" .endOfFile, c.token.start⟩ ⟨.expected "body" .endOfFile, c'.token.start⟩)
    (hadvance : c.kind ≠ .endOfFile → c.kind.closing? = none →
      N c.advance c'.advance ∧ c.advance.left < c.left)
    (hgroup : c.kind = .leftParen ∨ c.kind = .leftBracket →
      Agree F passGroup passGroup c c' fun _ _ d d' => N d d' ∧ d.left < c.left) :
    Agree F bodyRound bodyRound c c' fun more more' d d' => more = more' ∧
      if more then N d d' ∧ d.left < c.left else d = c ∧ d' = c' ∧ c.kind = .leftBrace := by
  have hcheck (kind : Token.Kind) : c.check kind = c'.check kind := by
    rw [Cursor.check, Cursor.check, hkind]
  refine .look <| .ite (by rw [hcheck]) (fun hbrace => .pure ⟨rfl, rfl, rfl, eq_of_beq hbrace⟩)
    fun hbrace => .ite (by rw [hcheck]) (fun hend => ?_) fun hend =>
      .ite (by rw [hcheck, hcheck]) (fun hgroups => ?_) fun hgroups => ?_
  · have hend := eq_of_beq hend
    have hend' : c'.kind = .endOfFile := hkind ▸ hend
    refine .bind (Q := fun _ _ _ _ => False) ?_ fun _ _ _ _ h => h.elim
    unfold Agree fail
    rw [hend, hend']
    exact hfile hend
  · refine (hgroup ?_).bind fun _ _ d d' hd => .pure ⟨rfl, hd⟩
    simpa [Cursor.check] using hgroups
  · have hnone : c.kind.closing? = none := by
      simp only [Cursor.check, Bool.or_eq_true, beq_iff_eq, not_or] at hbrace hgroups
      revert hbrace hgroups
      cases c.kind <;> simp [Token.Kind.closing?]
    exact .advance (.pure ⟨rfl, hadvance (by simpa [Cursor.check] using hend) hnone⟩)

theorem passToBody_agrees_of
    (hdown : ∀ {c c' d d'}, N c c' → N d d' → d.left < c.left → d'.left < c'.left)
    (hkind : ∀ {c c'}, N c c' → c.kind = c'.kind)
    (hfile : ∀ {c c'}, N c c' → c.kind = .endOfFile →
      F ⟨.expected "body" .endOfFile, c.token.start⟩ ⟨.expected "body" .endOfFile, c'.token.start⟩)
    (hadvance : ∀ {c c'}, N c c' → c.kind ≠ .endOfFile → c.kind.closing? = none →
      N c.advance c'.advance ∧ c.advance.left < c.left)
    (hgroup : ∀ {c c'}, N c c' → c.kind = .leftParen ∨ c.kind = .leftBracket →
      Agree F passGroup passGroup c c' fun _ _ d d' => N d d' ∧ d.left < c.left)
    (hbody : ∀ {c c'}, N c c' → c.kind = .leftBrace →
      Agree F passGroup passGroup c c' fun _ _ d d' => M d d' ∧ d.left < c.left)
    (h : N c c') :
    Agree F passToBody passToBody c c' fun _ _ d d' => M d d' ∧ d.left < c.left := by
  rw [passToBody_eq]
  refine Agree.bind (Q := fun _ _ d d' => N d d' ∧ d.kind = .leftBrace ∧ d.left ≤ c.left) ?_
    fun _ _ d d' ⟨hd, hbrace, hle⟩ => (hbody hd hbrace).mono fun _ _ e e' he => ⟨he.1, by omega⟩
  refine .iterate (S := fun _ _ d => d.left ≤ c.left) hdown h (Nat.le_refl _)
    fun _ _ d d' hd hle _ => (bodyRound_agrees_of (hkind hd) (hfile hd) (hadvance hd)
      (hgroup hd)).bind ?_
  rintro more _ e e' ⟨rfl, he⟩
  cases more with
  | true => exact .pure ⟨he.1, he.2, by have := he.2; omega⟩
  | false =>
      obtain ⟨rfl, rfl, hbrace⟩ := he
      exact .pure ⟨hd, hbrace, hle⟩

end Grammar

end HandlerWeave.Source
