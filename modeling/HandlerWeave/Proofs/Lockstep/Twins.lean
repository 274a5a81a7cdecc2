import HandlerWeave.Proofs.Lockstep.Places

/-!
Runs over tokens that look alike. The tokens ahead have the same kinds and texts in both runs, and
the same gaps but perhaps for the first one, which then stands behind no operand. Where they start
may differ.
-/
namespace HandlerWeave.Source

open Source.Parser

namespace Cursor

/-- The kinds of tokens that end an operand. -/
def operandEnds : List Token.Kind :=
  [.word, .string, .number, .template, .regex, .rightParen, .rightBracket, .rightBrace]

theorem ne_word_of_operandEnds {kind : Token.Kind} (h : operandEnds.contains kind = false) :
    (kind == .word) = false := beq_false_of_ne fun hword => by
  rw [hword] at h
  cases h

/-- No operand ends in front of the place. -/
def Fresh (c : Cursor) : Prop := ∀ t ∈ c.before, operandEnds.contains t.kind = false

/-- What lies ahead looks alike. The gap of a token counts when fewer than `top` tokens lie ahead of
the place in front of it, and starts that correspond are related by `S`. -/
structure Twins (top : Nat) (S : Nat → Nat → Prop) (c c' : Cursor) : Prop where
  left : c.left = c'.left
  le : c.left ≤ top
  kind : ∀ n, c.kindAhead n = c'.kindAhead n
  text : ∀ n, (c.tokenAt n).text = (c'.tokenAt n).text
  start : ∀ n, S (c.tokenAt n).start (c'.tokenAt n).start
  gap : ∀ n < c.left, c.left < n + top → (c.tokenAt n).gap = (c'.tokenAt n).gap
  file : ∀ n, c.kindAhead n = .endOfFile ↔ c.left ≤ n
  before : (c.left < top ∧ c.before.map Token.kind = c'.before.map Token.kind) ∨
    (c.Fresh ∧ c'.Fresh)

theorem tokenAt_of_lt {c : Cursor} {n : Nat} (h : n < c.ahead.length) :
    c.tokenAt n = c.ahead[n] := by
  rw [tokenAt, List.getElem?_eq_getElem h]
  rfl

namespace Twins

variable {top : Nat} {S : Nat → Nat → Prop} {c c' d d' : Cursor}

theorem ahead_iff (h : Twins top S c c') : c.kind = .endOfFile ↔ c.ahead = [] := by
  rw [Cursor.kind, h.file 0, Nat.le_zero, Cursor.left, List.length_eq_zero_iff]

theorem map_kind (h : Twins top S c c') :
    c.ahead.map Token.kind = c'.ahead.map Token.kind := by
  refine List.ext_getElem (by simpa [Cursor.left] using h.left) fun n hn hn' => ?_
  have hkind := h.kind n
  rw [List.length_map] at hn hn'
  rwa [kindAhead, kindAhead, tokenAt_of_lt hn, tokenAt_of_lt hn', ← List.getElem_map Token.kind,
    ← List.getElem_map Token.kind] at hkind

/-- Behind the first token ahead the texts are spelled alike. -/
theorem map_spelled (h : Twins top S c c') :
    c.ahead.tail.map Token.spelled = c'.ahead.tail.map Token.spelled := by
  have hleft := h.left
  have hle := h.le
  rw [Cursor.left, Cursor.left] at hleft
  refine List.ext_getElem (by simp [hleft]) fun n hn hn' => ?_
  rw [List.length_map, List.length_tail] at hn hn'
  have htext := h.text (n + 1)
  have hgap := h.gap (n + 1) (by rw [Cursor.left]; omega) (by omega)
  rw [tokenAt_of_lt (by omega), tokenAt_of_lt (by omega)] at htext hgap
  simp [Token.spelled, htext, hgap]

theorem advance (h : Twins top S c c') : Twins top S c.advance c'.advance := by
  by_cases hahead : c.ahead = []
  · have hahead' : c'.ahead = [] :=
      List.length_eq_zero_iff.1 (h.left.symm.trans (by rw [Cursor.left, hahead]; rfl))
    have hstays {c : Cursor} (h : c.ahead = []) : c.advance = c := by
      rw [Cursor.advance, h]
    rw [hstays hahead, hstays hahead']
    exact h
  have hahead' : c'.ahead ≠ [] := fun hnil => hahead
    (List.length_eq_zero_iff.1 (h.left.trans (by rw [Cursor.left, hnil]; rfl)))
  have hlt := advance_left hahead
  have hlt' := advance_left hahead'
  have hle := h.le
  have hleft := h.left
  refine ⟨by omega, by omega, fun n => ?_, fun n => ?_, fun n => ?_, fun n hn hgap => ?_,
    fun n => ?_,
    .inl ⟨by omega, ?_⟩⟩
  · rw [← kindAhead_succ, ← kindAhead_succ]
    exact h.kind _
  · rw [tokenAt_advance, tokenAt_advance]
    exact h.text _
  · rw [tokenAt_advance, tokenAt_advance]
    exact h.start _
  · rw [tokenAt_advance, tokenAt_advance]
    exact h.gap _ (by omega) (by omega)
  · rw [← kindAhead_succ, h.file]
    omega
  · rw [advance_before hahead, advance_before hahead']
    exact congrArg some (h.kind 0)

theorem advanceBy (h : Twins top S c c') (n : Nat) :
    Twins top S (c.advanceBy n) (c'.advanceBy n) := by
  induction n generalizing c c' with
  | zero => exact h
  | succ n ih => exact ih h.advance

theorem advanceBy_left_le (c : Cursor) (n : Nat) : (c.advanceBy n).left ≤ c.left := by
  induction n generalizing c with
  | zero => exact Nat.le_refl _
  | succ n ih => exact Nat.le_trans (ih c.advance) c.advance_left_le

theorem newline_eq (h : Twins top S c c') (hlt : c.left < top) :
    c.newlineBefore = c'.newlineBefore := by
  have hkind : c.token.kind = c'.token.kind := h.kind 0
  rw [newlineBefore, newlineBefore, Token.newlineBefore, Token.newlineBefore, ← hkind]
  by_cases hfile : c.kind = .endOfFile
  · rw [show c.token.kind = .endOfFile from hfile]
    rfl
  · have hpos : 0 < c.left := Nat.pos_of_ne_zero fun hzero => hfile ((h.file 0).2 (by omega))
    rw [token, token, h.gap 0 hpos (by omega)]

theorem check_eq (h : Twins top S c c') (kind : Token.Kind) : c.check kind = c'.check kind := by
  rw [check, check, Cursor.kind, Cursor.kind, h.kind]

theorem any_before_eq (h : Twins top S c c') (p : Token.Kind → Bool)
    (hp : ∀ kind, operandEnds.contains kind = false → p kind = false) :
    c.before.any (p ·.kind) = c'.before.any (p ·.kind) := by
  have hmap (c : Cursor) : c.before.any (p ·.kind) = (c.before.map Token.kind).any p := by
    cases c.before <;> rfl
  have hfresh {c : Cursor} (h : c.Fresh) : c.before.any (p ·.kind) = false := by
    cases hbefore : c.before with
    | none => rfl
    | some t => exact hp _ (h t (by simp [hbefore]))
  obtain ⟨-, hkinds⟩ | ⟨hc, hc'⟩ := h.before
  · rw [hmap, hmap, hkinds]
  · rw [hfresh hc, hfresh hc']

theorem atStatementBreak_eq (c : Cursor) : c.atStatementBreak =
    (c.newlineBefore && (c.check .word || c.check .atSign) &&
      c.before.any (operandEnds.contains ·.kind)) := by
  rw [atStatementBreak]
  cases c.before <;> rfl

theorem break_eq (h : Twins top S c c') : c.atStatementBreak = c'.atStatementBreak := by
  have hbefore := h.any_before_eq operandEnds.contains fun _ hkind => hkind
  rw [atStatementBreak_eq, atStatementBreak_eq, hbefore, h.check_eq, h.check_eq]
  obtain ⟨hlt, -⟩ | ⟨-, hc'⟩ := h.before
  · rw [h.newline_eq hlt]
  · have hnone : c'.before.any (operandEnds.contains ·.kind) = false := by
      cases heq : c'.before with
      | none => rfl
      | some t => exact hc' t (by simp [heq])
    rw [hnone, Bool.and_false, Bool.and_false]

theorem arrow_eq (h : Twins top S c c') : Grammar.atArrowParams c = Grammar.atArrowParams c' := by
  rw [Grammar.atArrowParams, Grammar.atArrowParams, h.check_eq,
    Group.closingIndex?_congr h.map_kind]
  simp only [h.kind]

theorem slice_eq (hs : Twins top S c c') (h : Twins top S d d') :
    c.textSince d = c'.textSince d' := by
  have hleft : c.ahead.length - d.ahead.length = c'.ahead.length - d'.ahead.length := by
    have hc := hs.left
    have hd := h.left
    simp only [Cursor.left] at hc hd
    omega
  have hspelled := hs.map_spelled
  have hlength := hs.left
  have htext := hs.text 0
  rw [textSince, textSince, hleft]
  generalize c'.ahead.length - d'.ahead.length = k
  rw [Cursor.left, Cursor.left] at hlength
  cases hc : c.ahead with
  | nil =>
      rw [hc] at hlength
      rw [List.length_eq_zero_iff.1 hlength.symm]
  | cons t ts =>
      cases hc' : c'.ahead with
      | nil =>
          rw [hc, hc'] at hlength
          cases hlength
      | cons t' ts' =>
          cases k with
          | zero => rfl
          | succ k =>
              rw [hc, hc', List.tail_cons, List.tail_cons] at hspelled
              have htext : t.text = t'.text := by simpa [tokenAt, hc, hc'] using htext
              simp only [List.take_succ_cons, List.map_take, htext, hspelled]

/-- Errors of the same cause at corresponding places. -/
def Fault (S : Nat → Nat → Prop) (e e' : SyntaxError) : Prop :=
  e.cause = e'.cause ∧ S e.offset e'.offset

theorem fail_agrees {α : Type} {Q : α → α → Cursor → Cursor → Prop} (h : Twins top S c c')
    (cause : Found → SyntaxError.Cause) :
    Agree (Fault S) (fail cause) (fail cause) c c' Q := by
  have hkind : c.kind = c'.kind := h.kind 0
  have htext : c.text = c'.text := h.text 0
  unfold Agree fail
  rw [hkind, htext]
  exact ⟨rfl, h.start 0⟩

theorem passGroup_agrees (h : Twins top S c c') (hopens : c.kind.closing?.isSome = true) :
    Agree (Fault S) passGroup passGroup c c' fun _ _ d d' => Twins top S d d' ∧
        d.left < c.left := by
  obtain ⟨closer, hcloser⟩ := Option.isSome_iff_exists.1 hopens
  have hkind : c.kind = c'.kind := h.kind 0
  have hahead : c.ahead ≠ [] := mt h.ahead_iff.2 fun heof => by rw [heof] at hopens; cases hopens
  have hlt := advance_left hahead
  have hlength := Group.length_congr (w := [closer]) h.advance.map_kind
  unfold Agree passGroup
  rw [← hkind, hcloser]
  simp only [← hlength]
  cases Group.length [closer] c.advance.ahead with
  | ok n =>
      have hle := advanceBy_left_le c.advance n
      exact ⟨h.advance.advanceBy n, by omega⟩
  | error fault =>
      cases fault with
      | unclosed => exact ⟨rfl, h.start 0⟩
      | mismatched n =>
          exact (h.advance.advanceBy n).fail_agrees
            (Q := fun (_ _ : Unit) d d' => Twins top S d d' ∧ d.left < c.left) .mismatchedBracket

theorem left_lt (h : Twins top S c c') (hd : Twins top S d d') (hlt : d.left < c.left) :
    d'.left < c'.left := by rwa [← h.left, ← hd.left]

theorem passToBody_agrees (h : Twins top S c c') :
    Agree (Fault S) Grammar.passToBody Grammar.passToBody c c' fun _ _ d d' =>
      Twins top S d d' ∧ d.left < c.left :=
  Grammar.passToBody_agrees_of (N := Twins top S) left_lt (fun h => h.kind 0)
    (fun h _ => ⟨rfl, h.start 0⟩)
    (fun {c _} h hkind _ => ⟨h.advance, by
      have hlt := advance_left (mt h.ahead_iff.2 hkind)
      omega⟩)
    (fun h hgroup => h.passGroup_agrees (by obtain hkind | hkind := hgroup <;> rw [hkind] <;> rfl))
    (fun h hbrace => h.passGroup_agrees (by rw [hbrace]; rfl)) h

/-- Runs over tokens that look alike. -/
def pairing (top : Nat) (S : Nat → Nat → Prop) : Pairing where
  toOpenings := Operands.anywhere.whole
  near _ := Twins top S
  ended := Twins top S
  horizon := 0
  top := top
  faults := Fault S
  ended_of_near h := h
  kind_eq h := h.kind 0
  text_eq h := h.text 0
  file_iff h := h.ahead_iff
  left_le h := h.le
  left_lt := left_lt
  newline_eq := newline_eq
  decorated _ _ := trivial
  break_eq := break_eq
  wordBefore_eq h := h.any_before_eq (· == .word) fun _ => ne_word_of_operandEnds
  slice_eq h hd _ _ := h.slice_eq hd
  arrow_eq := arrow_eq
  plain h _ := h.advance
  semicolon h _ _ := h.advance
  last h _ := h.advance
  opens h _ _ := h.advance
  closes h _ _ := h.advance
  not_ready _ h := h.elim
  group := passGroup_agrees
  body h _ _ := h.passToBody_agrees
  fault h _ := ⟨rfl, h.start 0⟩

end Twins

end Cursor

end HandlerWeave.Source
