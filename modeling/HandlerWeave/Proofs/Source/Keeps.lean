import HandlerWeave.Proofs.Source.Lexemes
import HandlerWeave.Source.Grammar.Statements

/-!
What holds of every outcome of a parser that runs over some tokens: it stops between two of them,
fails at one of them, and its result has a property. Each way to put parsers together has its rule.
-/
namespace HandlerWeave.Source

/-- The cursor stands among these tokens. -/
structure Cursor.Within (tokens : List Token) (c : Cursor) : Prop where
  ahead : ∀ t ∈ c.ahead, t ∈ tokens
  final : c.final ∈ tokens

/-- Among these tokens the parser either stops with a result and a place for which `Q` holds, or
fails at one of the tokens. -/
def Ensures {α : Type} (tokens : List Token) (p : Parser α) (c : Cursor)
    (Q : α → Cursor → Prop) : Prop :=
  c.Within tokens → match p c with
    | .ok (a, d) => d.Within tokens ∧ Q a d
    | .error e => ∃ t ∈ tokens, e.offset = t.start

/-- Wherever the parser starts, `Q` holds of its result. -/
def Keeps {α : Type} (tokens : List Token) (p : Parser α) (Q : α → Prop) : Prop :=
  ∀ c, Ensures tokens p c fun a _ => Q a

/-- A property of the value of an option, if it has one. -/
def OfSome {α : Type} (Q : α → Prop) (o : Option α) : Prop := ∀ a ∈ o, Q a

variable {α β σ : Type} {tokens : List Token} {c d : Cursor} {p q : Parser α} {f : α → Parser β}
  {Q : α → Prop} {R : β → Prop} {P : α → Cursor → Prop}

@[simp] theorem ofSome_none : OfSome Q none := fun _ h => nomatch h

@[simp] theorem ofSome_some {a : α} : OfSome Q (some a) ↔ Q a := by
  simp [OfSome]

theorem Cursor.tokenAt_advance (c : Cursor) (n : Nat) :
    c.advance.tokenAt n = c.tokenAt (n + 1) := by
  rw [advance]
  split
  next h => simp [tokenAt, h]
  next h => simp [tokenAt, h]

namespace Cursor.Within

theorem tokenAt (h : c.Within tokens) (n : Nat) : c.tokenAt n ∈ tokens := by
  rw [Cursor.tokenAt]
  cases hn : c.ahead[n]? with
  | none => exact h.final
  | some t => exact h.ahead t (List.mem_of_getElem? hn)

theorem advance (h : c.Within tokens) : c.advance.Within tokens := by
  rw [Cursor.advance]
  cases hc : c.ahead with
  | nil => exact h
  | cons t rest => exact ⟨fun t ht => h.ahead t (by simp [hc, ht]), h.final⟩

theorem advanceBy (h : c.Within tokens) (n : Nat) : (c.advanceBy n).Within tokens := by
  induction n generalizing c with
  | zero => exact h
  | succ n ih => exact ih h.advance

end Cursor.Within

namespace Ensures

theorem mono {S : α → Cursor → Prop} (h : Ensures tokens p c P) (hPS : ∀ a d, P a d → S a d) :
    Ensures tokens p c S := by
  intro hc
  have hp := h hc
  revert hp
  cases p c with
  | error e => exact id
  | ok out => exact fun hp => ⟨hp.1, hPS _ _ hp.2⟩

theorem bind {S : β → Cursor → Prop} (hp : Ensures tokens p c P)
    (hf : ∀ a d, P a d → Ensures tokens (f a) d S) : Ensures tokens (p >>= f) c S := by
  intro hc
  have h := hp hc
  rw [show (p >>= f) c = p c >>= fun x => f x.1 x.2 from rfl]
  revert h
  cases p c with
  | error e => exact id
  | ok out => exact fun h => hf out.1 out.2 h.2 h.1

theorem pure {a : α} (h : P a c) : Ensures tokens (pure a) c P := fun hc => ⟨hc, h⟩

theorem look {S : β → Cursor → Prop} {f : Cursor → Parser β} (h : Ensures tokens (f c) c S) :
    Ensures tokens (get >>= f) c S := h

theorem ite {b : Prop} [Decidable b] (hp : b → Ensures tokens p c P)
    (hq : ¬ b → Ensures tokens q c P) : Ensures tokens (if b then p else q) c P := by
  by_cases hb : b
  · rw [if_pos hb]
    exact hp hb
  · rw [if_neg hb]
    exact hq hb

theorem returns {a : α} (hp : p c = .ok (a, d)) (hd : c.Within tokens → d.Within tokens)
    (h : c.Within tokens → P a d) : Ensures tokens p c P := by
  intro hc
  rw [hp]
  exact ⟨hd hc, h hc⟩

theorem fails {cause : SyntaxError.Cause} (hp : p c = .error ⟨cause, c.token.start⟩) :
    Ensures tokens p c P := by
  intro hc
  rw [hp]
  exact ⟨_, hc.tokenAt 0, rfl⟩

end Ensures

namespace Keeps

theorem mono {S : α → Prop} (h : Keeps tokens p Q) (hQS : ∀ a, Q a → S a) : Keeps tokens p S :=
  fun c => (h c).mono fun a _ => hQS a

theorem bind (hp : Keeps tokens p Q) (hf : ∀ a, Q a → Keeps tokens (f a) R) :
    Keeps tokens (p >>= f) R := fun c => (hp c).bind fun a d ha => hf a ha d

theorem map {g : α → β} (hp : Keeps tokens p Q) (h : ∀ a, Q a → R (g a)) :
    Keeps tokens (g <$> p) R := by
  rw [map_eq_pure_bind]
  exact hp.bind fun a ha c => Ensures.pure (h a ha)

theorem pure {a : α} (h : Q a) : Keeps tokens (pure a) Q := fun _ => .pure h

/-- The parser that a place selects may know of the place that it starts there. -/
theorem lookHere {f : Cursor → Parser β} (h : ∀ c, Ensures tokens (f c) c fun b _ => R b) :
    Keeps tokens (get >>= f) R := fun c => .look (h c)

theorem look {f : Cursor → Parser β} (h : ∀ c, Keeps tokens (f c) R) :
    Keeps tokens (get >>= f) R := lookHere fun c => h c c

theorem any (h : Keeps tokens p Q) : Keeps tokens p fun _ => True := h.mono fun _ _ => trivial

theorem ite {b : Prop} [Decidable b] (hp : b → Keeps tokens p Q) (hq : ¬ b → Keeps tokens q Q) :
    Keeps tokens (if b then p else q) Q := fun c => .ite (fun h => hp h c) fun h => hq h c

theorem fails (hp : ∀ c, ∃ cause, p c = .error ⟨cause, c.token.start⟩) : Keeps tokens p Q := by
  intro c
  obtain ⟨cause, h⟩ := hp c
  exact .fails h

end Keeps

namespace Parser

theorem advance_keeps : Keeps tokens advance fun _ => True := fun _ =>
  .returns rfl Cursor.Within.advance fun _ => trivial

theorem fail_keeps {cause : Found → SyntaxError.Cause} : Keeps tokens (fail cause) Q :=
  .fails fun _ => ⟨_, rfl⟩

theorem tooDeep_keeps : Keeps tokens tooDeep Q := .fails fun _ => ⟨_, rfl⟩

theorem takeKind_keeps {kind : Token.Kind} : Keeps tokens (takeKind kind) fun _ => True := by
  intro c
  cases h : c.check kind with
  | true => exact .returns (if_pos h) Cursor.Within.advance fun _ => trivial
  | false => exact .returns (if_neg (by simp [h])) id fun _ => trivial

theorem takeWord_ensures {word : String} :
    Ensures tokens (takeWord word) c fun taken _ => taken = c.seesWord word := by
  cases h : c.seesWord word with
  | true => exact .returns (if_pos h) Cursor.Within.advance fun _ => rfl
  | false => exact .returns (if_neg (by simp [h])) id fun _ => rfl

theorem takeWord_keeps {word : String} : Keeps tokens (takeWord word) fun _ => True := fun _ =>
  takeWord_ensures.mono fun _ _ _ => trivial

theorem require_keeps {kind : Token.Kind} {what : String} :
    Keeps tokens (require kind what) fun _ => True :=
  takeKind_keeps.bind fun _ _ => .ite (fun _ => fail_keeps) fun _ => .pure trivial

theorem requireWord_keeps {word : String} : Keeps tokens (requireWord word) fun _ => True :=
  takeWord_keeps.bind fun _ _ => .ite (fun _ => fail_keeps) fun _ => .pure trivial

theorem takeText_ensures {S : String → Prop} (h : c.Within tokens → S c.text) :
    Ensures tokens takeText c fun a _ => S a := .returns rfl Cursor.Within.advance h

theorem takeText_keeps : Keeps tokens takeText fun _ => True := fun _ =>
  takeText_ensures fun _ => trivial

theorem textSince_keeps {start : Cursor} : Keeps tokens (textSince start) fun _ => True :=
  fun _ => .returns rfl id fun _ => trivial

theorem passGroup_keeps : Keeps tokens passGroup fun _ => True := by
  intro c
  cases hkind : c.kind.closing? with
  | none => exact .fails (by simp only [passGroup, hkind]; rfl)
  | some closer =>
      cases hlength : Group.length [closer] c.advance.ahead with
      | ok n =>
          exact .returns (by simp only [passGroup, hkind, hlength]; rfl)
            (fun hc => hc.advance.advanceBy n) fun _ => trivial
      | error fault =>
          cases fault with
          | unclosed => exact .fails (by simp only [passGroup, hkind, hlength]; rfl)
          | mismatched n =>
              intro hc
              have hfail : passGroup c = fail .mismatchedBracket (c.advance.advanceBy n) := by
                simp only [passGroup, hkind, hlength]
              rw [hfail]
              exact ⟨_, (hc.advance.advanceBy n).tokenAt 0, rfl⟩

theorem many_keeps {step : Parser (Option α)} (h : Keeps tokens step (OfSome Q)) :
    Keeps tokens (many step) fun xs => ∀ a ∈ xs, Q a := by
  have hrounds : ∀ rounds, Keeps tokens (manyWithin step rounds) fun xs => ∀ a ∈ xs, Q a := by
    intro rounds
    induction rounds with
    | zero => exact tooDeep_keeps
    | succ rounds ih =>
        refine h.bind fun found hfound => ?_
        cases found with
        | none => exact .pure fun _ h => nomatch h
        | some a =>
            exact ih.bind fun xs hxs => .pure (List.forall_mem_cons.2 ⟨hfound a rfl, hxs⟩)
  exact fun c => hrounds _ c

/-- Where the step comes to nothing only at places of a kind, the loop ends at such a place. -/
theorem iterate_ensures {Q : σ → Prop} {D : Cursor → Prop} {step : σ → Parser (Option σ)}
    (h : ∀ s, Q s → ∀ c, Ensures tokens (step s) c fun found d => OfSome Q found ∧
      (found = none → D d)) {s : σ} (hs : Q s) (c : Cursor) :
    Ensures tokens (iterate step s) c fun s d => Q s ∧ D d := by
  have hrounds : ∀ rounds s, Q s → ∀ c,
      Ensures tokens (iterateWithin step rounds s) c fun s d => Q s ∧ D d := by
    intro rounds
    induction rounds with
    | zero => exact fun _ _ _ => .fails rfl
    | succ rounds ih =>
        intro s hs c
        refine (h s hs c).bind fun found d hfound => ?_
        cases found with
        | none => exact .pure ⟨hs, hfound.2 rfl⟩
        | some s => exact ih s (hfound.1 s rfl) d
  exact hrounds _ s hs c

theorem iterate_keeps {Q : σ → Prop} {step : σ → Parser (Option σ)}
    (h : ∀ s, Q s → Keeps tokens (step s) (OfSome Q)) {s : σ} (hs : Q s) :
    Keeps tokens (iterate step s) Q := fun c =>
  (iterate_ensures (D := fun _ => True)
    (fun s hs c => (h s hs c).mono fun _ _ ho => ⟨ho, fun _ => trivial⟩) hs c).mono
    fun _ _ hs => hs.1

theorem skipWhile_ensures {D : Cursor → Prop} {step : Parser Bool}
    (h : ∀ c, Ensures tokens step c fun more d => more = false → D d) (c : Cursor) :
    Ensures tokens (skipWhile step) c fun _ d => D d := by
  refine (iterate_ensures (Q := fun _ => True) (fun _ _ c => ?_) trivial c).mono
    fun _ _ hs => hs.2
  refine (h c).bind fun more d hmore => .pure ⟨fun _ _ => trivial, ?_⟩
  cases more with
  | false => exact fun _ => hmore rfl
  | true => exact fun h => nomatch h

theorem skipWhile_keeps {step : Parser Bool} (h : Keeps tokens step fun _ => True) :
    Keeps tokens (skipWhile step) fun _ => True :=
  skipWhile_ensures fun c => (h c).mono fun _ _ _ _ => trivial

theorem commaList_keeps {closer : Token.Kind} (h : Keeps tokens p Q) :
    Keeps tokens (commaList closer p) fun xs => ∀ a ∈ xs, Q a := by
  have hrounds : ∀ rounds,
      Keeps tokens (commaListWithin closer p rounds) fun xs => ∀ a ∈ xs, Q a := by
    intro rounds
    induction rounds with
    | zero => exact tooDeep_keeps
    | succ rounds ih =>
        refine .look fun c => .ite (fun _ => .pure (fun _ h => nomatch h)) fun _ => ?_
        refine h.bind fun a ha => takeKind_keeps.bind fun _ _ => .ite (fun _ => ?_) fun _ => ?_
        · exact ih.bind fun xs hxs => .pure (List.forall_mem_cons.2 ⟨ha, hxs⟩)
        · exact .pure (List.forall_mem_singleton.2 ha)
  exact fun c => hrounds _ c

theorem separated_keeps {separator : Token.Kind} (h : Keeps tokens p Q) :
    Keeps tokens (separated separator p) fun xs => xs ≠ [] ∧ ∀ a ∈ xs, Q a := by
  have hrounds : ∀ rounds,
      Keeps tokens (separatedWithin separator p rounds) fun xs => xs ≠ [] ∧ ∀ a ∈ xs, Q a := by
    intro rounds
    induction rounds with
    | zero => exact tooDeep_keeps
    | succ rounds ih =>
        refine h.bind fun a ha => takeKind_keeps.bind fun _ _ => .ite (fun _ => ?_) fun _ => ?_
        · exact ih.bind fun xs hxs =>
            .pure ⟨List.cons_ne_nil _ _, List.forall_mem_cons.2 ⟨ha, hxs.2⟩⟩
        · exact .pure ⟨List.cons_ne_nil _ _, List.forall_mem_singleton.2 ha⟩
  exact fun c => hrounds _ c

theorem after_keeps {kind : Token.Kind} (h : Keeps tokens p Q) :
    Keeps tokens (after kind p) (OfSome Q) :=
  takeKind_keeps.bind fun _ _ => .ite
    (fun _ => h.bind fun _ ha => .pure (ofSome_some.2 ha)) fun _ => .pure ofSome_none

end Parser

end HandlerWeave.Source
