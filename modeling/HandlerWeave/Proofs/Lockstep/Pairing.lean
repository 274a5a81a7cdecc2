import HandlerWeave.Proofs.Source.Keeps

/-!
Two runs of the grammar side by side. A pairing says which places of one run correspond to which
places of another, and its laws say what has to be known of such places for every decision of the
grammar to fall alike in both runs. The grammar is blind to whatever a pairing leaves open: what
follows a statement, where a text starts, or what stands inside a group.
-/
namespace HandlerWeave.Source

namespace Token

def headKinds : List Kind :=
  [.less, .comma, .leftParen, .colon, .arrow, .pipe, .ampersand, .leftBracket, .question, .equals,
    .ellipsis, .minus, .plus]

def headWords : List String := ["extends", "is", "as", "satisfies", "keyof", "unique", "readonly"]

/-- Types and expressions start behind such a token, and nowhere else. -/
def heads (t : Token) : Bool :=
  headKinds.contains t.kind || (t.kind == .word && headWords.contains t.text)

/-- An operand can start behind a token of this kind, `inner` being what closes the innermost
bracket around it. A comma stands between operands only in parentheses and brackets. -/
def Kind.leads (inner : Option Kind) (kind : Kind) : Bool :=
  [.leftParen, .leftBracket, .ellipsis, .colon, .minus, .plus, .equals].contains kind ||
    (kind == .comma && (inner == some .rightParen || inner == some .rightBracket))

theorem heads_of_leads {inner : Option Kind} {t : Token} (h : t.kind.leads inner = true) :
    t.heads = true := by
  refine Bool.or_eq_true_iff.2 (.inl ?_)
  revert h
  cases t.kind <;> simp [Kind.leads, headKinds]

/-- The token is no bracket and ends neither a statement nor the file. -/
def Kind.isPlain (kind : Kind) : Bool :=
  kind.closing?.isNone && !kind.isClosing && kind != .semicolon && kind != .endOfFile

theorem Kind.isPlain_of_no_bracket {kind : Kind} (hfile : kind ≠ .endOfFile)
    (hsemicolon : kind ≠ .semicolon) (hparen : kind ≠ .leftParen) (hbracket : kind ≠ .leftBracket)
    (hbrace : kind ≠ .leftBrace) (hparen' : kind ≠ .rightParen) (hbracket' : kind ≠ .rightBracket)
    (hbrace' : kind ≠ .rightBrace) : kind.isPlain = true := by
  revert hfile hsemicolon hparen hbracket hbrace hparen' hbracket' hbrace'
  cases kind <;> simp [isPlain, closing?, isClosing]

end Token

namespace Cursor

/-- How many tokens lie ahead. -/
def left (c : Cursor) : Nat := c.ahead.length

/-- A type or an expression can start here. -/
def Headed (c : Cursor) : Prop := c.before.any Token.heads = true

/-- An operand can start here, when these kinds close the brackets around the place. -/
def Operand (σ : List Token.Kind) (c : Cursor) : Prop :=
  c.before.any (·.kind.leads σ.head?) = true

theorem Operand.headed {σ : List Token.Kind} {c : Cursor} (h : c.Operand σ) : c.Headed := by
  unfold Operand at h
  unfold Headed
  cases hbefore : c.before with
  | none => rw [hbefore] at h; cases h
  | some t => rw [hbefore] at h; exact Token.heads_of_leads h

def atBodyWord (c : Cursor) : Bool := c.seesAnyWord ["function", "class"]

theorem advance_left {c : Cursor} (h : c.ahead ≠ []) : c.advance.left + 1 = c.left := by
  rw [advance]
  split
  next hc => exact absurd hc h
  next hc => simp [left, hc]

theorem advance_left_le (c : Cursor) : c.advance.left ≤ c.left := by
  by_cases h : c.ahead = []
  · rw [advance]
    simp [h]
  · exact Nat.le_of_succ_le (Nat.le_of_eq (advance_left h))

theorem advance_before {c : Cursor} (h : c.ahead ≠ []) : c.advance.before = some c.token := by
  rw [advance]
  split
  next hc => exact absurd hc h
  next hc => simp [token, tokenAt, hc]

theorem kindAhead_succ (c : Cursor) (n : Nat) : c.kindAhead (n + 1) = c.advance.kindAhead n := by
  rw [kindAhead, kindAhead, tokenAt_advance]

theorem wordAt_succ (c : Cursor) (n : Nat) (word : String) :
    c.wordAt (n + 1) word = c.advance.wordAt n word := by
  rw [wordAt, wordAt, tokenAt_advance]

theorem isWord_token (c : Cursor) (word : String) :
    c.seesWord word = (c.kind == .word && c.text == word) := rfl

theorem kind_of_seesWord {c : Cursor} {word : String} (h : c.seesWord word = true) :
    c.kind = .word := by
  rw [isWord_token, Bool.and_eq_true, beq_iff_eq] at h
  exact h.1

theorem text_of_seesWord {c : Cursor} {word : String} (h : c.seesWord word = true) :
    c.text = word := by
  rw [isWord_token, Bool.and_eq_true, beq_iff_eq, beq_iff_eq] at h
  exact h.2

theorem kind_of_seesAnyWord {c : Cursor} {words : List String} (h : c.seesAnyWord words = true) :
    c.kind = .word := by
  obtain ⟨word, -, hword⟩ := List.any_eq_true.1 h
  exact kind_of_seesWord hword

theorem kind_of_check {c : Cursor} {kind : Token.Kind} (h : c.check kind = true) :
    c.kind = kind := eq_of_beq h

end Cursor

variable {α β : Type} {F : SyntaxError → SyntaxError → Prop}

/-- Two runs end alike: with results and places for which `Q` holds, or with errors that go
together. -/
def Agree (F : SyntaxError → SyntaxError → Prop) (p p' : Parser α) (c c' : Cursor)
    (Q : α → α → Cursor → Cursor → Prop) : Prop :=
  match p c, p' c' with
  | .ok (a, d), .ok (a', d') => Q a a' d d'
  | .error e, .error e' => F e e'
  | _, _ => False

namespace Agree

variable {c c' : Cursor} {p p' q q' : Parser α} {f f' : α → Parser β}
    {Q R : α → α → Cursor → Cursor → Prop}
  {S : β → β → Cursor → Cursor → Prop}

theorem mono (h : Agree F p p' c c' Q) (hQR : ∀ a a' d d', Q a a' d d' → R a a' d d') :
    Agree F p p' c c' R := by
  unfold Agree at h ⊢
  split at h
  · exact hQR _ _ _ _ h
  · exact h
  · exact h.elim

/-- What the first run gives, the second one gives too. -/
theorem outcome {a : α} {d : Cursor} (h : Agree F p p' c c' Q) (hp : p c = .ok (a, d)) :
    ∃ a' d', p' c' = .ok (a', d') ∧ Q a a' d d' := by
  unfold Agree at h
  rw [hp] at h
  split at h
  next hok hok' =>
    obtain ⟨rfl, rfl⟩ := Prod.mk.inj (Except.ok.inj hok)
    exact ⟨_, _, hok', h⟩
  next hok _ => cases hok
  · exact h.elim

theorem anyFault (h : Agree F p p' c c' Q) : Agree (fun _ _ => True) p p' c c' Q := by
  unfold Agree at h ⊢
  split at h
  · exact h
  · trivial
  · exact h.elim

theorem bind (hp : Agree F p p' c c' Q)
    (hf : ∀ a a' d d', Q a a' d d' → Agree F (f a) (f' a') d d' S) :
    Agree F (p >>= f) (p' >>= f') c c' S := by
  have hbind (p : Parser α) (f : α → Parser β) (c : Cursor) :
      (p >>= f) c = p c >>= fun x => f x.1 x.2 := rfl
  unfold Agree at hp
  rw [Agree, hbind, hbind]
  split at hp
  next h h' =>
    rw [h, h']
    exact hf _ _ _ _ hp
  next h h' =>
    rw [h, h']
    exact hp
  · exact hp.elim

theorem pure {a a' : α} (h : Q a a' c c') : Agree F (pure a) (pure a') c c' Q := h

theorem ite {b b' : Prop} [Decidable b] [Decidable b'] (hb : b ↔ b')
    (hp : b → Agree F p p' c c' Q) (hq : ¬ b → Agree F q q' c c' Q) :
    Agree F (if b then p else q) (if b' then p' else q') c c' Q := by
  by_cases h : b
  · rw [if_pos h, if_pos (hb.1 h)]
    exact hp h
  · rw [if_neg h, if_neg (mt hb.2 h)]
    exact hq h

theorem look {f f' : Cursor → Parser β} (h : Agree F (f c) (f' c') c c' S) :
    Agree F (get >>= f) (get >>= f') c c' S := h

theorem advance {f f' : Unit → Parser β}
    (h : Agree F (f ()) (f' ()) c.advance c'.advance S) :
    Agree F (Parser.advance >>= f) (Parser.advance >>= f') c c' S := h

theorem takeText {f f' : String → Parser β}
    (h : Agree F (f c.text) (f' c'.text) c.advance c'.advance S) :
    Agree F (Parser.takeText >>= f) (Parser.takeText >>= f') c c' S := h

theorem map {g g' : α → β} (hp : Agree F p p' c c' Q)
    (h : ∀ a a' d d', Q a a' d d' → S (g a) (g' a') d d') :
    Agree F (g <$> p) (g' <$> p') c c' S := by
  rw [map_eq_pure_bind, map_eq_pure_bind]
  exact hp.bind fun a a' d d' hd => .pure (h a a' d d' hd)

end Agree

/-- Where expressions may start. The kinds are those that close the brackets around the place,
innermost first. -/
structure Operands where
  /-- Expressions may stand in the text. -/
  exprs : Prop
  operand : List Token.Kind → Cursor → Prop
  operand_of {σ c} : exprs → c.Operand σ → operand σ c
  exprs_of_operand {σ c} : operand σ c → exprs

/-- Expressions are taken to start anywhere. -/
def Operands.anywhere : Operands := ⟨True, fun _ _ => True, fun _ _ => trivial, fun _ => trivial⟩

/-- Expressions start at operands only. -/
def Operands.led (exprs : Prop) : Operands :=
  ⟨exprs, fun σ c => exprs ∧ c.Operand σ, fun hexprs h => ⟨hexprs, h⟩, fun h => h.1⟩

/-- Where types and expressions may start, and at which braces none does. -/
structure Openings extends Operands where
  /-- A brace that only a skipped group takes the first run past. -/
  hole : Cursor → Prop
  /-- A type or an expression may start here. -/
  ready : Cursor → Prop
  ready_of_headed {c} : c.Headed → ready c
  ready_of_operand {σ c} : operand σ c → ready c
  hole_kind {c} : hole c → c.kind = .leftBrace

/-- There are no holes. -/
def Operands.whole (operands : Operands) : Openings where
  toOperands := operands
  hole _ := False
  ready _ := True
  ready_of_headed _ := trivial
  ready_of_operand _ := trivial
  hole_kind h := h.elim

/-- Which places of two runs correspond. -/
structure Pairing extends Openings where
  /-- The kinds are those that close the brackets around the place, innermost first. -/
  near : List Token.Kind → Cursor → Cursor → Prop
  /-- Statements may have ended at these places. -/
  ended : Cursor → Cursor → Prop
  /-- While more tokens than this lie ahead of the first run, the trees are the same. -/
  horizon : Nat
  /-- How many tokens lie ahead at most. -/
  top : Nat
  faults : SyntaxError → SyntaxError → Prop
  ended_of_near {c c'} : near [] c c' → ended c c'
  kind_eq {σ c c'} : near σ c c' → c.kind = c'.kind
  text_eq {σ c c'} : near σ c c' → c.text = c'.text
  file_iff {σ c c'} : near σ c c' → (c.kind = .endOfFile ↔ c.ahead = [])
  left_le {σ c c'} : near σ c c' → c.left ≤ top
  left_lt {σ τ c c' d d'} : near σ c c' → near τ d d' → d.left < c.left → d'.left < c'.left
  newline_eq {σ c c'} : near σ c c' → c.left < top → c.newlineBefore = c'.newlineBefore
  break_eq {σ c c'} : near σ c c' → c.atStatementBreak = c'.atStatementBreak
  /-- The arguments of a decorator are the only expressions in a type. -/
  decorated {σ c c'} : near σ c c' → c.kind = .atSign → exprs
  wordBefore_eq {σ c c'} : near σ c c' →
    c.before.any (·.kind == .word) = c'.before.any (·.kind == .word)
  slice_eq {σ τ c c' d d'} : near σ c c' → near τ d d' → d.left ≤ c.left → horizon ≤ d.left →
    c.textSince d = c'.textSince d'
  arrow_eq {σ c c'} : near σ c c' → Grammar.atArrowParams c = Grammar.atArrowParams c'
  plain {σ c c'} : near σ c c' → c.kind.isPlain = true → near σ c.advance c'.advance
  semicolon {σ c c'} : near σ c c' → c.kind = .semicolon → σ ≠ [] → near σ c.advance c'.advance
  last {c c'} : near [] c c' → c.kind = .semicolon → ended c.advance c'.advance
  opens {σ c c' kind} : near σ c c' → c.kind.closing? = some kind → ¬ hole c →
    near (kind :: σ) c.advance c'.advance
  closes {σ c c' kind} : near (kind :: σ) c c' → kind.isClosing = true → c.kind = kind →
    near σ c.advance c'.advance
  not_ready {σ c c'} : near σ c c' → hole c → ¬ ready c
  group {σ c c'} : near σ c c' → c.kind.closing?.isSome = true →
    Agree faults Parser.passGroup Parser.passGroup c c' fun _ _ d d' =>
      near σ d d' ∧ d.left < c.left
  body {σ c c'} : near σ c c' → operand σ c → c.atBodyWord = true →
    Agree faults Grammar.passToBody Grammar.passToBody c c' fun _ _ d d' =>
      near σ d d' ∧ d.left < c.left
  fault {σ c c' cause} : near σ c c' → cause ≠ .tooDeep →
    faults ⟨cause, c.token.start⟩ ⟨cause, c'.token.start⟩

end HandlerWeave.Source
