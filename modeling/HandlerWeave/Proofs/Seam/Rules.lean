import HandlerWeave.Proofs.Lockstep.Fence

/-!
A text at the end of a file, and the same text in front of a token that goes on with nothing in it.
What the first run reads to some place of the text, the second run reads alike. Only the success of
the first run is carried over: where it fails for want of tokens, the second one may find some.
-/
namespace HandlerWeave.Source

open Source.Parser Source.Group

namespace Token

/-- Types and operands end in a token of such a kind. -/
def endKinds : List Kind :=
  [.word, .string, .template, .number, .rightParen, .rightBracket, .rightBrace, .greater]

/-- Outside of brackets a type starts behind such a token. -/
def leadsType (t : Token) : Bool :=
  [Kind.less, .comma, .colon, .arrow, .pipe, .ampersand, .question].contains t.kind ||
    (t.kind == .word &&
      ["extends", "is", "as", "satisfies", "keyof", "unique", "readonly"].contains t.text)

/-- The token `next` can be taken for more of a type that ends in `t` with `before` in front of it:
it names what `infer` binds, follows `abstract`, or makes the result of a function a predicate.
Where nothing stands in front of `t`, `alone` tells whether a type starts there. -/
def bindsNext (alone : Bool) (before : Option Token) (t next : Token) : Bool :=
  (before.elim alone leadsType &&
      ((t.isWord "infer" && next.kind == .word) || (t.isWord "abstract" && next.isWord "new"))) ||
    (before.any (·.kind == .arrow) && t.isWord "asserts" && next.kind == .word) ||
    (before.any (fun u => u.kind == .arrow || u.isWord "asserts") && t.kind == .word &&
      next.isWord "is")

/-- The token `next` can be taken for more of the type that these tokens end in, as the `extends` of
a condition or by what the type ends in. -/
def goesOn (alone : Bool) (tokens : List Token) (next : Token) : Bool :=
  next.isWord "extends" ||
    tokens.getLast?.any (bindsNext alone tokens.dropLast.getLast? · next)

/-- A token of this kind may follow a text. -/
def Kind.follows (kind : Kind) : Bool := [.semicolon, .rightBrace, .word].contains kind

/-- Neither the token behind the text nor the end of the file is of this kind. -/
def Kind.isInert (kind : Kind) : Bool := kind != .endOfFile && !kind.follows

end Token

/-- The tokens of a text, the token that follows in the second run, and what is behind that. -/
structure Seam where
  front : List Token
  file : Token
  next : Token
  more : List Token
  last : Token
  /-- The text is a type. -/
  alone : Bool
  file_kind : file.kind = .endOfFile
  front_kind : ∀ t ∈ front, t.kind ≠ .endOfFile
  bodied : TypeBodied front
  next_kind : next.kind.follows = true
  settled : Token.goesOn alone front next = false
  no_path : next.kind = .word → ∀ t ∈ front.getLast?, t.kind ≠ .dot

/-- What the first parser reads, the second one reads too, and then `Q` holds. -/
def Carries {α : Type} (p p' : Parser α) (c c' : Cursor) (Q : α → Cursor → Cursor → Prop) : Prop :=
  ∀ a d, p c = .ok (a, d) → ∃ d', p' c' = .ok (a, d') ∧ Q a d d'

variable {X : Seam} {α β ρ : Type} {c c' d d' e e' : Cursor} {passed : List Token} {m n : Nat}
  {kind closer : Token.Kind} {t : Token}

namespace Seam

def listing (X : Seam) : Listing := ⟨X.front, X.file, X.file_kind, X.front_kind⟩

/-- Both runs have these tokens of the text behind them. Where the second run starts nothing is
known of what it has passed. -/
structure Along (X : Seam) (passed : List Token) (c c' : Cursor) : Prop where
  front : X.front = passed ++ c.ahead
  here : c = .between passed c.ahead X.file
  ahead : c'.ahead = c.ahead ++ X.next :: X.more
  final : c'.final = X.last
  before : passed ≠ [] → c'.before = c.before

/-- Both runs stand at a place of the text outside of its brackets. -/
def Near (X : Seam) (c c' : Cursor) : Prop := ∃ passed, X.Along passed c c' ∧ Nested passed

/-- Both runs take a token. -/
structure Next (X : Seam) (c c' : Cursor) : Prop where
  near : X.Near c.advance c'.advance
  left : c.advance.left + 1 = c.left
  before : c.advance.before = some c.token

/-- Both runs stand behind a type or an operand, with fewer than `m` tokens ahead. -/
structure Meets (X : Seam) (m : Nat) (c c' : Cursor) : Prop where
  near : X.Near c c'
  left : c.left < m
  ends : c.before.any (Token.endKinds.contains ·.kind) = true

/-- A type can start here, or what starts here does not end the text with one token. -/
def Starts (X : Seam) (c : Cursor) : Prop :=
  2 ≤ c.left ∨ c.before.elim X.alone Token.leadsType = true

theorem Along.file_iff (h : X.Along passed c c') : c.kind = .endOfFile ↔ c.ahead = [] := by
  rw [h.here]
  constructor
  · intro hkind
    cases hahead : c.ahead with
    | nil => rfl
    | cons t ahead =>
        rw [hahead, Cursor.between_kind] at hkind
        exact absurd hkind (X.front_kind t (by rw [h.front, hahead]; simp))
  · intro hnil
    rw [Cursor.between_ahead] at hnil
    rw [hnil]
    exact X.file_kind

theorem Along.token_eq (h : X.Along passed c c') (hne : c.ahead ≠ []) : c.token = c'.token := by
  obtain ⟨t, ahead, hahead⟩ := List.exists_cons_of_ne_nil hne
  simp [Cursor.token, Cursor.tokenAt, h.ahead, hahead]

theorem Along.kind_end (h : X.Along passed c c') (hnil : c.ahead = []) :
    c.kind = .endOfFile ∧ c'.token = X.next := by
  refine ⟨h.file_iff.2 hnil, ?_⟩
  simp [Cursor.token, Cursor.tokenAt, h.ahead, hnil]

/-- Up to the token behind the text both runs see the same kinds, but for those of that token and of
the end of the file. -/
theorem Along.kindAhead_eq (h : X.Along passed c c') (hkind : kind.isInert = true)
    (hn : n ≤ c.left) : (c.kindAhead n == kind) = (c'.kindAhead n == kind) := by
  rw [Cursor.left] at hn
  obtain hlt | rfl := Nat.lt_or_eq_of_le hn
  · simp [Cursor.kindAhead, Cursor.tokenAt, h.ahead, List.getElem?_append_left hlt, hlt]
  · have hfile : c.kindAhead c.ahead.length = .endOfFile := by
      rw [h.here, Cursor.between_ahead]
      simp [Cursor.kindAhead, Cursor.tokenAt, Cursor.between, X.file_kind]
    have hnext : c'.kindAhead c.ahead.length = X.next.kind := by
      simp [Cursor.kindAhead, Cursor.tokenAt, h.ahead]
    have hinert : kind ≠ .endOfFile ∧ kind.follows = false := by
      simpa [Token.Kind.isInert] using hkind
    have hne : X.next.kind ≠ kind := fun heq => by
      have hfollows := X.next_kind
      rw [heq, hinert.2] at hfollows
      cases hfollows
    rw [hfile, hnext, beq_false_of_ne hinert.1.symm, beq_false_of_ne hne]

theorem Along.check_eq (h : X.Along passed c c') (hkind : kind.isInert = true) :
    c.check kind = c'.check kind := h.kindAhead_eq hkind (Nat.zero_le _)

theorem Along.advance (h : X.Along passed c c') (hne : c.ahead ≠ []) :
    X.Along (passed ++ [c.token]) c.advance c'.advance := by
  obtain ⟨t, ahead, hahead⟩ := List.exists_cons_of_ne_nil hne
  have hc : c = .between passed (t :: ahead) X.file := hahead ▸ h.here
  have hahead' : c'.ahead = t :: (ahead ++ X.next :: X.more) := by rw [h.ahead, hahead]; rfl
  have hadvance : c'.advance = ⟨some t, ahead ++ X.next :: X.more, X.last⟩ := by
    rw [Cursor.advance, hahead', h.final]
  have hfront := h.front
  rw [hahead] at hfront
  subst hc
  rw [hadvance, Cursor.between_advance, Cursor.between_token]
  exact ⟨by simp [hfront], rfl, rfl, rfl, fun _ => by simp⟩

/-- Once a token of the text is passed, all of the place is known in the second run too. -/
theorem Along.there (h : X.Along passed c c') (hne : passed ≠ []) :
    c' = .between passed (c.ahead ++ X.next :: X.more) X.last := by
  obtain ⟨before, ahead, final⟩ := c'
  have hbefore : before = c.before := h.before hne
  obtain rfl : ahead = c.ahead ++ X.next :: X.more := h.ahead
  obtain rfl : final = X.last := h.final
  rw [hbefore, h.here]
  rfl

theorem Along.between {ahead : List Token} (h : X.front = passed ++ ahead) :
    X.Along passed (.between passed ahead X.file)
      (.between passed (ahead ++ X.next :: X.more) X.last) := ⟨h, rfl, rfl, rfl, fun _ => rfl⟩

theorem Along.before_eq (h : X.Along passed c c') : c.before = passed.getLast? := by
  rw [h.here]
  rfl

/-- Both runs pass some tokens of the text. -/
theorem Along.advanceBy (h : X.Along passed c c') (hne : passed ≠ []) (hn : n ≤ c.ahead.length) :
    X.Along (passed ++ c.ahead.take n) (c.advanceBy n) (c'.advanceBy n) ∧
      (c.advanceBy n).left = c.left - n := by
  have hahead : c.advanceBy n =
      .between (passed ++ c.ahead.take n) (c.ahead.drop n) X.file := by
    rw [← Cursor.between_advanceBy_take hn, ← h.here]
  have hahead' : c'.advanceBy n = .between (passed ++ c.ahead.take n)
      (c.ahead.drop n ++ X.next :: X.more) X.last := by
    rw [h.there hne, Cursor.between_advanceBy_take (by simp; omega),
      List.take_append_of_le_length hn, List.drop_append_of_le_length hn]
  rw [hahead, hahead']
  refine ⟨.between ?_, List.length_drop⟩
  rw [List.append_assoc, List.take_append_drop, h.front]

theorem Near.file_iff (h : X.Near c c') : c.kind = .endOfFile ↔ c.ahead = [] := by
  obtain ⟨passed, halong, -⟩ := h
  exact halong.file_iff

theorem Near.stands (h : X.Near c c') (hfile : c.kind ≠ .endOfFile) : c.ahead ≠ [] :=
  mt h.file_iff.2 hfile

theorem Near.token_eq (h : X.Near c c') (hne : c.ahead ≠ []) : c.token = c'.token := by
  obtain ⟨passed, halong, -⟩ := h
  exact halong.token_eq hne

theorem Near.check_eq (h : X.Near c c') (hkind : kind.isInert = true) :
    c.check kind = c'.check kind := by
  obtain ⟨passed, halong, -⟩ := h
  exact halong.check_eq hkind

theorem Near.kind_eq (h : X.Near c c') (hne : c.ahead ≠ []) : c.kind = c'.kind :=
  congrArg Token.kind (h.token_eq hne)

theorem Near.text_eq (h : X.Near c c') (hne : c.ahead ≠ []) : c.text = c'.text :=
  congrArg Token.text (h.token_eq hne)

theorem Near.seesWord_eq (h : X.Near c c') (hne : c.ahead ≠ []) (word : String) :
    c.seesWord word = c'.seesWord word := congrArg (Token.isWord · word) (h.token_eq hne)

theorem Near.seesAnyWord_eq (h : X.Near c c') (hne : c.ahead ≠ []) (words : List String) :
    c.seesAnyWord words = c'.seesAnyWord words := by
  rw [Cursor.seesAnyWord, Cursor.seesAnyWord, funext (h.seesWord_eq hne)]

theorem Near.slice_eq (h : X.Near c c') (hd : X.Near d d') : c.textSince d = c'.textSince d' := by
  obtain ⟨_, halong, -⟩ := h
  obtain ⟨_, halong', -⟩ := hd
  have hcount : c.ahead.length + (X.next :: X.more).length -
      (d.ahead.length + (X.next :: X.more).length) = c.ahead.length - d.ahead.length :=
    Nat.add_sub_add_right ..
  rw [Cursor.textSince, Cursor.textSince, halong.ahead, halong'.ahead, List.length_append,
    List.length_append, hcount, List.take_append_of_le_length (Nat.sub_le _ _)]

theorem Near.nextOf (h : X.Near c c') (hne : c.ahead ≠ [])
    (hopens : c.kind.closing? = none) (hcloses : c.kind.isClosing = false) : X.Next c c' := by
  obtain ⟨passed, halong, hnested⟩ := h
  exact ⟨⟨_, halong.advance hne, Trail.open?_concat hnested (open1?_other hopens hcloses)⟩,
    Cursor.advance_left hne, Cursor.advance_before hne⟩

theorem Near.next (h : X.Near c c') (hplain : c.kind.isPlain = true) : X.Next c c' := by
  have hne := h.stands fun hfile => by rw [hfile] at hplain; cases hplain
  simp only [Token.Kind.isPlain, Bool.and_eq_true, Bool.not_eq_true',
    Option.isNone_iff_eq_none] at hplain
  exact h.nextOf hne hplain.1.1.1 hplain.1.1.2

theorem Near.takes (h : X.Near c c') (hkind : c.kind = kind) (hplain : kind.isPlain = true) :
    X.Next c c' := h.next (hkind ▸ hplain)

theorem Near.next_word (h : X.Near c c') (hkind : c.kind = .word) : X.Next c c' :=
  h.takes hkind rfl

theorem Next.meets (h : X.Next c c') (hends : Token.endKinds.contains c.kind = true) :
    X.Meets c.left c.advance c'.advance := by
  have hleft := h.left
  exact ⟨h.near, by omega, by rw [h.before]; exact hends⟩

theorem Next.starts (h : X.Next c c') (hleads : c.token.leadsType = true) :
    X.Starts c.advance := by
  refine .inr ?_
  rw [h.before]
  exact hleads

theorem Next.starts_kind (h : X.Next c c') (hkind : c.kind = kind)
    (hleads : [Token.Kind.less, .comma, .colon, .arrow, .pipe, .ampersand,
      .question].contains kind = true) : X.Starts c.advance := by
  subst hkind
  exact h.starts (Bool.or_eq_true_iff.2 (.inl hleads))

theorem Next.starts_word (h : X.Next c c') {word : String} (hword : c.seesWord word = true)
    (hleads : ["extends", "is", "as", "satisfies", "keyof", "unique", "readonly"].contains word =
      true) : X.Starts c.advance := by
  refine h.starts (Bool.or_eq_true_iff.2 (.inr (Bool.and_eq_true_iff.2 ⟨?_, ?_⟩)))
  · exact beq_iff_eq.2 (Cursor.kind_of_seesWord hword)
  · rw [← Cursor.text_of_seesWord hword] at hleads
    exact hleads

theorem Next.kindAhead_eq (h : X.Next c c') (hkind : kind.isInert = true) :
    (c.kindAhead 1 == kind) = (c'.kindAhead 1 == kind) := by
  rw [Cursor.kindAhead_succ, Cursor.kindAhead_succ]
  exact h.near.check_eq hkind

theorem Near.last (h : X.Near c c') (hne : c.ahead ≠ []) (hend : c.advance.ahead = []) :
    X.front.getLast? = some c.token ∧ X.front.dropLast.getLast? = c.before := by
  obtain ⟨passed, halong, -⟩ := h
  have hfront := (halong.advance hne).front
  rw [hend, List.append_nil] at hfront
  rw [hfront, halong.before_eq]
  simp

/-- The token behind the text is not taken for more of the type that the text ends in. -/
theorem Near.settled (h : X.Near c c') (hne : c.ahead ≠ []) (hend : c.advance.ahead = []) :
    Token.bindsNext X.alone c.before c.token X.next = false := by
  obtain ⟨hlast, hbefore⟩ := h.last hne hend
  have hsettled := X.settled
  rw [Token.goesOn, hlast, hbefore, Bool.or_eq_false_iff] at hsettled
  exact hsettled.2

theorem next_not_extends (X : Seam) : X.next.isWord "extends" = false := by
  have hsettled := X.settled
  rw [Token.goesOn, Bool.or_eq_false_iff] at hsettled
  exact hsettled.1

/-- Past a token both runs see a word, unless the token ends the text and a word follows it. -/
theorem Next.word_ahead_eq (h : X.Next c c')
    (hlast : c.advance.ahead = [] → X.next.kind ≠ .word) :
    (c.kindAhead 1 == .word) = (c'.kindAhead 1 == .word) := by
  rw [Cursor.kindAhead_succ, Cursor.kindAhead_succ]
  obtain ⟨passed, halong, -⟩ := h.near
  by_cases hend : c.advance.ahead = []
  · obtain ⟨hfile, hnext⟩ := halong.kind_end hend
    have hnext : c'.advance.kindAhead 0 = X.next.kind := congrArg Token.kind hnext
    have hfile : c.advance.kindAhead 0 = .endOfFile := hfile
    rw [hfile, hnext, beq_false_of_ne (hlast hend)]
    rfl
  · exact congrArg (·.kind == Token.Kind.word) (halong.token_eq hend)

theorem Next.wordAt_eq (h : X.Next c c') {word : String}
    (hlast : c.advance.ahead = [] → X.next.isWord word = false) :
    c.wordAt 1 word = c'.wordAt 1 word := by
  rw [Cursor.wordAt_succ, Cursor.wordAt_succ]
  obtain ⟨passed, halong, -⟩ := h.near
  by_cases hend : c.advance.ahead = []
  · obtain ⟨hfile, hnext⟩ := halong.kind_end hend
    have hnext : c'.advance.wordAt 0 word = X.next.isWord word :=
      congrArg (Token.isWord · word) hnext
    have hfile : c.advance.wordAt 0 word = false := by
      show c.advance.seesWord word = false
      rw [Cursor.isWord_token, hfile]
      rfl
    rw [hfile, hnext, hlast hend]
  · exact congrArg (Token.isWord · word) (halong.token_eq hend)

theorem Meets.mono (h : X.Meets m c c') (hle : m ≤ n) : X.Meets n c c' :=
  ⟨h.near, Nat.lt_of_lt_of_le h.left hle, h.ends⟩

end Seam

open Seam

namespace Carries

variable {p p' q q' : Parser α} {f f' : α → Parser β} {Q R : α → Cursor → Cursor → Prop}
  {S : β → Cursor → Cursor → Prop}

theorem mono (h : Carries p p' c c' Q) (hQR : ∀ a d d', Q a d d' → R a d d') :
    Carries p p' c c' R := by
  intro a d hp
  obtain ⟨d', hp', hQ⟩ := h a d hp
  exact ⟨d', hp', hQR _ _ _ hQ⟩

/-- What is known of the first run alone. -/
theorem also {K : α → Cursor → Prop} (h : Carries p p' c c' Q)
    (hK : ∀ a d, p c = .ok (a, d) → K a d) :
    Carries p p' c c' fun a d d' => Q a d d' ∧ K a d := by
  intro a d hp
  obtain ⟨d', hp', hQ⟩ := h a d hp
  exact ⟨d', hp', hQ, hK a d hp⟩

theorem bind (hp : Carries p p' c c' Q)
    (hf : ∀ a d d', Q a d d' → Carries (f a) (f' a) d d' S) :
    Carries (p >>= f) (p' >>= f') c c' S := by
  intro b e hrun
  obtain ⟨a, d, hpa, hfa⟩ := bind_eq_ok.1 hrun
  obtain ⟨d', hpa', hQ⟩ := hp a d hpa
  obtain ⟨e', hfa', hS⟩ := hf a d d' hQ b e hfa
  exact ⟨e', bind_eq_ok.2 ⟨a, d', hpa', hfa'⟩, hS⟩

theorem pure {a : α} (h : Q a c c') : Carries (pure a) (pure a) c c' Q := by
  rintro _ _ ⟨⟩
  exact ⟨c', rfl, h⟩

theorem look {f f' : Cursor → Parser β} (h : Carries (f c) (f' c') c c' S) :
    Carries (get >>= f) (get >>= f') c c' S := h

theorem advance {f f' : Unit → Parser β} (h : Carries (f ()) (f' ()) c.advance c'.advance S) :
    Carries (Parser.advance >>= f) (Parser.advance >>= f') c c' S := h

theorem map {g : α → β} (hp : Carries p p' c c' Q) (h : ∀ a d d', Q a d d' → S (g a) d d') :
    Carries (g <$> p) (g <$> p') c c' S := by
  rw [map_eq_pure_bind, map_eq_pure_bind]
  exact hp.bind fun a d d' hd => .pure (h a d d' hd)

theorem cond {b b' : Bool} (hb : b = b') (hp : b = true → Carries p p' c c' Q)
    (hq : b = false → Carries q q' c c' Q) :
    Carries (if b = true then p else q) (if b' = true then p' else q') c c' Q := by
  subst hb
  cases b with
  | true => exact hp rfl
  | false => exact hq rfl

theorem vacuous (h : ∀ a d, p c ≠ .ok (a, d)) : Carries p p' c c' Q :=
  fun a d hp => absurd hp (h a d)

theorem fail {cause : Found → SyntaxError.Cause} : Carries (Parser.fail cause) p' c c' Q :=
  vacuous fun _ _ h => by cases h

theorem failed {cause : Found → SyntaxError.Cause} {f : α → Parser β} {q' : Parser β} :
    Carries (Parser.fail cause >>= f) q' c c' S :=
  vacuous fun _ _ h => by
    obtain ⟨_, _, hfail, -⟩ := bind_eq_ok.1 h
    cases hfail

/-- Where the first run takes the token at the end of the file it fails. -/
theorem takeKind {f f' : Bool → Parser β} (hcheck : c.check kind = c'.check kind)
    (hyes : c.kind = kind → Carries (f true) (f' true) c.advance c'.advance S)
    (hno : c.kind ≠ kind → Carries (f false) (f' false) c c' S) :
    Carries (Parser.takeKind kind >>= f) (Parser.takeKind kind >>= f') c c' S := by
  cases hc : c.check kind with
  | true =>
      have htrue {c : Cursor} (hc : c.check kind = true) :
          Parser.takeKind kind c = .ok (true, c.advance) := if_pos hc
      refine Carries.bind (Q := fun a d d' => a = true ∧ d = c.advance ∧ d' = c'.advance) ?_ ?_
      · intro a d hrun
        rw [htrue hc] at hrun
        cases hrun
        exact ⟨c'.advance, htrue (hcheck ▸ hc), rfl, rfl, rfl⟩
      · rintro _ _ _ ⟨rfl, rfl, rfl⟩
        exact hyes (Cursor.kind_of_check hc)
  | false =>
      have hfalse {c : Cursor} (hc : c.check kind = false) :
          Parser.takeKind kind c = .ok (false, c) := if_neg (by simp [hc])
      refine Carries.bind (Q := fun a d d' => a = false ∧ d = c ∧ d' = c') ?_ ?_
      · intro a d hrun
        rw [hfalse hc] at hrun
        cases hrun
        exact ⟨c', hfalse (hcheck ▸ hc), rfl, rfl, rfl⟩
      · rintro _ _ _ ⟨rfl, rfl, rfl⟩
        exact hno fun hkind => by simp [Cursor.check, hkind] at hc

theorem takeWord {f f' : Bool → Parser β} {word : String}
    (hsees : c.seesWord word = c'.seesWord word)
    (hyes : c.seesWord word = true → Carries (f true) (f' true) c.advance c'.advance S)
    (hno : c.seesWord word = false → Carries (f false) (f' false) c c' S) :
    Carries (Parser.takeWord word >>= f) (Parser.takeWord word >>= f') c c' S := by
  cases hc : c.seesWord word with
  | true =>
      have htrue {c : Cursor} (hc : c.seesWord word = true) :
          Parser.takeWord word c = .ok (true, c.advance) := if_pos hc
      refine Carries.bind (Q := fun a d d' => a = true ∧ d = c.advance ∧ d' = c'.advance) ?_ ?_
      · intro a d hrun
        rw [htrue hc] at hrun
        cases hrun
        exact ⟨c'.advance, htrue (hsees ▸ hc), rfl, rfl, rfl⟩
      · rintro _ _ _ ⟨rfl, rfl, rfl⟩
        exact hyes hc
  | false =>
      have hfalse {c : Cursor} (hc : c.seesWord word = false) :
          Parser.takeWord word c = .ok (false, c) := if_neg (by simp [hc])
      refine Carries.bind (Q := fun a d d' => a = false ∧ d = c ∧ d' = c') ?_ ?_
      · intro a d hrun
        rw [hfalse hc] at hrun
        cases hrun
        exact ⟨c', hfalse (hsees ▸ hc), rfl, rfl, rfl⟩
      · rintro _ _ _ ⟨rfl, rfl, rfl⟩
        exact hno hc

theorem require {f f' : Unit → Parser β} {what : String} (h : X.Near c c')
    (hinert : kind.isInert = true)
    (hf : c.kind = kind → Carries (f ()) (f' ()) c.advance c'.advance S) :
    Carries (Parser.require kind what >>= f) (Parser.require kind what >>= f') c c' S := by
  unfold Parser.require
  rw [bind_assoc, bind_assoc]
  exact .takeKind (h.check_eq hinert) hf fun _ => .failed

theorem word {what : String} (h : X.Near c c') :
    Carries (Parser.word what) (Parser.word what) c c' fun _ d d' => X.Meets c.left d d' := by
  have hword {c : Cursor} : Parser.word what c =
      (if c.check .word = true then Parser.takeText else Parser.fail (.expected what)) c := rfl
  intro a d hrun
  rw [hword] at hrun ⊢
  split at hrun
  next hcheck =>
    have hkind := Cursor.kind_of_check hcheck
    have hne := h.stands (by rw [hkind]; decide)
    have hcheck' : c'.check .word = true := by
      rw [Cursor.check, ← h.kind_eq hne, hkind]
      rfl
    rw [if_pos hcheck', Parser.takeText, ← h.text_eq hne]
    cases hrun
    exact ⟨_, rfl, (h.next_word hkind).meets (by rw [hkind]; rfl)⟩
  · cases hrun

theorem takeText (h : X.Near c c') (hplain : c.kind.isPlain = true)
    (hends : Token.endKinds.contains c.kind = true) :
    Carries Parser.takeText Parser.takeText c c' fun _ d d' => X.Meets c.left d d' := by
  have hne := h.stands fun hfile => by rw [hfile] at hplain; cases hplain
  rintro _ _ ⟨⟩
  exact ⟨c'.advance, by rw [Parser.takeText, h.text_eq hne], (h.next hplain).meets hends⟩

theorem takeString (h : X.Near c c') (hplain : c.kind.isPlain = true)
    (hends : Token.endKinds.contains c.kind = true) :
    Carries Grammar.takeString Grammar.takeString c c' fun _ d d' => X.Meets c.left d d' :=
  (takeText h hplain hends).bind fun _ _ _ hd => .pure hd

/-- The text read since a place is kept. -/
theorem textSince (wrap : String → β) {s s' : Cursor} (hs : X.Near s s') (h : X.Near c c')
    (hS : ∀ text, S (wrap text) c c') :
    Carries (do return wrap (← Parser.textSince s)) (do return wrap (← Parser.textSince s')) c c'
      S := by
  rintro _ _ ⟨⟩
  exact ⟨c', congrArg (fun text => Except.ok (wrap text, c')) (hs.slice_eq h).symm, hS _⟩

end Carries

/-- The second run has rounds for all that the first one reads. -/
theorem Seam.Near.rounds_le (h : X.Near c c') : c.ahead.length + 1 ≤ c'.ahead.length + 1 := by
  obtain ⟨passed, halong, -⟩ := h
  rw [halong.ahead, List.length_append]
  omega

variable {N E : Cursor → Cursor → Prop}

/-- A loop is carried over to a place where `G` holds when rounds that end it at such places are. -/
theorem iterateWithin_carries {step step' : ρ → Parser (Option ρ)} {G : Cursor → Prop}
    (hstep : ∀ s d d', N d d' → ∀ o e, step s d = .ok (o, e) → (o = none → G e) →
      ∃ e', step' s d' = .ok (o, e') ∧ if o.isSome then N e e' else E e e')
    {rounds rounds' : Nat} (hrounds : rounds ≤ rounds') {s t : ρ} (h : N c c') (hG : G e)
    (hrun : iterateWithin step rounds s c = .ok (t, e)) :
    ∃ e', iterateWithin step' rounds' s c' = .ok (t, e') ∧ E e e' := by
  induction rounds generalizing rounds' s c c' with
  | zero => cases hrun
  | succ rounds ih =>
      obtain ⟨rounds', rfl⟩ := Nat.exists_eq_add_one_of_ne_zero (Nat.ne_zero_of_lt hrounds)
      obtain ⟨o, d, hround, hrun⟩ := bind_eq_ok.1 hrun
      cases o with
      | none =>
          obtain ⟨rfl, rfl⟩ := Prod.mk.inj (Except.ok.inj hrun)
          obtain ⟨d', hround', hE⟩ := hstep s c c' h none d hround fun _ => hG
          exact ⟨d', bind_eq_ok.2 ⟨none, d', hround', rfl⟩, hE⟩
      | some u =>
          obtain ⟨d', hround', hN⟩ := hstep s c c' h (some u) d hround (by rintro ⟨⟩)
          obtain ⟨e', hrun', hE⟩ := ih (Nat.le_of_succ_le_succ hrounds) hN hrun
          exact ⟨e', bind_eq_ok.2 ⟨some u, d', hround', hrun'⟩, hE⟩

theorem iterate_carries {step step' : ρ → Parser (Option ρ)} (hc : X.Near c c')
    (hstep : ∀ s d d', N d d' → Carries (step s) (step' s) d d' fun o e e' =>
      if o.isSome then N e e' else E e e') (s : ρ) (h : N c c') :
    Carries (iterate step s) (iterate step' s) c c' fun _ => E := fun _ _ hrun =>
  iterateWithin_carries (G := fun _ => True) (fun s d d' hd o e ho _ => hstep s d d' hd o e ho)
    hc.rounds_le h trivial hrun

/-- The second run skips what the first one skips to a place where `G` holds. -/
theorem skipWhile_carries_to {step step' : Parser Bool} {G : Cursor → Prop} (hc : X.Near c c')
    (hstep : ∀ d d', N d d' → ∀ more e, step d = .ok (more, e) → (more = false → G e) →
      ∃ e', step' d' = .ok (more, e') ∧ if more then N e e' else E e e')
    (h : N c c') (hG : G e) (hrun : skipWhile step c = .ok ((), e)) :
    ∃ e', skipWhile step' c' = .ok ((), e') ∧ E e e' := by
  unfold skipWhile iterate at hrun ⊢
  refine iterateWithin_carries (fun _ d d' hd o z hround hend => ?_) hc.rounds_le h hG hrun
  obtain ⟨more, z, hmore, hround⟩ := bind_eq_ok.1 hround
  obtain ⟨rfl, rfl⟩ := Prod.mk.inj (Except.ok.inj hround)
  obtain ⟨z', hmore', hz⟩ := hstep d d' hd more z hmore fun hfalse => hend (by rw [hfalse]; rfl)
  exact ⟨z', bind_eq_ok.2 ⟨more, z', hmore', rfl⟩, by cases more <;> exact hz⟩

theorem skipWhile_carries {step step' : Parser Bool} (hc : X.Near c c')
    (hstep : ∀ d d', N d d' → Carries step step' d d' fun more e e' =>
      if more then N e e' else E e e') (h : N c c') :
    Carries (skipWhile step) (skipWhile step') c c' fun _ => E := by
  refine iterate_carries hc (fun _ d d' hd => ?_) () h
  refine (hstep d d' hd).bind fun more e e' he => ?_
  cases more with
  | true => exact .pure he
  | false => exact .pure he

theorem manyWithin_carries {step step' : Parser (Option α)}
    (hstep : ∀ d d', N d d' → Carries step step' d d' fun o e e' =>
      if o.isSome then N e e' else E e e') {rounds rounds' : Nat} (hrounds : rounds ≤ rounds')
    (h : N c c') :
    Carries (manyWithin step rounds) (manyWithin step' rounds') c c' fun _ => E := by
  induction rounds generalizing rounds' c c' with
  | zero => exact .vacuous fun _ _ h => by cases h
  | succ rounds ih =>
      obtain ⟨rounds', rfl⟩ := Nat.exists_eq_add_one_of_ne_zero (Nat.ne_zero_of_lt hrounds)
      refine (hstep c c' h).bind fun o d d' hd => ?_
      cases o with
      | none => exact .pure hd
      | some a => exact (ih (Nat.le_of_succ_le_succ hrounds) hd).bind fun _ _ _ he => .pure he

theorem many_carries {step step' : Parser (Option α)} (hc : X.Near c c')
    (hstep : ∀ d d', N d d' → Carries step step' d d' fun o e e' =>
      if o.isSome then N e e' else E e e') (h : N c c') :
    Carries (many step) (many step') c c' fun _ => E :=
  manyWithin_carries hstep hc.rounds_le h

/-- A list is carried over to a place where `G` holds when items that end at such places are. -/
theorem listWithin_carries {ends : Cursor → Bool} {separator : Token.Kind} {item item' : Parser α}
    {G : Cursor → Prop} (hG : ∀ e, e.kind = separator → G e)
    (hends : ∀ d d', N d d' → ends d = ends d') (hstop : ∀ d d', N d d' → ends d = true → E d d')
    (hitem : ∀ d d', N d d' → ∀ a e, item d = .ok (a, e) → G e → ∃ e', item' d' = .ok (a, e') ∧
      E e e' ∧ e.check separator = e'.check separator ∧
      (e.kind = separator → N e.advance e'.advance))
    {rounds rounds' : Nat} (hrounds : rounds ≤ rounds') (h : N c c') {xs : List α}
    (he : G e) (hrun : listWithin ends separator item rounds c = .ok (xs, e)) :
    ∃ e', listWithin ends separator item' rounds' c' = .ok (xs, e') ∧ E e e' := by
  induction rounds generalizing rounds' c c' xs with
  | zero => cases hrun
  | succ rounds ih =>
      obtain ⟨rounds', rfl⟩ := Nat.exists_eq_add_one_of_ne_zero (Nat.ne_zero_of_lt hrounds)
      cases hend : ends c with
      | true =>
          have hnil {item : Parser α} {n : Nat} {c : Cursor} (hend : ends c = true) :
              listWithin ends separator item (n + 1) c = .ok ([], c) := by
            show (if ends c = true then Pure.pure [] else _ : Parser (List α)) c = _
            rw [if_pos hend]
            rfl
          rw [hnil hend] at hrun
          cases hrun
          exact ⟨c', hnil (hends _ _ h ▸ hend), hstop _ _ h hend⟩
      | false =>
          have hcons {item : Parser α} {n : Nat} {c : Cursor} (hend : ends c = false) :
              listWithin ends separator item (n + 1) c = (do
                let a ← item
                if ← takeKind separator then return a :: (← listWithin ends separator item n)
                return [a]) c := by
            show (if ends c = true then _ else _ : Parser (List α)) c = _
            rw [if_neg (by simp [hend])]
          rw [hcons hend] at hrun
          rw [hcons (hends _ _ h ▸ hend)]
          obtain ⟨a, d, ha, hrun⟩ := bind_eq_ok.1 hrun
          cases hcheck : d.check separator with
          | true =>
              have htakes {c : Cursor} (hcheck : c.check separator = true) :
                  takeKind separator c = .ok (true, c.advance) := if_pos hcheck
              have hkind := Cursor.kind_of_check hcheck
              obtain ⟨d', ha', -, hcheck', hnext⟩ := hitem c c' h a d ha (hG d hkind)
              obtain ⟨_, _, htake, hrun⟩ := bind_eq_ok.1 hrun
              rw [htakes hcheck] at htake
              cases htake
              obtain ⟨ys, _, hys, hrun⟩ := bind_eq_ok.1 hrun
              cases hrun
              obtain ⟨e', hys', hE⟩ :=
                ih (Nat.le_of_succ_le_succ hrounds) (hnext hkind) hys
              exact ⟨e', bind_eq_ok.2 ⟨a, d', ha', bind_eq_ok.2 ⟨true, d'.advance,
                htakes (hcheck' ▸ hcheck), bind_eq_ok.2 ⟨ys, e', hys', rfl⟩⟩⟩, hE⟩
          | false =>
              have hstays {c : Cursor} (hcheck : c.check separator = false) :
                  takeKind separator c = .ok (false, c) := if_neg (by simp [hcheck])
              obtain ⟨_, _, htake, hrun⟩ := bind_eq_ok.1 hrun
              rw [hstays hcheck] at htake
              obtain ⟨rfl, rfl⟩ := Prod.mk.inj (Except.ok.inj htake)
              obtain ⟨rfl, rfl⟩ := Prod.mk.inj (Except.ok.inj hrun)
              obtain ⟨d', ha', hE, hcheck', -⟩ := hitem c c' h a d ha he
              exact ⟨d', bind_eq_ok.2 ⟨a, d', ha', bind_eq_ok.2 ⟨false, d',
                hstays (hcheck' ▸ hcheck), rfl⟩⟩, hE⟩

theorem require_eq_ok {d e : Cursor} {what : String} {u : Unit}
    (h : Parser.require kind what d = .ok (u, e)) :
    d.kind = kind ∧ e = d.advance := by
  cases hcheck : d.check kind with
  | true =>
      have htakes : require kind what d = .ok ((), d.advance) := by
        show (takeKind kind d >>= _) = _
        rw [takeKind, if_pos hcheck]
        rfl
      rw [htakes] at h
      cases h
      exact ⟨Cursor.kind_of_check hcheck, rfl⟩
  | false =>
      have hfails : require kind what d = fail (.expected what) d := by
        show (takeKind kind d >>= _) = _
        rw [takeKind, if_neg (by simp [hcheck])]
        rfl
      rw [hfails] at h
      cases h

theorem require_of_kind {d : Cursor} {what : String} (h : d.kind = kind) :
    require kind what d = .ok ((), d.advance) := by
  have hcheck : d.check kind = true := beq_iff_eq.2 h
  show (takeKind kind d >>= _) = _
  rw [takeKind, if_pos hcheck]
  rfl

/-- A list up to a token that closes it. Nothing is asked of an item that the text ends behind. -/
theorem Carries.commaList {I : Cursor → Prop} {item item' : Parser α} {what : String}
    {f f' : List α → Parser β} {S : β → Cursor → Cursor → Prop} (h : X.Near c c') (hI : I c)
    (hcloser : closer.isInert = true) (hplain : closer.isPlain = true)
    (hcomma : ∀ d d', X.Next d d' → d.kind = .comma → I d.advance)
    (hitem : ∀ d d', X.Near d d' → I d → d.left ≤ c.left → ∀ a e, item d = .ok (a, e) →
      e.kind ≠ .endOfFile → ∃ e', item' d' = .ok (a, e') ∧ X.Near e e' ∧ e.left ≤ d.left)
    (hf : ∀ xs d d', X.Next d d' → d.kind = closer → d.left ≤ c.left →
      Carries (f xs) (f' xs) d.advance d'.advance S) :
    Carries (do let xs ← Parser.commaList closer item; Parser.require closer what; f xs)
      (do let xs ← Parser.commaList closer item'; Parser.require closer what; f' xs) c c' S := by
  have hfile {d : Cursor} (hkind : d.kind = closer) : d.kind ≠ .endOfFile := fun heof => by
    rw [← hkind, heof] at hplain
    cases hplain
  intro b z hrun
  obtain ⟨xs, d, hxs, hrun⟩ := bind_eq_ok.1 hrun
  obtain ⟨_, _, hrequire, hrun⟩ := bind_eq_ok.1 hrun
  obtain ⟨hkind, rfl⟩ := require_eq_ok hrequire
  have hlist {item : Parser α} {c : Cursor} : Parser.commaList closer item c =
      listWithin (·.check closer) .comma item (c.ahead.length + 1) c :=
    congrFun (commaListWithin_eq ..) c
  rw [hlist] at hxs
  obtain ⟨d', hxs', hd, hle⟩ := listWithin_carries (G := fun d => d.kind ≠ .endOfFile)
    (N := fun d d' => X.Near d d' ∧ I d ∧ d.left ≤ c.left)
    (E := fun d d' => X.Near d d' ∧ d.left ≤ c.left)
    (fun e hcomma => by rw [hcomma]; decide)
    (fun d d' hd => hd.1.check_eq hcloser) (fun d d' hd _ => ⟨hd.1, hd.2.2⟩)
    (fun d d' hd a e ha hG => by
      obtain ⟨e', ha', he, hle⟩ := hitem d d' hd.1 hd.2.1 hd.2.2 a e ha hG
      refine ⟨e', ha', ⟨he, Nat.le_trans hle hd.2.2⟩, he.check_eq rfl, fun hkind => ?_⟩
      have hnext := he.takes hkind rfl
      have hleft := hnext.left
      have hled := hd.2.2
      exact ⟨hnext.near, hcomma e e' hnext hkind, by omega⟩)
    h.rounds_le ⟨h, hI, Nat.le_refl _⟩ (hfile hkind) hxs
  have hnext := hd.takes hkind hplain
  obtain ⟨z', hrun', hS⟩ := hf xs d d' hnext hkind hle b z hrun
  have hkind' : d'.kind = closer := (hd.kind_eq (hd.stands (hfile hkind))).symm.trans hkind
  exact ⟨z', bind_eq_ok.2 ⟨xs, d', hlist.trans hxs', bind_eq_ok.2 ⟨(), _, require_of_kind hkind',
    hrun'⟩⟩, hS⟩

theorem separated_carries {I : Cursor → Prop} {item item' : Parser α} {separator : Token.Kind}
    (hplain : separator.isPlain = true) (hinert : separator.isInert = true) (h : X.Near c c')
    (hI : I c) (hsep : ∀ d d', X.Next d d' → d.kind = separator → I d.advance)
    (hitem : ∀ d d', X.Near d d' → I d → d.left ≤ c.left →
      Carries item item' d d' fun _ e e' => X.Meets d.left e e') :
    Carries (separated separator item) (separated separator item') c c' fun _ e e' =>
      X.Meets c.left e e' := by
  have hlist {item : Parser α} {c : Cursor} : separated separator item c =
      listWithin (fun _ => false) separator item (c.ahead.length + 1) c :=
    congrFun (separatedWithin_eq ..) c
  intro xs e hrun
  rw [hlist] at hrun ⊢
  refine listWithin_carries (G := fun _ => True)
    (N := fun d d' => X.Near d d' ∧ I d ∧ d.left ≤ c.left) (E := X.Meets c.left)
    (fun _ _ => trivial) (fun _ _ _ => rfl) (fun _ _ _ hend => absurd hend Bool.false_ne_true)
    (fun d d' hd a e ha _ => ?_) h.rounds_le ⟨h, hI, Nat.le_refl _⟩ trivial hrun
  obtain ⟨e', ha', he⟩ := hitem d d' hd.1 hd.2.1 hd.2.2 a e ha
  refine ⟨e', ha', he.mono hd.2.2, he.near.check_eq hinert, fun hkind => ?_⟩
  have hnext := he.near.takes hkind hplain
  have hleft := hnext.left
  have hlt := he.left
  have hle := hd.2.2
  exact ⟨hnext.near, hsep e e' hnext hkind, by omega⟩

end HandlerWeave.Source
