import HandlerWeave.Proofs.Lockstep.Bodies

/-!
A run over a text that ends in a semicolon, and a run over the same text with more behind it. Up to
that semicolon the first run cannot tell them apart, as long as the brackets of the text are closed
and its functions and classes have their bodies.
-/
namespace HandlerWeave.Source

open Source.Parser Source.Group

/-- The tokens of a text that ends in a semicolon, and those of one that goes on behind it. -/
structure Wall where
  front : List Token
  semicolon : Token
  file : Token
  rest : List Token
  last : Token
  semicolon_kind : semicolon.kind = .semicolon
  file_kind : file.kind = .endOfFile
  front_kind : ∀ t ∈ front, t.kind ≠ .endOfFile
  nested : Nested front
  bodied : Bodied (front ++ [semicolon])

namespace Wall

variable {W : Wall} {σ τ : List Token.Kind} {c c' d d' : Cursor} {passed ahead : List Token}
  {t : Token} {closer : Token.Kind}

/-- The first run has passed these tokens and has these and the semicolon ahead. -/
def here (W : Wall) (passed ahead : List Token) : Cursor :=
  .between passed (ahead ++ [W.semicolon]) W.file

/-- The second run has passed the same tokens. -/
def there (W : Wall) (passed ahead : List Token) : Cursor :=
  .between passed (ahead ++ W.semicolon :: W.rest) W.last

/-- Both runs stand at the same place in front of the semicolon. -/
def Near (W : Wall) (σ : List Token.Kind) (c c' : Cursor) : Prop :=
  ∃ passed ahead, W.front = passed ++ ahead ∧ c = W.here passed ahead ∧ c' = W.there passed ahead ∧
    open? [] passed = some σ

/-- Both runs have taken the semicolon. -/
def Past (W : Wall) (c c' : Cursor) : Prop :=
  c = .between (W.front ++ [W.semicolon]) [] W.file ∧
    c' = .between (W.front ++ [W.semicolon]) W.rest W.last

/-- What lies ahead closes the brackets that are open. -/
theorem open?_ahead (hfront : W.front = passed ++ ahead) (hopen : open? [] passed = some σ) :
    open? σ ahead = some [] := by
  have hnested := W.nested
  rw [Nested, hfront, open?_append, hopen] at hnested
  exact hnested

theorem Near.token_eq (h : W.Near σ c c') : c.token = c'.token := by
  obtain ⟨passed, ahead, -, rfl, rfl, -⟩ := h
  cases ahead <;> rfl

theorem Near.before_eq (h : W.Near σ c c') : c.before = c'.before := by
  obtain ⟨passed, ahead, -, rfl, rfl, -⟩ := h
  rfl

theorem Near.kind_ne (h : W.Near σ c c') : c.kind ≠ .endOfFile := by
  obtain ⟨passed, ahead, hfront, rfl, rfl, -⟩ := h
  cases ahead with
  | nil =>
      show W.semicolon.kind ≠ _
      rw [W.semicolon_kind]
      decide
  | cons t ahead => exact W.front_kind t (by simp [hfront])

/-- A token in front of the semicolon is taken by both runs. -/
theorem near_advance (hfront : W.front = passed ++ t :: ahead) (hopen : open? [] passed = some σ)
    (ht : open1? σ t = some τ) :
    W.Near τ (W.here passed (t :: ahead)).advance (W.there passed (t :: ahead)).advance := by
  refine ⟨passed ++ [t], ahead, by simp [hfront], ?_, ?_, Trail.open?_concat hopen ht⟩
  · exact Cursor.between_advance
  · exact Cursor.between_advance

theorem Near.advance (h : W.Near σ c c') (hkind : c.kind = .semicolon → σ ≠ [])
    (ht : open1? σ c.token = some τ) : W.Near τ c.advance c'.advance := by
  obtain ⟨passed, ahead, hfront, rfl, rfl, hopen⟩ := h
  cases ahead with
  | nil =>
      have hσ := open?_ahead hfront hopen
      cases hσ
      exact absurd rfl (hkind W.semicolon_kind)
  | cons t ahead => exact near_advance hfront hopen ht

theorem Near.past (h : W.Near [] c c') (hkind : c.kind = .semicolon) :
    W.Near [] c.advance c'.advance ∨ W.Past c.advance c'.advance := by
  obtain ⟨passed, ahead, hfront, rfl, rfl, hopen⟩ := h
  cases ahead with
  | nil =>
      rw [List.append_nil] at hfront
      refine .inr ⟨?_, ?_⟩
      · rw [hfront]
        exact Cursor.between_advance
      · rw [hfront]
        exact Cursor.between_advance
  | cons t ahead =>
      have hkind : t.kind = .semicolon := hkind
      exact .inl (near_advance hfront hopen (open1?_semicolon hkind))

/-- A group in front of the semicolon ends in front of it, and both runs pass it. -/
theorem passGroup_agrees (hfront : W.front = passed ++ t :: ahead)
    (hopen : open? [] passed = some σ) (hcloser : t.kind.closing? = some closer) :
    Agree (fun _ _ => True) passGroup passGroup (W.here passed (t :: ahead))
      (W.there passed (t :: ahead)) fun _ _ d d' => W.Near σ d d' ∧
        d.left < (W.here passed (t :: ahead)).left ∧ ∃ n,
          Group.length [closer] (ahead ++ [W.semicolon]) = .ok n ∧
          d.ahead = (ahead ++ [W.semicolon]).drop n := by
  obtain ⟨u, hu, hafter⟩ := open?_cons_eq_some.1 (open?_ahead hfront hopen)
  rw [open1?_opens hcloser] at hu
  cases hu
  obtain ⟨n, hn, hok, hdrop⟩ := length_of_open (w := [closer]) (v := []) hafter (Nat.zero_le _)
  rw [Agree, here, there, List.cons_append, List.cons_append, passGroup_between hcloser (hok _),
    passGroup_between hcloser (hok _)]
  refine ⟨⟨passed ++ t :: ahead.take n, ahead.drop n, by simp [hfront], ?_, ?_, ?_⟩, ?_, n, hok _,
    rfl⟩
  · rw [here, List.take_append_of_le_length hn, List.drop_append_of_le_length hn]
  · rw [there, List.take_append_of_le_length hn, List.drop_append_of_le_length hn]
  · have hok := hok []
    rw [List.append_nil] at hok
    exact Trail.open?_group hopen hcloser hok
  · rw [Cursor.between_left, List.length_drop]
    exact Nat.lt_succ_of_le (Nat.sub_le _ _)

theorem Near.group (h : W.Near σ c c') (hopens : c.kind.closing?.isSome = true) :
    Agree (fun _ _ => True) passGroup passGroup c c' fun _ _ d d' =>
      W.Near σ d d' ∧ d.left < c.left := by
  obtain ⟨passed, ahead, hfront, rfl, rfl, hopen⟩ := h
  obtain ⟨closer, hcloser⟩ := Option.isSome_iff_exists.1 hopens
  cases ahead with
  | nil =>
      have hkind : (W.here passed []).kind = .semicolon := W.semicolon_kind
      rw [hkind] at hcloser
      cases hcloser
  | cons t ahead =>
      exact (passGroup_agrees hfront hopen hcloser).mono fun _ _ d d' hd => ⟨hd.1, hd.2.1⟩

theorem Near.left_lt (h : W.Near σ c c') (hd : W.Near τ d d') (hlt : d.left < c.left) :
    d'.left < c'.left := by
  obtain ⟨passed, ahead, -, rfl, rfl, -⟩ := h
  obtain ⟨passed', ahead', -, rfl, rfl, -⟩ := hd
  simp only [here, there, Cursor.between_left, List.length_append, List.length_cons,
    List.length_nil] at hlt ⊢
  omega

theorem Near.slice_eq (h : W.Near σ c c') (hd : W.Near τ d d') :
    c.textSince d = c'.textSince d' := by
  obtain ⟨passed, ahead, -, rfl, rfl, -⟩ := h
  obtain ⟨passed', ahead', -, rfl, rfl, -⟩ := hd
  have htake : (ahead ++ [W.semicolon]).take (ahead.length - ahead'.length) =
      (ahead ++ W.semicolon :: W.rest).take (ahead.length - ahead'.length) := by
    rw [List.take_append_of_le_length (Nat.sub_le _ _),
      List.take_append_of_le_length (Nat.sub_le _ _)]
  simp only [Cursor.textSince, here, there, Cursor.between_ahead, List.length_append,
    Nat.add_sub_add_right, htake]

theorem Near.arrow_eq (h : W.Near σ c c') :
    Grammar.atArrowParams c = Grammar.atArrowParams c' := by
  obtain ⟨passed, ahead, hfront, rfl, rfl, hopen⟩ := h
  have hcheck :
    (W.here passed ahead).check .leftParen = (W.there passed ahead).check .leftParen := by
    cases ahead <;> rfl
  rw [Grammar.atArrowParams, Grammar.atArrowParams, ← hcheck]
  refine and_eq_and rfl fun hparen => ?_
  have hkind := Cursor.kind_of_check hparen
  cases ahead with
  | nil =>
      have hsemicolon : (W.here passed []).kind = .semicolon := W.semicolon_kind
      rw [hsemicolon] at hkind
      cases hkind
  | cons t ahead =>
      have hcloser : t.kind.closing? = some .rightParen := by
        have hkind : t.kind = .leftParen := hkind
        rw [hkind]
        rfl
      obtain ⟨u, hu, hafter⟩ := open?_cons_eq_some.1 (open?_ahead hfront hopen)
      rw [open1?_opens hcloser] at hu
      cases hu
      obtain ⟨n, hn, hfound⟩ := closingIndex?_of_open (w := [.rightParen]) (v := []) hafter
        (List.cons_ne_nil _ _) (Nat.zero_le _)
      have hindex (rest : List Token) :
          closingIndex? 0 (t :: (ahead ++ rest)) = some (n + 1) := by
        rw [closingIndex?, if_pos (by rw [hcloser]; rfl)]
        exact congrArg (Option.map (· + 1)) (hfound rest)
      -- the semicolon at the latest stands behind the parenthesis in both runs
      obtain ⟨next, hnext⟩ :
        ∃ next, ∀ rest, (ahead ++ W.semicolon :: rest)[n + 1]? = some next := by
        by_cases hlt : n + 1 < ahead.length
        · exact ⟨ahead[n + 1], fun rest => by rw [List.getElem?_append_left hlt]; simp⟩
        · refine ⟨W.semicolon, fun rest => ?_⟩
          rw [List.getElem?_append_right (by omega), Nat.sub_eq_zero_of_le (by omega)]
          rfl
      have hkindAhead {c : Cursor} {rest : List Token}
          (h : c.ahead = t :: (ahead ++ W.semicolon :: rest)) :
          c.kindAhead (n + 1 + 1) = next.kind := by
        rw [Cursor.kindAhead, Cursor.tokenAt, h, List.getElem?_cons_succ, hnext]
        rfl
      have hhere : (W.here passed (t :: ahead)).ahead = t :: (ahead ++ W.semicolon :: []) := rfl
      have hthere : (W.there passed (t :: ahead)).ahead = t :: (ahead ++ W.semicolon :: W.rest) :=
        rfl
      rw [hhere, hthere, hindex, hindex]
      simp only [hkindAhead hhere, hkindAhead hthere]

/-- On the way to a body in front of the semicolon. -/
def OnWay (W : Wall) (σ : List Token.Kind) (c c' : Cursor) : Prop :=
  W.Near σ c c' ∧ braceFollows [] c.ahead = true

theorem OnWay.exists_cons (h : W.OnWay σ c c') :
    ∃ passed t ahead, W.front = passed ++ t :: ahead ∧ c = W.here passed (t :: ahead) ∧
      c' = W.there passed (t :: ahead) ∧ open? [] passed = some σ := by
  obtain ⟨⟨passed, ahead, hfront, rfl, rfl, hopen⟩, hfollows⟩ := h
  cases ahead with
  | nil =>
      have hnone : braceFollows [] [W.semicolon] = true := hfollows
      rw [braceFollows, open1?_semicolon W.semicolon_kind, W.semicolon_kind] at hnone
      cases hnone
  | cons t ahead => exact ⟨passed, t, ahead, hfront, rfl, rfl, hopen⟩

theorem Near.body (h : W.Near σ c c') (hoperand : c.Operand σ) (hword : c.atBodyWord = true) :
    Agree (fun _ _ => True) Grammar.passToBody Grammar.passToBody c c' fun _ _ d d' =>
      W.Near σ d d' ∧ d.left < c.left := by
  have hfollows : braceFollows [] c.ahead = true := by
    obtain ⟨passed, ahead, hfront, rfl, -, hopen⟩ := h
    have hbodied := W.bodied
    rw [hfront, List.append_assoc] at hbodied
    exact hbodied.follows (by rw [W.file_kind]; decide) hopen hoperand hword
  refine Grammar.passToBody_agrees_of (N := W.OnWay σ) (fun h hd => h.1.left_lt hd.1)
    (fun h => congrArg Token.kind h.1.token_eq) (fun _ _ => trivial) ?advance ?group
    (fun h hbrace => h.1.group (by rw [hbrace]; rfl)) ⟨h, hfollows⟩
  case advance =>
    intro c c' h _ hnone
    obtain ⟨passed, t, ahead, hfront, rfl, rfl, hopen⟩ := h.exists_cons
    obtain ⟨hcloses, hlater⟩ := braceFollows_other h.2 hnone
    exact ⟨⟨near_advance hfront hopen (open1?_other hnone hcloses), hlater⟩, Nat.lt_succ_self _⟩
  case group =>
    intro c c' h hkind
    obtain ⟨passed, t, ahead, hfront, rfl, rfl, hopen⟩ := h.exists_cons
    have hkind : t.kind = .leftParen ∨ t.kind = .leftBracket := hkind
    have hbrace : t.kind ≠ .leftBrace := fun hbrace => by
      rw [hbrace] at hkind
      simp at hkind
    obtain ⟨closer, hcloser⟩ : ∃ closer, t.kind.closing? = some closer := by
      obtain hkind | hkind := hkind <;> rw [hkind] <;> exact ⟨_, rfl⟩
    refine (passGroup_agrees hfront hopen hcloser).mono fun _ _ d d' hpassed => ?_
    obtain ⟨hd, hlt, n, hn, hahead⟩ := hpassed
    refine ⟨⟨hd, ?_⟩, hlt⟩
    rw [hahead]
    exact braceFollows_group h.2 hbrace hcloser hn

theorem Near.file_iff (h : W.Near σ c c') : c.kind = .endOfFile ↔ c.ahead = [] := by
  refine ⟨fun hkind => absurd hkind h.kind_ne, fun hnil => ?_⟩
  obtain ⟨passed, ahead, -, rfl, -⟩ := h
  exact absurd hnil (List.append_ne_nil_of_right_ne_nil _ (List.cons_ne_nil _ _))

theorem Near.left_le (h : W.Near σ c c') : c.left ≤ W.front.length + 1 := by
  obtain ⟨passed, ahead, hfront, rfl, -⟩ := h
  rw [hfront, here, Cursor.between_left, List.length_append, List.length_append,
    List.length_singleton]
  omega

theorem Near.break_eq (h : W.Near σ c c') : c.atStatementBreak = c'.atStatementBreak := by
  have hcheck (kind : Token.Kind) : c.check kind = c'.check kind :=
    congrArg (·.kind == kind) h.token_eq
  have hnewline : c.newlineBefore = c'.newlineBefore :=
    congrArg Token.newlineBefore h.token_eq
  rw [Cursor.atStatementBreak, Cursor.atStatementBreak, h.before_eq, hcheck, hcheck, hnewline]

theorem Near.plain (h : W.Near σ c c') (hplain : c.kind.isPlain = true) :
    W.Near σ c.advance c'.advance :=
  h.advance (fun hsemicolon => by rw [hsemicolon] at hplain; cases hplain) (open1?_plain hplain)

theorem Near.opens (h : W.Near σ c c') (hkind : c.kind.closing? = some closer) :
    W.Near (closer :: σ) c.advance c'.advance :=
  h.advance (fun hsemicolon => by rw [hsemicolon] at hkind; cases hkind) (open1?_opens hkind)

theorem Near.closes (h : W.Near (closer :: σ) c c') (hcloses : closer.isClosing = true)
    (hkind : c.kind = closer) : W.Near σ c.advance c'.advance := by
  subst hkind
  exact h.advance (fun _ => List.cons_ne_nil _ _) (open1?_closes hcloses)

/-- Two runs up to the semicolon. -/
def pairing (W : Wall) : Pairing where
  toOpenings := (Operands.led True).whole
  near := W.Near
  ended c c' := W.Near [] c c' ∨ W.Past c c'
  horizon := 0
  top := W.front.length + 1
  faults _ _ := True
  ended_of_near := .inl
  kind_eq h := congrArg Token.kind h.token_eq
  text_eq h := congrArg Token.text h.token_eq
  file_iff h := h.file_iff
  left_le h := h.left_le
  left_lt := Near.left_lt
  newline_eq h _ := congrArg Token.newlineBefore h.token_eq
  break_eq h := h.break_eq
  decorated _ _ := trivial
  wordBefore_eq h := congrArg (·.any (·.kind == .word)) h.before_eq
  slice_eq h hd _ _ := h.slice_eq hd
  arrow_eq := Near.arrow_eq
  plain h hplain := h.plain hplain
  semicolon h hkind hσ := h.advance (fun _ => hσ) (open1?_semicolon hkind)
  last := Near.past
  opens h hkind _ := h.opens hkind
  closes h hcloses hkind := h.closes hcloses hkind
  not_ready _ h := h.elim
  group := Near.group
  body h hoperand hword := h.body hoperand.2 hword
  fault _ _ := trivial

end Wall

end HandlerWeave.Source
