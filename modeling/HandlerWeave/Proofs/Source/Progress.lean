import HandlerWeave.Proofs.Lockstep.Diagonal

/-!
The parser comes to an end on every text. Each round of a loop of the grammar takes a token or ends
the loop, each production has one token less ahead than the one that calls it, and no token is
looked at but those of the text.
-/
namespace HandlerWeave.Source

open Source.Parser Pairing

/-- At this place the round fails, though not for want of rounds or levels, or it stops at a place
of the text. When the loop goes on a token has been taken. -/
def Advances (l : Listing) (round : Parser Bool) (c : Cursor) : Prop :=
  match round c with
  | .ok (more, d) => d.StandsIn l ∧ d.left ≤ c.left ∧ (more = true → d.left < c.left)
  | .error e => e.cause ≠ .tooDeep

/-- Type arguments in the middle of an expression are read to an end. Unless they count, the parser
goes back to where they start, and whatever the reading comes to, the loop that tries them goes on
behind their first token. -/
structure TriesTypeArgs (l : Listing) (g : Grammar) (c : Cursor) : Prop where
  ends : ∀ e, g.typeArgs c = .error e → e.cause ≠ .tooDeep
  restores : g.callTypeArgs c = .ok (false, c) ∨
    ∃ d, g.callTypeArgs c = .ok (true, d) ∧ d.StandsIn l ∧ d.left < c.left
  goes_on : c.kind = .less → ∃ d, g.initializerRound c = .ok (true, d) ∧ d.StandsIn l ∧
    d.left < c.left

/-- The place has an index in the tokens. A look ahead finds a token of the text, the last one when
it would go past it, and a look back finds the token before. -/
def LooksWithin (tokens : List Token) (c : Cursor) : Prop :=
  ∃ index, index + c.left + 1 = tokens.length ∧
    (∀ n, tokens[min (index + n) (tokens.length - 1)]? = some (c.tokenAt n)) ∧
    c.before = if index = 0 then none else tokens[index - 1]?

theorem Cursor.StandsIn.looksWithin {l : Listing} {c : Cursor} (h : c.StandsIn l) :
    LooksWithin l.tokens c := by
  obtain ⟨passed, ahead, hfront, rfl⟩ := h
  have htokens : l.tokens = passed ++ ahead ++ [l.file] := by rw [Listing.tokens, hfront]
  refine ⟨passed.length, by simp [htokens]; omega, fun n => ?_, ?_⟩
  · simp only [htokens, List.length_append, List.length_singleton, Nat.add_sub_cancel,
      tokenAt, between_ahead]
    by_cases hn : n < ahead.length
    · rw [Nat.min_eq_left (by omega), List.append_assoc,
        List.getElem?_append_right (Nat.le_add_right _ _), Nat.add_sub_cancel_left,
        List.getElem?_append_left hn, List.getElem?_eq_getElem hn]
      rfl
    · rw [Nat.min_eq_right (by omega), ← List.length_append, List.getElem?_concat_length,
        List.getElem?_eq_none (by omega)]
      rfl
  · rw [between_before, List.getLast?_eq_getElem?, htokens]
    split
    next hnil => rw [List.length_eq_zero_iff.1 hnil]; rfl
    next hne =>
      rw [List.append_assoc, List.getElem?_append_left (by omega)]

namespace Grammar

open Cursor

/-- The parser is a round of a loop that a grammar runs at this place of a text. It says whether the
loop goes on. -/
inductive Round (l : Listing) (g : Grammar) (c : Cursor) : Parser Bool → Prop
  | typeArgs : Round l g c (commaRound .greater g.type)
  | qualifiedName : Round l g c (Option.isSome <$> nameRound)
  | initializer : Round l g c g.initializerRound
  | exprList (closer : Token.Kind) : Round l g c (commaRound closer g.listedExpr)
  | decorators : Round l g c (Option.isSome <$> g.decoratorRound)
  | decoratorName : Round l g c (separatedRound .dot (word "decorator name"))
  | typeParamWords : Round l g c typeParamWordRound
  | typeParams : Round l g c (commaRound .greater g.typeParam)
  | paramWords (property : Bool) : Round l g c (Option.isSome <$> paramWordRound property)
  | params : Round l g c (commaRound .rightParen g.param)
  | typeMembers : Round l g c (Option.isSome <$> g.typeMember)
  | tuple : Round l g c (commaRound .rightBracket g.tupleElement)
  | importedPath : Round l g c importedPathRound
  /-- A suffix stands behind the type that starts there. -/
  | typeSuffixes {start : Cursor} (type : TypeNode) (hstart : start.StandsIn l)
    (hleft : c.left < start.left) : Round l g c (Option.isSome <$> g.typeSuffix start type)
  | intersection : Round l g c (separatedRound .ampersand g.operandTypeRule)
  | union : Round l g c (separatedRound .pipe g.intersectionType)
  | object : Round l g c (commaRound .rightBrace g.objectMember)
  | construction (callee : Expr) : Round l g c (Option.isSome <$> constructionRound callee)
  | body : Round l g c bodyRound
  /-- A suffix stands behind the operand that starts there. -/
  | exprSuffixes {start : Cursor} (expr : Expr) (hstart : start.StandsIn l)
    (hleft : c.left < start.left) : Round l g c (Option.isSome <$> g.exprSuffix start expr)
  | casts : Round l g c g.castRound
  | skipped (moved : Bool) : Round l g c (Option.isSome <$> skipRound moved)
  | importSpecifiers : Round l g c (commaRound .rightBrace importSpecifier)
  | heritage : Round l g c (separatedRound .comma g.heritage)
  | memberWords (isStatic : Bool) : Round l g c (Option.isSome <$> memberWordRound isStatic)
  | classMembers (name : String) : Round l g c (Option.isSome <$> g.classRound name)
  | enumMembers : Round l g c (commaRound .rightBrace g.enumMember)
  | bindings : Round l g c (separatedRound .comma g.binding)
  | modifiers (m : Modifiers) : Round l g c (Option.isSome <$> modifierRound m)
  | statements : Round l g c (Option.isSome <$> g.statementRound)

variable {l : Listing} {c d : Cursor} {g : Grammar} {round : Parser Bool} {σ : List Token.Kind}
  {α : Type} {n levels : Nat}

/-- Nothing but the place is known of a run that is paired with itself. -/
abbrev alone (l : Listing) : Pairing := (Trail.free l).diagonal

theorem near_alone (h : c.StandsIn l) : (alone l).near σ c c := by
  obtain ⟨passed, ahead, hfront, hc⟩ := h
  exact ⟨rfl, passed, ahead, hfront, hc, trivial⟩

theorem advances_of_round
    (h : Agree (alone l).faults round round c c ((alone l).Round σ c.left)) :
    Advances l round c := by
  unfold Agree at h
  unfold Advances
  cases hrun : round c with
  | error e =>
      rw [hrun] at h
      exact h.2
  | ok out =>
      rw [hrun] at h
      exact ⟨h.near.standsIn, h.left, h.taken⟩

theorem advances_of_found {step : Parser (Option α)}
    (h : Agree (alone l).faults step step c c ((alone l).Found σ c.left)) :
    Advances l (Option.isSome <$> step) c := advances_of_round (found_round h)

theorem advances_of_comma {closer : Token.Kind} {item : Parser α} (hc : c.StandsIn l)
    (h : Agree (alone l).faults item item c c ((alone l).Kept σ (c.left + 1))) :
    Advances l (commaRound closer item) c :=
  advances_of_round (listRound_agrees rfl rfl (near_alone hc) h)

theorem advances_of_separated {separator : Token.Kind} {item : Parser α}
    (hplain : separator.isPlain = true) (hc : c.StandsIn l)
    (h : Agree (alone l).faults item item c c ((alone l).Kept σ c.left)) :
    Advances l (separatedRound separator item) c :=
  advances_of_round (listRound_agrees hplain rfl (near_alone hc)
    (h.mono fun _ _ _ _ hd => hd.mono (Nat.le_succ _)))

/-- A loop that changes something goes on with every state the same in both runs. -/
theorem advances_of_goesOn {step : Parser (Option α)} {S : α → α → Cursor → Prop}
    {E : Cursor → Cursor → Prop}
    (h : Agree (alone l).faults step step c c (GoesOn ((alone l).near []) c.left S E))
    (hE : ∀ d d', E d d' → (alone l).near [] d d' ∧ d.left ≤ c.left) :
    Advances l (Option.isSome <$> step) c := by
  refine advances_of_round (σ := []) (h.map fun o o' d d' hd => ?_)
  match o, o', hd with
  | none, none, hd => exact ⟨(hE d d' hd).1, (hE d d' hd).2, rfl, nofun⟩
  | some _, some _, ⟨hnear, hlt, _⟩ => exact ⟨hnear, Nat.le_of_lt hlt, rfl, fun _ => hlt⟩

theorem bodyRound_advances (hc : c.StandsIn l) : Advances l bodyRound c := by
  have near : (Trail.free l).Near [] c c := near_alone hc
  refine advances_of_round (σ := []) ((bodyRound_agrees_of (N := (Trail.free l).Near []) rfl
    (fun _ => (alone l).fault near nofun) (fun hkind _ => ?_) fun hgroup => near.group ?_).mono
    fun more more' d d' hd => ?_)
  · have hlt := Cursor.advance_left (mt near.file_iff.2 hkind)
    exact ⟨near.advance hkind fun _ _ => trivial, by omega⟩
  · obtain hparen | hbracket := hgroup
    · rw [hparen]; rfl
    · rw [hbracket]; rfl
  · obtain ⟨rfl, hd⟩ := hd
    cases more with
    | true => exact ⟨hd.1, Nat.le_of_lt hd.2, rfl, fun _ => hd.2⟩
    | false =>
        obtain ⟨rfl, rfl, -⟩ := hd
        exact ⟨near, Nat.le_refl _, rfl, nofun⟩

/-- Each round of a loop that goes on has taken a token. -/
theorem Round.advances (hc : c.StandsIn l) (hlevels : c.left < levels)
    (h : Round l (withLevels levels) c round) : Advances l round c := by
  have hg := withLevels_kin (alone l) (Nat.le_refl levels) (Nat.le_refl levels)
  have hn := Nat.le_of_lt hlevels
  have near (σ : List Token.Kind) : (alone l).near σ c c := near_alone hc
  have weaken {α : Type} {item : Parser α} {σ : List Token.Kind}
      (h : Agree (alone l).faults item item c c ((alone l).Kept σ c.left)) :
      Agree (alone l).faults item item c c ((alone l).Kept σ (c.left + 1)) :=
    h.mono fun _ _ _ _ hd => hd.mono (Nat.le_succ _)
  have hinside : [Token.Kind.rightBrace] ≠ [] := List.cons_ne_nil _ _
  cases h with
  | typeArgs => exact advances_of_comma hc (weaken (hg.type (near []) trivial hlevels))
  | qualifiedName => exact advances_of_found (nameRound_agrees (near []))
  | initializer => exact advances_of_round (initializerRound_agrees hg (near []) hn)
  | exprList closer =>
      exact advances_of_comma hc (listedExpr_agrees hg (near []) trivial hlevels)
  | decorators => exact advances_of_found (decoratorRound_agrees hg (near []) hn)
  | decoratorName =>
      exact advances_of_separated rfl hc ((word_agrees (near [])).mono fun _ _ _ _ => Same.kept)
  | typeParamWords => exact advances_of_round (typeParamWordRound_agrees (near []))
  | typeParams => exact advances_of_comma hc (weaken (typeParam_agrees hg (near []) hn))
  | paramWords property =>
      exact advances_of_found (paramWordRound_agrees (near []) property property)
  | params => exact advances_of_comma hc (weaken (param_agrees hg (near []) hn))
  | typeMembers => exact advances_of_found (typeMember_agrees hg (near _) hinside hn)
  | tuple =>
      exact advances_of_comma hc (weaken (tupleElement_agrees hg (near []) trivial hlevels))
  | importedPath => exact advances_of_round (importedPathRound_agrees (near []))
  | typeSuffixes type hstart hleft =>
      exact advances_of_found
        (typeSuffix_agrees hg (near_alone (σ := []) hstart) (near []) hleft hn fun _ => rfl)
  | intersection =>
      exact advances_of_separated rfl hc (operandTypeRule_agrees hg (near []) trivial hn)
  | union => exact advances_of_separated rfl hc (intersectionType_agrees hg (near []) trivial hn)
  | object =>
      exact advances_of_comma hc (weaken (objectMember_agrees hg trivial (near _) hinside hn))
  | construction callee =>
      exact advances_of_found (constructionRound_agrees (near []) fun _ => rfl)
  | body => exact bodyRound_advances hc
  | exprSuffixes expr hstart hleft =>
      exact advances_of_found
        (exprSuffix_agrees hg trivial (near_alone (σ := []) hstart) (near []) hleft hn fun _ => rfl)
  | casts =>
      obtain ⟨passed, ahead, hfront, rfl⟩ := hc
      refine advances_of_round (castRound_agrees hg (near []) ?_ hn)
      show ahead.length < l.front.length + 1
      rw [hfront, List.length_append]
      omega
  | skipped moved =>
      exact advances_of_goesOn (skipRound_agrees (near []) moved (Nat.le_succ _) (Nat.succ_pos _)
        fun _ => Nat.lt_succ_self _) fun _ _ hd => ⟨hd.1, Nat.le_of_lt_succ hd.2⟩
  | importSpecifiers => exact advances_of_comma hc (weaken (importSpecifier_agrees (near [])))
  | heritage => exact advances_of_separated rfl hc (heritage_agrees hg (near []) hn)
  | memberWords isStatic =>
      exact advances_of_found (memberWordRound_agrees (near []) fun _ => rfl)
  | classMembers name => exact advances_of_found (classRound_agrees hg (near _) hinside hn name)
  | enumMembers => exact advances_of_comma hc (weaken (enumMember_agrees hg trivial (near []) hn))
  | bindings => exact advances_of_separated rfl hc (binding_agrees hg trivial (near []) hn)
  | modifiers m =>
      exact advances_of_goesOn (modifierRound_agrees (near []) (Nat.le_refl _) m)
        fun _ _ hd => ⟨hd.near, Nat.le_of_lt_succ hd.left⟩
  | statements => exact advances_of_found (Trail.statementRound_agrees hg trivial (near []) hn)

theorem callTypeArgs_cases (g : Grammar) (c : Cursor) :
    g.callTypeArgs c = .ok (false, c) ∨ ∃ d, g.callTypeArgs c = .ok (true, d) := by
  unfold callTypeArgs
  split
  · split
    · split
      · exact .inr ⟨_, rfl⟩
      · exact .inl rfl
    · exact .inl rfl
  · exact .inl rfl

theorem callTypeArgs_restores (hc : c.StandsIn l) (hlevels : c.left < levels) :
    (withLevels levels).callTypeArgs c = .ok (false, c) ∨
      ∃ d, (withLevels levels).callTypeArgs c = .ok (true, d) ∧ d.StandsIn l ∧ d.left < c.left := by
  have hg := withLevels_kin (alone l) (Nat.le_refl levels) (Nat.le_refl levels)
  have hrun := callTypeArgs_agrees hg (near_alone (σ := []) hc) (Nat.le_of_lt hlevels)
  refine (callTypeArgs_cases (withLevels levels) c).imp_right fun ⟨d, hout⟩ => ⟨d, hout, ?_⟩
  rw [Agree, hout] at hrun
  exact ⟨hrun.2.1.standsIn, hrun.2.2⟩

/-- Where the sign opens no type arguments of a call, it is passed alone. -/
theorem initializerRound_less (g : Grammar) (hless : c.kind = .less) :
    ∃ d, g.initializerRound c = .ok (true, d) := by
  have hbreak : c.atStatementBreak = false := by
    simp [Cursor.atStatementBreak, Cursor.check, hless]
  obtain hback | ⟨d, hcounts⟩ := callTypeArgs_cases g c
  · refine ⟨c.advance, Parser.bind_eq_ok.2 ⟨c, c, rfl, ?_⟩⟩
    rw [hless]
    refine Parser.bind_eq_ok.2 ⟨false, c, hback, ?_⟩
    simp only [hbreak]
    rfl
  · refine ⟨d, Parser.bind_eq_ok.2 ⟨c, c, rfl, ?_⟩⟩
    rw [hless]
    exact Parser.bind_eq_ok.2 ⟨true, d, hcounts, rfl⟩

theorem triesTypeArgs (hc : c.StandsIn l) (hlevels : c.left < levels) :
    TriesTypeArgs l (withLevels levels) c := by
  have hg := withLevels_kin (alone l) (Nat.le_refl levels) (Nat.le_refl levels)
  have hn := Nat.le_of_lt hlevels
  have near : (alone l).near [] c c := near_alone hc
  refine ⟨fun e he => ?_, ?_, fun hless => ?_⟩
  · have hargs := typeArgs_agrees hg near hn
    rw [Agree, he] at hargs
    exact hargs.2
  · exact callTypeArgs_restores hc hlevels
  · have hround : Advances l (withLevels levels).initializerRound c :=
      Round.advances hc hlevels .initializer
    obtain ⟨d, hrun⟩ := initializerRound_less (withLevels levels) hless
    rw [Advances, hrun] at hround
    exact ⟨d, hrun, hround.1, hround.2.2 rfl⟩

end Grammar

/-- Reading a text comes to an end. -/
theorem parse_halts (source : String) :
    (∀ e, parse source = .error e → e.cause ≠ .tooDeep) ∧
    (∀ levels, (lex source).length ≤ levels →
      ((Grammar.withLevels levels).statements (.ofTokens (lex source))).map Prod.fst =
        parse source) ∧
    ∃ l : Listing, lex source = l.tokens ∧ (Cursor.ofTokens (lex source)).StandsIn l ∧
      ∀ c, c.StandsIn l → LooksWithin l.tokens c ∧ ∀ levels, c.left < levels →
        (∀ round, Grammar.Round l (.withLevels levels) c round → Advances l round c) ∧
        TriesTypeArgs l (.withLevels levels) c := by
  obtain ⟨l, hl, -⟩ := lex_listing source
  have hlength : (lex source).length = l.front.length + 1 := by
    rw [hl, Listing.tokens, List.length_append, List.length_singleton]
  have hstart : Cursor.ofTokens (lex source) = .between [] l.front l.file := by
    rw [hl, Listing.tokens, Cursor.ofTokens_append]
  have hstands : (Cursor.ofTokens (lex source)).StandsIn l := ⟨[], l.front, rfl, hstart⟩
  have hleft : (Cursor.ofTokens (lex source)).left = l.front.length := by rw [hstart]; rfl
  have hrun (levels : Nat) (hlevels : (lex source).length ≤ levels) :=
    Trail.statements_agrees (T := .free l)
      (Grammar.withLevels_kin (Grammar.alone l) hlevels (Nat.le_succ (lex source).length))
      trivial (Grammar.near_alone (σ := []) hstands) (by omega)
  refine ⟨fun e he => ?_, fun levels hlevels => ?_, l, hl, hstands, fun c hc =>
    ⟨hc.looksWithin, fun levels hlevels =>
      ⟨fun _ hround => hround.advances hc hlevels, Grammar.triesTypeArgs hc hlevels⟩⟩⟩
  · have h := hrun ((lex source).length + 1) (Nat.le_succ _)
    rw [parse, parseTokens] at he
    unfold Agree at h
    generalize (Grammar.withLevels _).statements _ = out at h he
    cases out with
    | error e' =>
        cases he
        exact h.2
    | ok out => cases he
  · have h := hrun levels hlevels
    rw [parse, parseTokens]
    unfold Agree at h
    split at h
    next hok hok' =>
      rw [hok, hok']
      exact congrArg Except.ok (h.eq (Nat.zero_le _))
    next herror herror' =>
      rw [herror, herror', h.1]
    · exact h.elim

end HandlerWeave.Source
