import HandlerWeave.Proofs.Lockstep.Types

/-!
Paired runs of the grammar of expressions, and of the grammar with any number of levels.
-/
namespace HandlerWeave.Source.Grammar

open Source.Parser Pairing

variable {P : Pairing} {n m : Nat} {g g' : Grammar} {σ τ : List Token.Kind} {c c' s s' : Cursor}

theorem passArrowBody_agrees (hg : P.Kin n g g') (h : P.near σ c c') (hn : c.left ≤ n) :
    Agree P.faults g.passArrowBody g'.passArrowBody c c' (P.Same σ c.left) := by
  refine (after_agrees rfl h fun hcolon hnext => ?_).bind fun _ _ d d' ⟨hd, hled, _⟩ => ?_
  · have hlt := hnext.left
    exact (hg.type hnext.near (hnext.ready hcolon rfl) (by omega)).mono
      fun _ _ _ _ hd => hd.mono (by omega)
  refine .require hd (takes_plain hd rfl) fun _ ⟨he, hlte, _⟩ => .look ?_
  refine .cond (check_eq he _) (fun _ => ?_) fun _ => ?_
  · exact (passGroup_agrees he).mono fun _ _ _ _ ⟨hz, hlt, heq⟩ => ⟨hz, by omega, heq⟩
  · exact (passInitializer_agrees hg he (by omega)).mono
      fun _ _ _ _ ⟨hz, hle, heq⟩ => ⟨hz, by omega, heq⟩

theorem objectMember_agrees (hg : P.Kin n g g') (hexprs : P.exprs) (h : P.near σ c c')
    (hσ : σ ≠ []) (hn : c.left ≤ n) :
    Agree P.faults g.objectMember g'.objectMember c c' (P.Kept σ c.left) := by
  refine .look <| .takeKind h (takes_plain h rfl) (fun hdots hnext => ?_) fun _ => ?_
  · have hlt := hnext.left
    refine (hg.expr hnext.near (hnext.operand hexprs hdots rfl) (by omega)).bind
      fun _ _ d d' ⟨hd, hltd, _⟩ => ?_
    exact textSince_agrees _ h hd (by omega) (by omega)
  refine .otherwise ?_
  extract_lets modified named modified' named'
  have hmodified : modified = modified' :=
    words_ahead_eq h _ [.word, .string, .number, .leftBracket, .star].contains
  have hnamed : ∀ d d', P.near σ d d' → d.left ≤ c.left →
      Agree P.faults (named ()) (named' ()) d d' (P.Kept σ c.left) := by
    intro d d' hd hled
    refine (takeKind_agrees hd rfl).bind fun _ _ e e' ⟨he, hlee, _⟩ => .look ?_
    extract_lets computed computed'
    have hcomputed : computed = computed' := check_eq he _
    refine (memberName_agrees he).bind fun key key' z z' ⟨hz, hltz, hkey⟩ => .look ?_
    refine .cond (or_eq_or (check_eq hz _) (check_eq hz _)) (fun _ => ?_) fun _ => ?_
    · refine (passSignature_agrees hg hz (by omega)).bind fun _ _ u u' ⟨hu, hltu, _⟩ => ?_
      refine (passBody_agrees hu hσ).bind fun _ _ v v' ⟨hv, hlev, _⟩ => ?_
      exact textSince_agrees _ h hv (by omega) (by omega)
    refine .takeKind hz (takes_plain hz rfl) (fun hcolon hnext => ?_) fun _ => ?_
    · have hlt := hnext.left
      refine (hg.expr hnext.near (hnext.operand hexprs hcolon rfl) (by omega)).bind
        fun value value' u u' ⟨hu, hltu, hvalue⟩ => ?_
      refine .cond (or_eq_or hcomputed hmodified)
        (fun _ => textSince_agrees _ h hu (by omega) (by omega)) fun _ => ?_
      exact .pure ⟨hu, by omega, fun hfar => by rw [hkey, hvalue hfar]⟩
    have hshort := and_eq_and (check_eq he .word) fun _ =>
      or_eq_or (check_eq hz .comma) (check_eq hz .rightBrace)
    refine .otherwise <| .cond hshort
      (fun _ => .pure ⟨hz, by omega, fun _ => by rw [hkey]⟩) fun _ => ?_
    refine .takeKind hz (takes_plain hz rfl) (fun _ ⟨hu, hltu, _⟩ => ?_) fun _ => .fail hz nofun
    refine (passInitializer_agrees hg hu (by omega)).bind fun _ _ v v' ⟨hv, hlev, _⟩ => ?_
    exact textSince_agrees _ h hv (by omega) (by omega)
  refine .cond hmodified (fun hyes => ?_) fun _ => hnamed _ _ h (Nat.le_refl _)
  obtain ⟨hnext, hlt, -⟩ :=
    next_word h (Cursor.kind_of_seesAnyWord (Bool.and_eq_true_iff.1 hyes).1)
  exact .advance (hnamed _ _ hnext (by omega))

theorem objectLiteral_agrees (hg : P.Kin n g g') (h : P.near σ c c') (hoperand : P.operand σ c)
    (hn : c.left ≤ n) :
    Agree P.faults g.objectLiteral g'.objectLiteral c c' (P.Kept σ c.left) := by
  refine .require h (takes_opens h (not_hole h (P.ready_of_operand hoperand)) rfl)
    fun _ ⟨hc, hltc, _⟩ => ?_
  refine (commaList_agrees (I := fun _ => True) hc trivial (fun _ _ _ _ => trivial)
    fun d d' hd _ hle => (objectMember_agrees hg (P.exprs_of_operand hoperand) hd
      (List.cons_ne_nil _ _) (by omega)).mono fun _ _ _ _ he => he.mono
        (by omega)).bind fun members members' d d' ⟨hd, hled, heq⟩ => ?_
  refine .require hd (takes_closes hd rfl) fun _ ⟨he, hlte, _⟩ => ?_
  exact .pure ⟨he, by omega, fun hfar => by rw [heq (by omega)]⟩

theorem constructionRound_agrees (h : P.near σ c c') {callee callee' : Expr}
    (hcallee : P.horizon ≤ c.left → callee = callee') :
    Agree P.faults (constructionRound callee) (constructionRound callee') c c'
      (P.Found σ c.left) := by
  refine .takeKind h (takes_plain h rfl) (fun _ ⟨hnext, hlt, _⟩ => ?_)
    fun _ => .pure ⟨h, Nat.le_refl _⟩
  exact (word_agrees hnext).bind fun _ _ _ _ ⟨hd, hltd, hword⟩ =>
    .pure ⟨hd, by omega, fun hfar => by rw [hword, hcallee (by omega)]⟩

theorem construction_agrees (hg : P.Kin n g g') (hexprs : P.exprs) (h : P.near σ c c')
    (hn : c.left ≤ n) :
    Agree P.faults g.construction g'.construction c c' (P.Kept σ c.left) := by
  rw [construction_eq g, construction_eq g']
  refine (word_agrees h).bind fun first first' d d' ⟨hd, hltd, hfirst⟩ => ?_
  refine (iterate_kept hd (fun _ => by rw [hfirst])
    fun _ _ _ _ he _ => constructionRound_agrees he).bind
    fun callee callee' e e' ⟨he, hlee, hcallee⟩ => ?_
  refine (typeArgsIfAny_agrees hg he (by omega)).bind fun _ _ z z' ⟨hz, hlez, _⟩ => ?_
  refine (argumentsIfAny_agrees hg hexprs hz (by omega)).bind
    fun args args' u u' ⟨hu, hleu, hargs⟩ => ?_
  exact .pure ⟨hu, by omega, fun hfar => by rw [hcallee (by omega), hargs hfar]⟩

theorem passToBody_agrees (h : P.near σ c c') (hoperand : P.operand σ c)
    (hbody : c.atBodyWord = true) :
    Agree P.faults passToBody passToBody c c' (P.Same σ c.left) :=
  (P.body h hoperand hbody).mono fun _ _ _ _ hd => ⟨hd.1, hd.2, rfl⟩

theorem wordExpr_agrees (hg : P.Kin n g g') (h : P.near σ c c') (hoperand : P.operand σ c)
    (hkind : c.kind = .word) (hn : c.left ≤ n) :
    Agree P.faults g.wordExpr g'.wordExpr c c' (P.Kept σ c.left) := by
  have hc := next_word h hkind
  have hlt := hc.left
  have hexprs := P.exprs_of_operand hoperand
  refine .look <| .cond (seesAnyWord_eq h _) (fun _ => ?_) fun _ => ?_
  · exact .advance (.pure ⟨hc.near, by omega, fun _ => by rw [seesWord_eq h]⟩)
  refine .cond (seesWord_eq h _) (fun _ => ?_) fun _ => ?_
  · exact .advance (.pure ⟨hc.near, by omega, fun _ => rfl⟩)
  refine .cond (seesWord_eq h _) (fun _ => ?_) fun _ => ?_
  · exact .advance <| (construction_agrees hg hexprs hc.near (by omega)).mono
      fun _ _ _ _ hd => hd.mono (by omega)
  refine .cond (seesAnyWord_eq h _) (fun hbody => ?_) fun _ => ?_
  · exact (passToBody_agrees h hoperand hbody).bind fun _ _ _ _ ⟨hd, hltd, _⟩ =>
      textSince_agrees _ h hd (by omega) (by omega)
  refine .cond (congrArg (· == .arrow) hc.kindAhead_eq) (fun _ => ?_) fun _ => ?_
  · exact .advance <| (passArrowBody_agrees hg hc.near (by omega)).bind
      fun _ _ _ _ ⟨hd, hltd, _⟩ => textSince_agrees _ h hd (by omega) (by omega)
  refine .cond (word_ahead_eq h _ fun kind => kind == .leftParen || kind == .word)
    (fun _ => ?_) fun _ => ?_
  · exact .advance <| (passInitializer_agrees hg hc.near (by omega)).bind
      fun _ _ _ _ ⟨hd, hltd, _⟩ => textSince_agrees _ h hd (by omega) (by omega)
  · exact .takeText (.pure ⟨hc.near, by omega, fun _ => by rw [P.text_eq h]⟩)

theorem primaryExpr_agrees (hg : P.Kin n g g') (h : P.near σ c c') (hoperand : P.operand σ c)
    (hn : c.left ≤ n) :
    Agree P.faults g.primaryExpr g'.primaryExpr c c' (P.Kept σ c.left) := by
  refine .look ?_
  rw [← P.kind_eq h]
  split
  next hstring =>
    exact (takeString_agrees h (isPlain_of_eq hstring rfl)).bind fun _ _ _ _ ⟨hd, hlt, heq⟩ =>
      .pure ⟨hd, hlt, fun _ => by rw [heq]⟩
  next hnumber =>
    exact (takeText_agrees h (isPlain_of_eq hnumber rfl)).bind fun _ _ _ _ ⟨hd, hlt, heq⟩ =>
      .pure ⟨hd, hlt, fun _ => by rw [heq]⟩
  next htemplate =>
    exact (takeString_agrees h (isPlain_of_eq htemplate rfl)).bind fun _ _ _ _ ⟨hd, hlt, heq⟩ =>
      .pure ⟨hd, hlt, fun _ => by rw [heq, P.text_eq h]⟩
  next => exact objectLiteral_agrees hg h hoperand hn
  next hbracket =>
    have hnext := takes_opens h (not_hole_of_kind hbracket nofun) rfl hbracket
    have hlt := hnext.left
    refine .advance <| (exprList_agrees hg hnext.near
      (hnext.operand (P.exprs_of_operand hoperand) hbracket rfl) rfl (by omega)).bind
      fun items items' d d' ⟨hd, hled, heq⟩ => ?_
    refine .require hd (takes_closes hd rfl) fun _ ⟨he, hlte, _⟩ => ?_
    exact .pure ⟨he, by omega, fun hfar => by rw [heq (by omega)]⟩
  next hparen =>
    refine .cond (P.arrow_eq h) (fun _ => ?_) fun _ => ?_
    · refine (passGroup_agrees h).bind fun _ _ d d' ⟨hd, hltd, _⟩ => ?_
      refine (passArrowBody_agrees hg hd (by omega)).bind fun _ _ e e' ⟨he, hlte, _⟩ => ?_
      exact textSince_agrees _ h he (by omega) (by omega)
    have hnext := takes_opens h (not_hole_of_kind hparen nofun) rfl hparen
    have hlt := hnext.left
    refine .advance <| (hg.expr hnext.near
      (hnext.operand (P.exprs_of_operand hoperand) hparen rfl) (by omega)).bind
      fun inner inner' d d' ⟨hd, hltd, heq⟩ => ?_
    refine .require hd (takes_closes hd rfl) fun _ ⟨he, hlte, _⟩ => ?_
    exact .pure ⟨he, by omega, fun hfar => heq (by omega)⟩
  next hword => exact wordExpr_agrees hg h hoperand hword hn
  iterate 6
    exact .fail h nofun
  next _ _ _ hbrace hbracket hparen _ _ hsemicolon hparen' hbracket' hbrace' hfile =>
    have hplain : c.kind.isPlain = true := Token.Kind.isPlain_of_no_bracket hfile hsemicolon hparen
      hbracket hbrace hparen' hbracket' hbrace'
    obtain ⟨hnext, hlt, -⟩ := next_plain h hplain
    exact .advance <| (passInitializer_agrees hg hnext (by omega)).bind
      fun _ _ _ _ ⟨hd, hled, _⟩ => textSince_agrees _ h hd (by omega) (by omega)

theorem exprSuffix_agrees (hg : P.Kin n g g') (hexprs : P.exprs) (hs : P.near τ s s')
    (h : P.near σ c c') (hlt : c.left < s.left) (hn : c.left ≤ n) {expr expr' : Expr}
    (hexpr : P.horizon ≤ c.left → expr = expr') :
    Agree P.faults (g.exprSuffix s expr) (g'.exprSuffix s' expr') c c' (P.Found σ c.left) := by
  have hnewline := P.newline_eq h (Nat.lt_of_lt_of_le hlt (P.left_le hs))
  have hstops : Agree P.faults (pure none) (pure none) c c' (P.Found (α := Expr) σ c.left) :=
    .pure ⟨h, Nat.le_refl _⟩
  refine .look ?_
  rw [← P.kind_eq h]
  split
  next hdot =>
    obtain ⟨hnext, hlt', -⟩ := takes_plain h rfl hdot
    exact .advance <| (word_agrees hnext).bind fun _ _ _ _ ⟨hd, hltd, hword⟩ =>
      .pure ⟨hd, by omega, fun hfar => by rw [hword, hexpr (by omega)]⟩
  next hquestion =>
    have hc := takes_plain h rfl hquestion
    have hltc := hc.left
    refine .cond (congrArg (· != .dot) hc.kindAhead_eq) (fun _ => hstops) fun hdot => ?_
    rw [Cursor.kindAhead_succ, bne_eq_false_iff_eq] at hdot
    obtain ⟨hnext, hlt', -⟩ := takes_plain hc.near rfl hdot
    refine .advance <| .advance <| .look <|
      .cond (or_eq_or (check_eq hnext _) (check_eq hnext _)) (fun _ => ?_) fun _ => ?_
    · exact (passGroup_agrees hnext).bind fun _ _ _ _ ⟨hd, hltd, _⟩ =>
        textSince_found _ hs hd (by omega) (by omega)
    · exact (word_agrees hnext).bind fun _ _ _ _ ⟨hd, hltd, _⟩ =>
        textSince_found _ hs hd (by omega) (by omega)
  next =>
    exact (arguments_agrees hg hexprs h hn).bind fun _ _ _ _ ⟨hd, hltd, hargs⟩ =>
      .pure ⟨hd, hltd, fun hfar => by rw [hargs hfar, hexpr (by omega)]⟩
  next =>
    refine .cond hnewline (fun _ => hstops) fun _ => ?_
    exact (passGroup_agrees h).bind fun _ _ _ _ ⟨hd, hltd, _⟩ =>
      textSince_found _ hs hd (by omega) (by omega)
  next hbang =>
    have hc := takes_plain h rfl hbang
    have hltc := hc.left
    refine .cond (or_eq_or hnewline (congrArg (· == .equals) hc.kindAhead_eq)) (fun _ => hstops)
      fun _ => .advance ?_
    exact .pure ⟨hc.near, by omega, fun hfar => hexpr (by omega)⟩
  next htemplate =>
    obtain ⟨hc, hltc, -⟩ := takes_plain h rfl htemplate
    refine .cond hnewline (fun _ => hstops) fun _ => .advance ?_
    exact textSince_found _ hs hc (by omega) (by omega)
  next => exact hstops

theorem operandExpr_agrees (hg : P.Kin n g g') (h : P.near σ c c') (hoperand : P.operand σ c)
    (hn : c.left ≤ n) :
    Agree P.faults g.operandExpr g'.operandExpr c c' (P.Kept σ c.left) := by
  refine .look <| (primaryExpr_agrees hg h hoperand hn).bind
    fun expr expr' d d' ⟨hd, hltd, heq⟩ => ?_
  exact (iterate_kept hd heq fun e e' z z' hz hle he =>
    exprSuffix_agrees hg (P.exprs_of_operand hoperand) h hz (by omega)
      (by omega) he).mono fun _ _ _ _ hz => hz.mono (by omega)

theorem unaryRule_agrees (hg : P.Kin n g g') (h : P.near σ c c') (hoperand : P.operand σ c)
    (hn : c.left ≤ n) :
    Agree P.faults g.unaryRule g'.unaryRule c c' (P.Kept σ c.left) := by
  refine .takeKind h (takes_plain h rfl) (fun hminus hnext => ?_) fun _ => .otherwise <| .look ?_
  · have hlt := hnext.left
    exact (hg.unary hnext.near (hnext.operand (P.exprs_of_operand hoperand) hminus rfl)
      (by omega)).bind
      fun _ _ _ _ ⟨hd, hltd, heq⟩ => .pure ⟨hd, by omega, fun hfar => by rw [heq hfar]⟩
  refine .cond (kind_ahead_eq h rfl (· == .number)) (fun hyes => ?_)
    fun _ => operandExpr_agrees hg h hoperand hn
  have hplus := Cursor.kind_of_check (Bool.and_eq_true_iff.1 hyes).1
  have hnext := takes_plain h rfl hplus
  have hlt := hnext.left
  exact .advance <| (operandExpr_agrees hg hnext.near
    (hnext.operand (P.exprs_of_operand hoperand) hplus rfl) (by omega)).mono fun _ _ _ _ hd =>
      hd.mono (by omega)

theorem atExprEnd_eq (h : P.near σ c c') : atExprEnd c = atExprEnd c' := by
  rw [atExprEnd, atExprEnd, P.kind_eq h, P.break_eq h]

/-- A cast stands behind an operand. -/
theorem castRound_agrees (hg : P.Kin n g g') (h : P.near σ c c') (htop : c.left < P.top)
    (hn : c.left ≤ n) :
    Agree P.faults g.castRound g'.castRound c c' (P.Round σ c.left) := by
  refine .look <| .cond (by rw [seesAnyWord_eq h, P.newline_eq h htop]) (fun hyes => ?_)
    fun _ => .pure ⟨h, Nat.le_refl _, rfl, nofun⟩
  have hwords := (Bool.and_eq_true_iff.1 hyes).1
  have hnext := next_word h (Cursor.kind_of_seesAnyWord hwords)
  have hlt := hnext.left
  have hready : P.ready c.advance := by
    have hheads : ∀ word ∈ ["as", "satisfies"], Token.headWords.contains word = true := by decide
    obtain ⟨word, hmem, hword⟩ := List.any_eq_true.1 hwords
    exact hnext.ready_word hword (hheads word hmem)
  refine .advance <| .takeWord hnext.near (fun _ ⟨hd, hltd, _⟩ => ?_) fun _ => ?_
  · exact .pure ⟨hd, by omega, rfl, fun _ => by omega⟩
  · exact (hg.type hnext.near hready (by omega)).bind fun _ _ _ _ ⟨hd, hltd, _⟩ =>
      .pure ⟨hd, by omega, rfl, fun _ => by omega⟩

theorem passCasts_agrees (hg : P.Kin n g g') (h : P.near σ c c') (htop : c.left < P.top)
    (hn : c.left ≤ n) :
    Agree P.faults g.passCasts g'.passCasts c c' (P.Same σ (c.left + 1)) := by
  rw [passCasts_eq g, passCasts_eq g']
  exact skipWhile_agrees h fun _ _ hd hle => castRound_agrees hg hd (by omega) (by omega)

theorem exprRule_agrees (hg : P.Kin n g g') (h : P.near σ c c') (hoperand : P.operand σ c)
    (hn : c.left ≤ n) :
    Agree P.faults g.exprRule g'.exprRule c c' (P.Kept σ c.left) := by
  have htop := P.left_le h
  refine .look <| (unaryRule_agrees hg h hoperand hn).bind fun expr expr' d d' ⟨hd, hltd, heq⟩ => ?_
  refine (passCasts_agrees hg hd (by omega) (by omega)).bind fun _ _ e e' ⟨he, hlee, _⟩ => .look ?_
  refine .cond (atExprEnd_eq he)
    (fun _ => .pure ⟨he, by omega, fun hfar => heq (by omega)⟩) fun _ => ?_
  refine (passInitializer_agrees hg he (by omega)).bind fun _ _ z z' ⟨hz, hlez, _⟩ => ?_
  exact textSince_agrees _ h hz (by omega) (by omega)

theorem next_kin (hg : P.Kin n g g') : P.Kin (n + 1) g.next g'.next where
  type h hready hn := typeRule_agrees hg h hready (Nat.le_of_lt_succ hn)
  operandType h hready hn := operandTypeRule_agrees hg h hready (Nat.le_of_lt_succ hn)
  expr h hoperand hn := exprRule_agrees hg h hoperand (Nat.le_of_lt_succ hn)
  unary h hoperand hn := unaryRule_agrees hg h hoperand (Nat.le_of_lt_succ hn)

/-- A grammar with more levels than there are tokens ahead reads what any such grammar reads. -/
theorem withLevels_kin (P : Pairing) {levels levels' : Nat} (hn : n ≤ levels)
    (hn' : n ≤ levels') : P.Kin n (withLevels levels) (withLevels levels') := by
  induction n generalizing levels levels' with
  | zero => exact ⟨
      fun _ _ h => absurd h (Nat.not_lt_zero _), fun _ _ h => absurd h (Nat.not_lt_zero _),
      fun _ _ h => absurd h (Nat.not_lt_zero _), fun _ _ h => absurd h (Nat.not_lt_zero _)⟩
  | succ n ih =>
      match levels, levels', hn, hn' with
      | levels + 1, levels' + 1, hn, hn' =>
          exact next_kin (ih (Nat.le_of_succ_le_succ hn) (Nat.le_of_succ_le_succ hn'))

end HandlerWeave.Source.Grammar
