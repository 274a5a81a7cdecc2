import HandlerWeave.Proofs.Lockstep.Rules

/-!
Paired runs of what types and expressions share. Both grammars are asked to read alike what is
nested with fewer than `n` tokens ahead, and read alike whatever has that nested in it.
-/
namespace HandlerWeave.Source

open Source.Parser Pairing

namespace Pairing

variable {α : Type}

/-- Both parsers read alike what is nested in a production with fewer than `n` tokens ahead, at
places where it can start. -/
def Nested (P : Pairing) (n : Nat) (starts : List Token.Kind → Cursor → Prop) (p p' : Parser α) :
    Prop :=
  ∀ {σ c c'}, P.near σ c c' → starts σ c → c.left < n → Agree P.faults p p' c c' (P.Kept σ c.left)

/-- Both grammars read alike what is nested in a production. -/
structure Kin (P : Pairing) (n : Nat) (g g' : Grammar) : Prop where
  type : P.Nested n (fun _ => P.ready) g.type g'.type
  operandType : P.Nested n (fun _ => P.ready) g.operandType g'.operandType
  expr : P.Nested n P.operand g.expr g'.expr
  unary : P.Nested n P.operand g.unary g'.unary

end Pairing

namespace Grammar

variable {P : Pairing} {n m : Nat} {g g' : Grammar} {σ τ : List Token.Kind} {c c' s s' : Cursor}
  {closer : Token.Kind}

theorem typeArgs_agrees (hg : P.Kin n g g') (h : P.near σ c c') (hn : c.left ≤ n) :
    Agree P.faults g.typeArgs g'.typeArgs c c' (P.Kept σ c.left) := by
  refine .require h (takes_plain h rfl) fun hless ⟨hc, hlt, hbefore⟩ => ?_
  refine (commaList_agrees (I := P.ready) hc (Next.ready ⟨hc, hlt, hbefore⟩ hless rfl)
    (fun _ _ hd hcomma => hd.ready hcomma rfl)
    fun d d' hd hI hle => (hg.type hd hI (by omega)).mono fun _ _ _ _ he => he.mono (by omega)).bind
    fun args args' d d' ⟨hd, hle, heq⟩ => ?_
  refine .require hd (takes_plain hd rfl) fun _ ⟨he, hlt', _⟩ => ?_
  exact .pure ⟨he, by omega, fun hz => heq (by omega)⟩

theorem typeArgsIfAny_agrees (hg : P.Kin n g g') (h : P.near σ c c') (hn : c.left ≤ n) :
    Agree P.faults g.typeArgsIfAny g'.typeArgsIfAny c c' (P.Kept σ (c.left + 1)) :=
  .look <| .cond (check_eq h _)
    (fun _ => (typeArgs_agrees hg h hn).mono fun _ _ _ _ hd => hd.mono (by omega))
    fun _ => .pure ⟨h, by omega, fun _ => rfl⟩

theorem nameRound_agrees (h : P.near σ c c') :
    Agree P.faults nameRound nameRound c c' (P.Found σ c.left) := by
  refine .look <| .cond (kind_ahead_eq h rfl (· == .word)) (fun hyes => ?_)
    fun _ => .pure ⟨h, Nat.le_refl _⟩
  obtain ⟨hnext, hlt, -⟩ :=
    takes_plain h rfl (Cursor.kind_of_check (Bool.and_eq_true_iff.1 hyes).1)
  exact .advance <| (word_agrees hnext).bind fun _ _ _ _ ⟨hd, hltd, heq⟩ =>
    .pure ⟨hd, by omega, fun _ => heq⟩

theorem qualifiedName_agrees (h : P.near σ c c') :
    Agree P.faults qualifiedName qualifiedName c c' (P.Kept σ c.left) := by
  refine (word_agrees h).bind fun first first' d d' ⟨hd, hlt, hfirst⟩ => ?_
  refine (many_agrees hd fun _ _ he _ => nameRound_agrees he).bind
    fun rest rest' z z' ⟨hz, hle, hrest⟩ => ?_
  split <;> split <;> exact .pure ⟨hz, by omega, fun hfar => by simp_all⟩

/-- Where the type arguments do not count, both runs stay where they are. -/
theorem callTypeArgs_agrees (hg : P.Kin n g g') (h : P.near σ c c') (hn : c.left ≤ n) :
    Agree P.faults g.callTypeArgs g'.callTypeArgs c c' fun more more' d d' => more = more' ∧
      if more then P.near σ d d' ∧ d.left < c.left else d = c ∧ d' = c' := by
  have hargs := typeArgs_agrees hg h hn
  unfold Agree at hargs
  unfold Agree callTypeArgs
  rw [← P.wordBefore_eq h]
  cases c.before.any (·.kind == .word) with
  | false => exact ⟨rfl, rfl, rfl⟩
  | true =>
      simp only [↓reduceIte]
      split at hargs
      next args d args' d' hok hok' =>
        rw [hok, hok']
        simp only [← check_eq hargs.near]
        cases d.check .leftParen with
        | false => exact ⟨rfl, rfl, rfl⟩
        | true => exact ⟨rfl, hargs.near, hargs.left⟩
      next e e' herror herror' =>
        rw [herror, herror']
        exact ⟨rfl, rfl, rfl⟩
      · exact hargs.elim

theorem initializerRound_agrees (hg : P.Kin n g g') (h : P.near σ c c') (hn : c.left ≤ n) :
    Agree P.faults g.initializerRound g'.initializerRound c c' (P.Round σ c.left) := by
  have hstops : Agree P.faults (pure false) (pure false) c c' (P.Round σ c.left) :=
    .pure ⟨h, Nat.le_refl _, rfl, nofun⟩
  refine .look ?_
  rw [← P.kind_eq h]
  split
  iterate 6
    exact hstops
  iterate 3
    exact (passGroup_agrees h).bind fun _ _ _ _ ⟨hd, hlt, _⟩ =>
      .pure ⟨hd, Nat.le_of_lt hlt, rfl, fun _ => hlt⟩
  next hfile hsemicolon _ hparen' hbracket' hbrace' hparen hbracket hbrace =>
    extract_lets pass pass'
    have hplain : c.kind.isPlain = true := Token.Kind.isPlain_of_no_bracket hfile hsemicolon hparen
      hbracket hbrace hparen' hbracket' hbrace'
    have hpass : Agree P.faults (pass ()) (pass' ()) c c' (P.Round σ c.left) := by
      obtain ⟨hnext, hlt, -⟩ := next_plain h hplain
      exact .cond (P.break_eq h) (fun _ => hstops) fun _ =>
        .advance (.pure ⟨hnext, by omega, rfl, fun _ => by omega⟩)
    refine .cond rfl (fun _ => ?_) fun _ => hpass
    refine (callTypeArgs_agrees hg h hn).bind fun more more' d d' ⟨hmore, hd⟩ => ?_
    subst hmore
    cases more with
    | true => exact .pure ⟨hd.1, Nat.le_of_lt hd.2, rfl, fun _ => hd.2⟩
    | false =>
        obtain ⟨rfl, rfl⟩ := hd
        exact hpass

theorem passInitializer_agrees (hg : P.Kin n g g') (h : P.near σ c c') (hn : c.left ≤ n) :
    Agree P.faults g.passInitializer g'.passInitializer c c' (P.Same σ (c.left + 1)) := by
  rw [passInitializer_eq g, passInitializer_eq g']
  exact skipWhile_agrees h fun _ _ hd hle => initializerRound_agrees hg hd (by omega)

theorem listedExpr_agrees (hg : P.Kin n g g') (h : P.near σ c c') (hoperand : P.operand σ c)
    (hn : c.left < n) :
    Agree P.faults g.listedExpr g'.listedExpr c c' (P.Kept σ (c.left + 1)) := by
  refine .look <| .cond (check_eq h _) (fun _ => .pure ⟨h, by omega, fun _ => rfl⟩) fun _ => ?_
  refine .takeKind h (takes_plain h rfl) (fun hdots hnext => ?_) fun _ => ?_
  · have hlt := hnext.left
    refine (hg.expr hnext.near (hnext.operand (P.exprs_of_operand hoperand) hdots rfl)
      (by omega)).bind fun _ _ d d' ⟨hd, hlt', _⟩ => ?_
    exact textSince_agrees Expr.verbatim h hd (by omega) (by omega)
  · exact (hg.expr h hoperand hn).mono fun _ _ _ _ hd => hd.mono (by omega)

theorem exprList_agrees (hg : P.Kin n g g') (h : P.near (closer :: σ) c c')
    (hoperand : P.operand (closer :: σ) c) (hcloser : Token.Kind.comma.leads (some closer) = true)
    (hn : c.left < n) :
    Agree P.faults (g.exprList closer) (g'.exprList closer) c c'
      (P.Kept (closer :: σ) (c.left + 1)) := by
  rw [exprList_eq g, exprList_eq g']
  exact commaList_agrees (I := P.operand (closer :: σ)) h hoperand
    (fun _ _ hd hcomma => hd.operand (P.exprs_of_operand hoperand) hcomma hcloser)
    fun _ _ hd hI hle => listedExpr_agrees hg hd hI (by omega)

theorem arguments_agrees (hg : P.Kin n g g') (hexprs : P.exprs) (h : P.near σ c c')
    (hn : c.left ≤ n) :
    Agree P.faults g.arguments g'.arguments c c' (P.Kept σ c.left) := by
  refine .require h (fun hparen => takes_opens h (not_hole_of_kind hparen nofun) rfl hparen)
    fun hparen hnext => ?_
  have hlt := hnext.left
  refine (exprList_agrees hg hnext.near (hnext.operand hexprs hparen rfl) rfl (by omega)).bind
    fun args args' d d' ⟨hd, hle, heq⟩ => ?_
  refine .require hd (takes_closes hd rfl) fun _ ⟨he, hlt', _⟩ => ?_
  exact .pure ⟨he, by omega, fun hz => heq (by omega)⟩

theorem argumentsIfAny_agrees (hg : P.Kin n g g') (hexprs : P.exprs) (h : P.near σ c c')
    (hn : c.left ≤ n) :
    Agree P.faults g.argumentsIfAny g'.argumentsIfAny c c' (P.Kept σ (c.left + 1)) :=
  .look <| .cond (check_eq h _)
    (fun _ => (arguments_agrees hg hexprs h hn).mono fun _ _ _ _ hd => hd.mono (by omega))
    fun _ => .pure ⟨h, by omega, fun _ => rfl⟩

theorem decoratorName_agrees (h : P.near σ c c') :
    Agree P.faults (separated .dot (word "decorator name")) (separated .dot (word "decorator name"))
      c c' (P.Kept σ c.left) :=
  separated_agrees (I := fun _ => True) rfl h trivial (fun _ _ _ _ => trivial)
    fun _ _ hd _ _ => (word_agrees hd).mono fun _ _ _ _ => Same.kept

theorem decoratorRound_agrees (hg : P.Kin n g g') (h : P.near σ c c') (hn : c.left ≤ n) :
    Agree P.faults g.decoratorRound g'.decoratorRound c c' (P.Found σ c.left) := by
  refine .takeKind h (takes_plain h rfl) (fun hsign ⟨hnext, hlt, _⟩ => ?_)
    fun _ => .pure ⟨h, Nat.le_refl _⟩
  refine (decoratorName_agrees hnext).bind fun path path' d d' ⟨hd, hlt', hpath⟩ => ?_
  refine (argumentsIfAny_agrees hg (P.decorated h hsign) hd (by omega)).bind
    fun args args' e e' ⟨he, hle, hargs⟩ => ?_
  exact .pure ⟨he, by omega, fun hfar => by rw [hpath (by omega), hargs hfar]⟩

theorem decorators_agrees (hg : P.Kin n g g') (h : P.near σ c c') (hn : c.left ≤ n) :
    Agree P.faults g.decorators g'.decorators c c' (P.Kept σ (c.left + 1)) := by
  rw [decorators_eq g, decorators_eq g']
  exact many_agrees h fun _ _ hd hle => decoratorRound_agrees hg hd (by omega)

theorem typeParamWordRound_agrees (h : P.near σ c c') :
    Agree P.faults typeParamWordRound typeParamWordRound c c' (P.Round σ c.left) := by
  refine .look <| .cond (words_ahead_eq h _ (· == .word)) (fun hyes => ?_)
    fun _ => .pure ⟨h, Nat.le_refl _, rfl, nofun⟩
  obtain ⟨hnext, hlt, -⟩ :=
    next_word h (Cursor.kind_of_seesAnyWord (Bool.and_eq_true_iff.1 hyes).1)
  exact .advance (.pure ⟨hnext, by omega, rfl, fun _ => by omega⟩)

theorem namedTypeParam_agrees (hg : P.Kin n g g') (h : P.near σ c c') (hn : c.left ≤ n) :
    Agree P.faults g.namedTypeParam g'.namedTypeParam c c' (P.Kept σ c.left) := by
  refine (word_agrees h).bind fun name name' e e' ⟨he, hlt, hname⟩ => ?_
  have hrest : ∀ constraint constraint' z z', P.near σ z z' → z.left ≤ e.left →
      (P.horizon ≤ z.left → constraint = constraint') → Agree P.faults (do
        let fallback ← after .equals g.type
        return (⟨name, constraint, fallback⟩ : TypeParam)) (do
        let fallback ← after .equals g'.type
        return (⟨name', constraint', fallback⟩ : TypeParam)) z z' (P.Kept σ c.left) := by
    intro constraint constraint' z z' hz hle' hconstraint
    refine (after_agrees rfl hz fun hequals hnext => ?_).bind
      fun fallback fallback' u u' ⟨hu, hlt', hfallback⟩ => ?_
    · have hlt' := hnext.left
      exact (hg.type hnext.near (hnext.ready hequals rfl) (by omega)).mono
        fun _ _ _ _ hd => hd.mono (by omega)
    · exact .pure ⟨hu, by omega,
        fun hfar => by rw [hname, hconstraint (by omega), hfallback hfar]⟩
  refine .takeWord he (fun hextends hnext => ?_)
    fun _ => hrest none none _ _ he (Nat.le_refl _) fun _ => rfl
  have hlt' := hnext.left
  refine ((hg.type hnext.near (hnext.ready_word hextends rfl) (by omega)).map
    (S := P.Kept σ e.left) fun _ _ _ _ ⟨hz, hlt'', heq⟩ => ?_).bind
    fun constraint constraint' z z' ⟨hz, hlt'', heq⟩ => hrest _ _ _ _ hz (by omega) heq
  exact ⟨hz, by omega, fun hfar => by rw [heq hfar]⟩

theorem typeParam_agrees (hg : P.Kin n g g') (h : P.near σ c c') (hn : c.left ≤ n) :
    Agree P.faults g.typeParam g'.typeParam c c' (P.Kept σ c.left) := by
  rw [typeParam_eq g, typeParam_eq g']
  exact (skipWhile_agrees h fun _ _ hd _ => typeParamWordRound_agrees hd).bind
    fun _ _ d d' ⟨hd, hle, _⟩ => (namedTypeParam_agrees hg hd (by omega)).mono
      fun _ _ _ _ he => he.mono (by omega)

theorem typeParams_agrees (hg : P.Kin n g g') (h : P.near σ c c') (hn : c.left ≤ n) :
    Agree P.faults g.typeParams g'.typeParams c c' (P.Kept σ (c.left + 1)) := by
  refine .takeKind h (takes_plain h rfl) (fun _ ⟨hnext, hlt, _⟩ => ?_)
    fun _ => .pure ⟨h, by omega, fun _ => rfl⟩
  refine (commaList_agrees (I := fun _ => True) hnext trivial (fun _ _ _ _ => trivial)
    fun d d' hd _ hle => (typeParam_agrees hg hd (by omega)).mono
      fun _ _ _ _ he => he.mono (by omega)).bind fun params params' d d' ⟨hd, hle, heq⟩ => ?_
  refine .require hd (takes_plain hd rfl) fun _ ⟨he, hlt', _⟩ => ?_
  exact .pure ⟨he, by omega, fun hz => heq (by omega)⟩

theorem bindingName_agrees {what : String} (h : P.near σ c c') :
    Agree P.faults (bindingName what) (bindingName what) c c' (P.Same σ c.left) := by
  refine .look ?_
  rw [← P.kind_eq h]
  split
  next hword => exact takeText_agrees h (by rw [hword]; rfl)
  iterate 2
    exact (passGroup_agrees h).bind fun _ _ _ _ ⟨hd, hlt, _⟩ => .pure ⟨hd, hlt, rfl⟩
  · exact .fail h nofun

theorem paramWordRound_agrees (h : P.near σ c c') (property property' : Bool) :
    Agree P.faults (paramWordRound property) (paramWordRound property') c c'
      (P.Found σ c.left) := by
  refine .look <| .cond
    (words_ahead_eq h _ [.word, .leftBrace, .leftBracket, .ellipsis].contains)
    (fun hyes => ?_) fun _ => .pure ⟨h, Nat.le_refl _⟩
  obtain ⟨hnext, hlt, -⟩ :=
    next_word h (Cursor.kind_of_seesAnyWord (Bool.and_eq_true_iff.1 hyes).1)
  exact .advance (.pure ⟨hnext, by omega, fun _ => rfl⟩)

theorem param_agrees (hg : P.Kin n g g') (h : P.near σ c c') (hn : c.left ≤ n) :
    Agree P.faults g.param g'.param c c' (P.Kept σ c.left) := by
  rw [param_eq g, param_eq g']
  refine (decorators_agrees hg h hn).bind fun decs decs' d d' ⟨hd, hled, hdecs⟩ => ?_
  refine (iterate_kept hd (fun _ => rfl) fun b b' _ _ he _ _ => paramWordRound_agrees he b b').bind
    fun property property' e e' ⟨he, hlee, hproperty⟩ => ?_
  refine (takeKind_agrees he rfl).bind fun rest rest' z z' ⟨hz, hlez, hrest⟩ => ?_
  refine (bindingName_agrees hz).bind fun name name' u u' ⟨hu, hltu, hname⟩ => ?_
  refine (takeKind_agrees hu rfl).bind fun optional optional' v v' ⟨hv, hlev, hoptional⟩ => ?_
  refine (after_agrees rfl hv fun hcolon hnext => ?_).bind
    fun type type' w w' ⟨hw, hlew, htype⟩ => ?_
  · have hlt := hnext.left
    exact (hg.type hnext.near (hnext.ready hcolon rfl) (by omega)).mono
      fun _ _ _ _ hd => hd.mono (by omega)
  have hparam : P.horizon ≤ w.left → (⟨name, type, optional, rest, property, decs⟩ : Param) =
      ⟨name', type', optional', rest', property', decs'⟩ := fun hfar => by
    rw [hname, htype hfar, hoptional, hrest, hproperty (by omega), hdecs (by omega)]
  refine .takeKind hw (takes_plain hw rfl) (fun _ ⟨hnext, hlt, _⟩ => ?_)
    fun _ => .pure ⟨hw, by omega, hparam⟩
  refine (passInitializer_agrees hg hnext (by omega)).bind fun _ _ x x' ⟨hx, hlex, _⟩ => ?_
  exact .pure ⟨hx, by omega, fun hfar => hparam (by omega)⟩

theorem params_agrees (hg : P.Kin n g g') (h : P.near σ c c') (hn : c.left ≤ n) :
    Agree P.faults g.params g'.params c c' (P.Kept σ c.left) := by
  refine .require h (fun hparen => takes_opens h (not_hole_of_kind hparen nofun) rfl hparen)
    fun _ ⟨hnext, hlt, _⟩ => ?_
  refine (commaList_agrees (I := fun _ => True) hnext trivial (fun _ _ _ _ => trivial)
    fun d d' hd _ hle => (param_agrees hg hd (by omega)).mono
      fun _ _ _ _ he => he.mono (by omega)).bind fun params params' d d' ⟨hd, hle, heq⟩ => ?_
  refine .require hd (takes_closes hd rfl) fun _ ⟨he, hlt', _⟩ => ?_
  exact .pure ⟨he, by omega, fun hz => heq (by omega)⟩

theorem returnType_agrees (hg : P.Kin n g g') (h : P.near σ c c') (hready : P.ready c)
    (hn : c.left < n) :
    Agree P.faults g.returnType g'.returnType c c' (P.Kept σ c.left) := by
  refine .look <| .cond (word_ahead_eq h _ (· == .word)) (fun hyes => ?_) fun _ => ?_
  · obtain ⟨hword, hahead⟩ := Bool.and_eq_true_iff.1 hyes
    obtain ⟨hc, hlt, -⟩ := next_word h (Cursor.kind_of_seesWord hword)
    obtain ⟨hd, hlt', -⟩ := next_word hc (by rwa [Cursor.kindAhead_succ, beq_iff_eq] at hahead)
    refine .advance <| .advance <| .takeWord hd (fun his hnext => ?_)
      fun _ => textSince_agrees _ h hd (by omega) (by omega)
    have hlt'' := hnext.left
    refine (hg.type hnext.near (hnext.ready_word his rfl) (by omega)).bind
      fun _ _ e e' ⟨he, hle, _⟩ => ?_
    exact textSince_agrees _ h he (by omega) (by omega)
  · refine .cond (and_eq_and (check_eq h _) fun hword =>
      (next_word h (Cursor.kind_of_check hword)).wordAt_eq "is") (fun hyes => ?_)
      fun _ => hg.type h hready hn
    obtain ⟨hword, his⟩ := Bool.and_eq_true_iff.1 hyes
    rw [Cursor.wordAt_succ] at his
    obtain ⟨hc, hlt, -⟩ := next_word h (Cursor.kind_of_check hword)
    have hnext := next_word hc (Cursor.kind_of_seesWord his)
    have hlt' := hnext.left
    refine .advance <| .advance <| (hg.type hnext.near (hnext.ready_word his rfl) (by omega)).bind
      fun _ _ e e' ⟨he, hle, _⟩ => ?_
    exact textSince_agrees _ h he (by omega) (by omega)

theorem passSignature_agrees (hg : P.Kin n g g') (h : P.near σ c c') (hn : c.left ≤ n) :
    Agree P.faults g.passSignature g'.passSignature c c' (P.Same σ c.left) := by
  refine (typeParams_agrees hg h hn).bind fun _ _ d d' ⟨hd, hled, _⟩ => ?_
  refine (params_agrees hg hd (by omega)).bind fun _ _ e e' ⟨he, hlte, _⟩ => ?_
  refine (after_agrees rfl he fun hcolon hnext => ?_).bind
    fun _ _ z z' ⟨hz, hlez, _⟩ => .pure ⟨hz, by omega, rfl⟩
  have hlt := hnext.left
  exact (returnType_agrees hg hnext.near (hnext.ready hcolon rfl) (by omega)).mono
    fun _ _ _ _ hd => hd.mono (by omega)

theorem passBody_agrees (h : P.near σ c c') (hσ : σ ≠ []) :
    Agree P.faults passBody passBody c c' (P.Same σ (c.left + 1)) := by
  refine .look <| .cond (check_eq h _)
    (fun _ => (passGroup_agrees h).mono fun _ _ _ _ ⟨hd, hlt, _⟩ => ⟨hd, by omega, rfl⟩)
    fun _ => ?_
  refine .takeKind h (takes_semicolon h hσ) (fun _ ⟨hnext, hlt, _⟩ => ?_)
    fun _ => .pure ⟨h, by omega, rfl⟩
  exact .pure ⟨hnext, by omega, rfl⟩

theorem indexSignature_agrees (hg : P.Kin n g g') (h : P.near σ c c') (hn : c.left ≤ n) :
    Agree P.faults g.indexSignature g'.indexSignature c c' (P.Kept σ c.left) := by
  refine .require h (fun hkind => takes_opens h (not_hole_of_kind hkind nofun) rfl hkind)
    fun _ ⟨hc, hltc, _⟩ => ?_
  refine (word_agrees hc).bind fun keyName keyName' d d' ⟨hd, hltd, hkey⟩ => ?_
  refine .require hd (takes_plain hd rfl) fun hcolon hnext => ?_
  have hlt := hnext.left
  refine (hg.type hnext.near (hnext.ready hcolon rfl) (by omega)).bind
    fun keyType keyType' e e' ⟨he, hlte, hkeyType⟩ => ?_
  refine .require he (takes_closes he rfl) fun _ ⟨hz, hltz, _⟩ => ?_
  refine .require hz (takes_plain hz rfl) fun hcolon' hnext' => ?_
  have hlt' := hnext'.left
  refine (hg.type hnext'.near (hnext'.ready hcolon' rfl) (by omega)).bind
    fun type type' u u' ⟨hu, hltu, htype⟩ => ?_
  exact .pure ⟨hu, by omega, fun hfar => by rw [hkey, hkeyType (by omega), htype hfar]⟩

theorem memberName_agrees {what : String} (h : P.near σ c c') :
    Agree P.faults (memberName what) (memberName what) c c' (P.Same σ c.left) := by
  refine .look ?_
  rw [← P.kind_eq h]
  split
  next hkind => exact takeText_agrees h (by rw [hkind]; rfl)
  next hkind => exact takeText_agrees h (by rw [hkind]; rfl)
  next hkind => exact takeString_agrees h (by rw [hkind]; rfl)
  · exact (passGroup_agrees h).bind fun _ _ _ _ ⟨hd, hlt, _⟩ => .pure ⟨hd, hlt, rfl⟩
  · exact .fail h nofun

theorem atIndexSignature_eq (h : P.near σ c c') :
    atIndexSignature c = atIndexSignature c' := by
  rw [atIndexSignature, atIndexSignature, Bool.and_assoc, Bool.and_assoc]
  refine and_eq_and (check_eq h _) fun hbracket => ?_
  have hkind := Cursor.kind_of_check hbracket
  have hnext := (takes_opens h (not_hole_of_kind hkind nofun) rfl hkind).near
  rw [Cursor.kindAhead_succ c 0, Cursor.kindAhead_succ c 1, Cursor.kindAhead_succ c' 0,
    Cursor.kindAhead_succ c' 1]
  exact kind_ahead_eq hnext rfl (· == .colon)

end Grammar

end HandlerWeave.Source
