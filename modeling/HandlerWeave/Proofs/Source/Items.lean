import HandlerWeave.Proofs.Source.Regular
import HandlerWeave.Source.Parse

/-!
The items that a text is parsed to: the names of declarations are words, and the types, members and
numbers in them are as the grammar has them.
-/
namespace HandlerWeave.Source

open Source.Parser

variable {tokens : List Token} {g : Grammar} {c : Cursor}

namespace Grammar

theorem verbatimExpr_keeps {start : Cursor} :
    Keeps tokens (do return Expr.verbatim (← textSince start)) Expr.Regular :=
  textSince_keeps.bind fun _ _ => .pure trivial

theorem passArrowBody_keeps (hg : g.Regular tokens) :
    Keeps tokens g.passArrowBody fun _ => True :=
  (after_keeps hg.type).bind fun _ _ => require_keeps.bind fun _ _ => .look fun _ => .ite
    (fun _ => passGroup_keeps) fun _ => passInitializer_keeps hg

theorem objectMember_keeps (hg : g.Regular tokens) (hs : AllSound tokens) :
    Keeps tokens g.objectMember fun _ => True := by
  have hsince : ∀ start, Keeps tokens (do return ObjectMember.verbatim (← textSince start))
      fun _ => True := fun _ => textSince_keeps.bind fun _ _ => .pure trivial
  refine .look fun start => takeKind_keeps.bind fun _ _ => .ite
    (fun _ => hg.expr.bind fun _ _ => hsince start) fun _ => ?_
  extract_lets modified named
  have hnamed : Keeps tokens (named ()) fun _ => True := by
    refine takeKind_keeps.bind fun _ _ => .look fun _ => ?_
    extract_lets computed
    refine (memberName_keeps _).bind fun _ _ => .look fun _ => .ite
      (fun _ => (passSignature_keeps hg hs).bind fun _ _ => passBody_keeps.bind fun _ _ =>
        hsince start) fun _ => ?_
    refine takeKind_keeps.bind fun _ _ => .ite (fun _ => hg.expr.bind fun _ _ => .ite
      (fun _ => hsince start) fun _ => .pure trivial) fun _ => .ite (fun _ => .pure trivial)
      fun _ => ?_
    exact takeKind_keeps.bind fun _ _ => .ite
      (fun _ => (passInitializer_keeps hg).bind fun _ _ => hsince start) fun _ => fail_keeps
  exact .ite (fun _ => advance_keeps.bind fun _ _ => hnamed) fun _ => hnamed

theorem objectLiteral_keeps (hg : g.Regular tokens) (hs : AllSound tokens) :
    Keeps tokens g.objectLiteral Expr.Regular :=
  require_keeps.bind fun _ _ => (commaList_keeps (objectMember_keeps hg hs)).bind fun _ _ =>
    require_keeps.bind fun _ _ => .pure trivial

theorem construction_keeps (hg : g.Regular tokens) (hs : AllSound tokens) :
    Keeps tokens g.construction Expr.Regular := by
  refine (word_keeps hs _).bind fun _ _ => (iterate_keeps (Q := fun _ => True) ?_ trivial).bind
    fun _ _ => (typeArgsIfAny_keeps hg).bind fun _ _ => (argumentsIfAny_keeps hg).bind fun _ _ =>
    .pure trivial
  exact fun _ _ => takeKind_keeps.bind fun _ _ => .ite
    (fun _ => (word_keeps hs _).bind fun _ _ => .pure (ofSome_some.2 trivial))
    fun _ => .pure ofSome_none

theorem passToBody_keeps : Keeps tokens passToBody fun _ => True := by
  refine (skipWhile_keeps ?_).bind fun _ _ => passGroup_keeps
  refine .look fun c => .ite (fun _ => .pure trivial) fun _ => ?_
  extract_lets _ pass
  have hpass : Keeps tokens (pass ()) fun _ => True :=
    .ite (fun _ => passGroup_keeps.bind fun _ _ => .pure trivial)
      fun _ => advance_keeps.bind fun _ _ => .pure trivial
  exact .ite (fun _ => fail_keeps.bind fun _ (_ : True) => hpass) fun _ => hpass

theorem wordExpr_keeps (hg : g.Regular tokens) (hs : AllSound tokens) :
    Keeps tokens g.wordExpr Expr.Regular :=
  .look fun _ => .ite (fun _ => advance_keeps.bind fun _ _ => .pure trivial) fun _ => .ite
    (fun _ => advance_keeps.bind fun _ _ => .pure trivial) fun _ => .ite
    (fun _ => advance_keeps.bind fun _ _ => construction_keeps hg hs) fun _ => .ite
    (fun _ => passToBody_keeps.bind fun _ _ => verbatimExpr_keeps) fun _ => .ite
    (fun _ => advance_keeps.bind fun _ _ => (passArrowBody_keeps hg).bind fun _ _ =>
      verbatimExpr_keeps) fun _ => .ite
    (fun _ => advance_keeps.bind fun _ _ => (passInitializer_keeps hg).bind fun _ _ =>
      verbatimExpr_keeps) fun _ => takeText_keeps.bind fun _ _ => .pure trivial

theorem primaryExpr_keeps (hg : g.Regular tokens) (hs : AllSound tokens) :
    Keeps tokens g.primaryExpr Expr.Regular := by
  refine .lookHere fun start => ?_
  split
  case h_1 => exact (takeString_keeps.bind fun _ _ => .pure trivial) start
  case h_2 hkind =>
    refine (takeText_ensures (S := IsNumeral) fun hc => hc.isNumeral hs ?_).bind
      fun _ _ h => .pure h
    rw [Cursor.check, hkind]
    rfl
  case h_3 => exact (takeString_keeps.bind fun _ _ => .pure trivial) start
  case h_4 => exact objectLiteral_keeps hg hs start
  case h_5 =>
    exact (advance_keeps.bind fun _ _ => (exprList_keeps hg _).bind fun _ _ =>
      require_keeps.bind fun _ _ => .pure trivial) start
  case h_6 =>
    refine .ite (fun _ => ?_) fun _ => ?_
    · exact (passGroup_keeps.bind fun _ _ => (passArrowBody_keeps hg).bind fun _ _ =>
        verbatimExpr_keeps) start
    · exact (advance_keeps.bind fun _ _ => hg.expr.bind fun _ h =>
        require_keeps.bind fun _ _ => .pure h) start
  case h_7 => exact wordExpr_keeps hg hs start
  case h_14 =>
    exact (advance_keeps.bind fun _ _ => (passInitializer_keeps hg).bind fun _ _ =>
      verbatimExpr_keeps) start
  all_goals exact fail_keeps start

theorem exprSuffix_keeps (hg : g.Regular tokens) (hs : AllSound tokens) (start : Cursor)
    {expr : Expr} (hexpr : expr.Regular) :
    Keeps tokens (g.exprSuffix start expr) (OfSome Expr.Regular) := by
  have hsince : Keeps tokens (do return some (Expr.verbatim (← textSince start)))
      (OfSome Expr.Regular) := textSince_keeps.bind fun _ _ => .pure (ofSome_some.2 trivial)
  have hnone : Keeps tokens (pure none) (OfSome Expr.Regular) := .pure ofSome_none
  refine .look fun c => ?_
  split
  case h_1 =>
    exact advance_keeps.bind fun _ _ => (word_keeps hs _).bind fun _ _ =>
      .pure (ofSome_some.2 trivial)
  case h_2 =>
    refine .ite (fun _ => hnone) fun _ => advance_keeps.bind fun _ _ =>
      advance_keeps.bind fun _ _ => .look fun _ => .ite
      (fun _ => passGroup_keeps.bind fun _ _ => hsince)
      fun _ => (word_keeps hs _).bind fun _ _ => hsince
  case h_3 => exact (arguments_keeps hg).bind fun _ _ => .pure (ofSome_some.2 trivial)
  case h_4 => exact .ite (fun _ => hnone) fun _ => passGroup_keeps.bind fun _ _ => hsince
  case h_5 =>
    exact .ite (fun _ => hnone) fun _ => advance_keeps.bind fun _ _ =>
      .pure (ofSome_some.2 hexpr)
  case h_6 => exact .ite (fun _ => hnone) fun _ => advance_keeps.bind fun _ _ => hsince
  case h_7 => exact hnone

theorem operandExpr_keeps (hg : g.Regular tokens) (hs : AllSound tokens) :
    Keeps tokens g.operandExpr Expr.Regular :=
  .look fun start => (primaryExpr_keeps hg hs).bind fun _ h =>
    iterate_keeps (fun _ h => exprSuffix_keeps hg hs start h) h

theorem unaryRule_keeps (hg : g.Regular tokens) (hs : AllSound tokens) :
    Keeps tokens g.unaryRule Expr.Regular := by
  refine takeKind_keeps.bind fun _ _ => .ite (fun _ => hg.unary.bind fun e he => .pure ?_)
    fun _ => .look fun _ => .ite (fun _ => advance_keeps.bind fun _ _ => operandExpr_keeps hg hs)
    fun _ => operandExpr_keeps hg hs
  cases e <;> first | exact he | exact trivial

theorem passCasts_keeps (hg : g.Regular tokens) : Keeps tokens g.passCasts fun _ => True :=
  skipWhile_keeps <| .look fun _ => .ite
    (fun _ => advance_keeps.bind fun _ _ => takeWord_keeps.bind fun _ _ => .ite
      (fun _ => hg.type.bind fun _ _ => .pure trivial) fun _ => .pure trivial)
    fun _ => .pure trivial

theorem exprRule_keeps (hg : g.Regular tokens) (hs : AllSound tokens) :
    Keeps tokens g.exprRule Expr.Regular :=
  .look fun _ => (unaryRule_keeps hg hs).bind fun _ h => (passCasts_keeps hg).bind fun _ _ =>
    .look fun _ => .ite (fun _ => .pure h) fun _ => (passInitializer_keeps hg).bind fun _ _ =>
      verbatimExpr_keeps

theorem next_regular (hg : g.Regular tokens) (hs : AllSound tokens) : g.next.Regular tokens :=
  ⟨typeRule_keeps hg hs, operandTypeRule_keeps hg hs, exprRule_keeps hg hs,
    unaryRule_keeps hg hs⟩

theorem withLevels_regular (hs : AllSound tokens) (levels : Nat) :
    (withLevels levels).Regular tokens := by
  induction levels with
  | zero => exact empty_regular
  | succ levels ih => exact next_regular ih hs

theorem passStatement_keeps : Keeps tokens passStatement fun _ => True := by
  refine (iterate_keeps (Q := fun _ => True) (fun moved _ => ?_) trivial).bind fun _ _ =>
    .pure trivial
  have hon : Keeps tokens (pure (some true)) (OfSome fun _ => True) :=
    .pure (ofSome_some.2 trivial)
  have hdone : Keeps tokens (pure none) (OfSome fun _ : Bool => True) := .pure ofSome_none
  refine .look fun c => ?_
  split
  case h_1 => exact hdone
  case h_2 => exact advance_keeps.bind fun _ _ => hdone
  case h_5 => exact passGroup_keeps.bind fun _ _ => takeKind_keeps.bind fun _ _ => hdone
  case h_9 =>
    exact .ite (fun _ => hdone) fun _ => advance_keeps.bind fun _ _ => hon
  iterate 2 exact passGroup_keeps.bind fun _ _ => hon
  iterate 3 exact fail_keeps

theorem importSpecifier_keeps (hs : AllSound tokens) :
    Keeps tokens importSpecifier fun _ => True := by
  refine .look fun c => ?_
  extract_lets named finish specifier
  have hfinish : ∀ imported, Keeps tokens (finish imported) fun _ => True := fun _ =>
    takeWord_keeps.bind fun _ _ => .ite
      (fun _ => (word_keeps hs _).bind fun _ _ => .pure trivial) fun _ => .pure trivial
  have hspecifier : Keeps tokens (specifier ()) fun _ => True := by
    refine .look fun d => ?_
    split
    · exact takeText_keeps.bind fun _ _ => hfinish _
    · exact takeString_keeps.bind fun _ _ => hfinish _
    · exact fail_keeps.bind fun _ (_ : True) => hfinish _
  exact .ite (fun _ => advance_keeps.bind fun _ _ => hspecifier) fun _ => hspecifier

theorem importBindings_keeps (hs : AllSound tokens) :
    Keeps tokens importBindings fun _ => True :=
  takeKind_keeps.bind fun _ _ => .ite
    (fun _ => requireWord_keeps.bind fun _ _ => (word_keeps hs _).bind fun _ _ => .pure trivial)
    fun _ => takeKind_keeps.bind fun _ _ => .ite
    (fun _ => (commaList_keeps (importSpecifier_keeps hs)).bind fun _ _ =>
      require_keeps.bind fun _ _ => .pure trivial)
    fun _ => .pure trivial

theorem importStatement_keeps (hs : AllSound tokens) :
    Keeps tokens importStatement fun _ => True := by
  refine requireWord_keeps.bind fun _ _ => .look fun _ => .ite
    (fun _ => takeString_keeps.bind fun _ _ => takeKind_keeps.bind fun _ _ => .pure trivial)
    fun _ => .look fun c => ?_
  extract_lets typeOnly bindings clause
  have hbindings : ∀ defaultName, Keeps tokens (bindings defaultName) fun _ => True := by
    intro defaultName
    refine (importBindings_keeps hs).bind fun clause _ => requireWord_keeps.bind fun _ _ =>
      .look fun _ => ?_
    extract_lets source
    have hsource : Keeps tokens (source ()) fun _ => True := by
      refine takeString_keeps.bind fun _ _ => .look fun _ => ?_
      extract_lets finish
      have hfinish : Keeps tokens (finish ()) fun _ => True :=
        takeKind_keeps.bind fun _ _ => .pure trivial
      exact .ite (fun _ => advance_keeps.bind fun _ _ => passGroup_keeps.bind fun _ _ => hfinish)
        fun _ => hfinish
    exact .ite (fun _ => fail_keeps.bind fun _ (_ : True) => hsource) fun _ => hsource
  have hclause : Keeps tokens (clause ()) fun _ => True := by
    refine .look fun d => ?_
    extract_lets named
    exact .ite (fun _ => passStatement_keeps.bind fun _ _ => .pure trivial) fun _ => .ite
      (fun _ => (word_keeps hs _).bind fun _ _ => takeKind_keeps.bind fun _ _ => hbindings _)
      fun _ => hbindings _
  exact .ite (fun _ => advance_keeps.bind fun _ _ => hclause) fun _ => hclause

theorem heritage_keeps (hg : g.Regular tokens) (hs : AllSound tokens) :
    Keeps tokens g.heritage Heritage.Regular :=
  (qualifiedName_keeps hs).bind fun _ hname => (typeArgsIfAny_keeps hg).bind fun _ hargs =>
    .look fun _ => .ite (fun _ => passGroup_keeps.bind fun _ _ => .pure ⟨hname, hargs⟩)
      fun _ => .pure ⟨hname, hargs⟩

theorem heritageAfter_keeps (hg : g.Regular tokens) (hs : AllSound tokens) (keyword : String) :
    Keeps tokens (g.heritageAfter keyword) fun parents => ∀ h ∈ parents, h.Regular :=
  takeWord_keeps.bind fun _ _ => .ite
    (fun _ => (separated_keeps (heritage_keeps hg hs)).mono fun _ h => h.2)
    fun _ => .pure (fun _ h => nomatch h)

theorem passMemberWords_keeps : Keeps tokens passMemberWords fun _ => True :=
  iterate_keeps (fun _ _ => .look fun _ => .ite
    (fun _ => advance_keeps.bind fun _ _ => .pure (ofSome_some.2 trivial))
    fun _ => .pure ofSome_none) trivial

theorem classMemberBody_keeps (hg : g.Regular tokens) (hs : AllSound tokens)
    (decorators : List Decorator) (isStatic : Bool) (kind : MethodForm) (name : String) :
    Keeps tokens (g.classMemberBody decorators isStatic kind name) ClassMember.Regular := by
  refine takeKind_keeps.bind fun _ _ => takeKind_keeps.bind fun _ _ => .look fun _ => .ite
    (fun _ => (params_keeps hg hs).bind fun _ hparams => passBody_keeps.bind fun _ _ =>
      .pure hparams) fun _ => .ite (fun _ => ?_) fun _ => ?_
  · exact (typeParams_keeps hg hs).bind fun _ _ => (params_keeps hg hs).bind fun _ hparams =>
      (after_keeps (returnType_keeps hg)).bind fun _ _ => passBody_keeps.bind fun _ _ =>
      .pure hparams
  · refine (after_keeps hg.type).bind fun type htype => takeKind_keeps.bind fun _ _ => ?_
    extract_lets rest
    have hrest : Keeps tokens (rest ()) ClassMember.Regular :=
      takeKind_keeps.bind fun _ _ => .pure htype
    exact .ite (fun _ => (passInitializer_keeps hg).bind fun _ _ => hrest) fun _ => hrest

theorem classMember_keeps (hg : g.Regular tokens) (hs : AllSound tokens) :
    Keeps tokens g.classMember (OfSome ClassMember.Regular) := by
  refine takeKind_keeps.bind fun _ _ => .ite (fun _ => .pure ofSome_none) fun _ =>
    (decorators_keeps hg hs).bind fun decorators _ => passMemberWords_keeps.bind fun isStatic _ =>
    .look fun _ => .ite (fun _ => advance_keeps.bind fun _ _ => passGroup_keeps.bind fun _ _ =>
      .pure ofSome_none) fun _ => .look fun c => ?_
  extract_lets accessor kind named
  have hnamed : Keeps tokens (named ()) (OfSome ClassMember.Regular) := by
    refine takeKind_keeps.bind fun _ _ => .look fun _ => .ite (fun _ => ?_) fun _ => ?_
    · exact (indexSignature_keeps hg hs).bind fun _ h => takeKind_keeps.bind fun _ _ =>
        .pure (ofSome_some.2 h)
    · exact (memberName_keeps _).bind fun _ _ =>
        (classMemberBody_keeps hg hs decorators isStatic _ _).bind fun _ h =>
        .pure (ofSome_some.2 h)
  exact .ite (fun _ => advance_keeps.bind fun _ _ => hnamed) fun _ => hnamed

theorem classDef_keeps (hg : g.Regular tokens) (hs : AllSound tokens) (modifiers : Modifiers)
    (decorators : List Decorator) :
    Keeps tokens (g.classDef modifiers decorators) ClassDef.Regular := by
  refine requireWord_keeps.bind fun _ _ => .lookHere fun c => ?_
  extract_lets member body
  have hmember : Keeps tokens (member ()) (OfSome (OfSome ClassMember.Regular)) :=
    (classMember_keeps hg hs).bind fun _ h => .pure (ofSome_some.2 h)
  have hbody : ∀ name, IsWord name → Keeps tokens (body name) ClassDef.Regular := by
    intro name hname
    refine (typeParams_keeps hg hs).bind fun typeParams hparams => takeWord_keeps.bind
      fun _ _ => ?_
    extract_lets rest
    have hrest : ∀ base, OfSome Heritage.Regular base →
        Keeps tokens (rest base) ClassDef.Regular := by
      intro base hbase
      refine (heritageAfter_keeps hg hs _).bind fun interfaces hinterfaces =>
        require_keeps.bind fun _ _ => (many_keeps (Q := OfSome ClassMember.Regular) ?_).bind
        fun members hmembers => require_keeps.bind fun _ _ => .pure ?_
      · exact .look fun _ => .ite (fun _ => .pure ofSome_none) fun _ => .ite
          (fun _ => fail_keeps.bind fun _ (_ : True) => hmember) fun _ => hmember
      · refine ⟨hname, hparams, fun h hh => ?_, fun m hm => ?_⟩
        · obtain hh | hh := List.mem_append.1 hh
          · exact hbase h (Option.mem_toList.1 hh)
          · exact hinterfaces h hh
        · obtain ⟨o, ho, rfl⟩ := List.mem_filterMap.1 hm
          exact hmembers _ ho m rfl
    exact .ite (fun _ => ((heritage_keeps hg hs).map fun _ => ofSome_some.2).bind hrest)
      fun _ => hrest none ofSome_none
  refine .ite (fun hword => ?_) fun _ => hbody namelessClass (.inl (by decide)) c
  refine (takeText_ensures fun hc => hc.isWord hs ?_).bind fun name d h => hbody name h d
  exact (Bool.and_eq_true_iff.1 hword).1

theorem interfaceDef_keeps (hg : g.Regular tokens) (hs : AllSound tokens)
    (modifiers : Modifiers) : Keeps tokens (g.interfaceDef modifiers) InterfaceDef.Regular :=
  requireWord_keeps.bind fun _ _ => (word_keeps hs _).bind fun _ hname =>
    (typeParams_keeps hg hs).bind fun _ hparams => (heritageAfter_keeps hg hs _).bind
    fun _ hbases => (typeMembers_keeps hg hs).bind fun _ hmembers =>
    .pure ⟨hname, hparams, hbases, hmembers⟩

theorem enumMember_keeps (hg : g.Regular tokens) :
    Keeps tokens g.enumMember fun m => OfSome Expr.Regular m.initializer := by
  refine .look fun c => ?_
  extract_lets rest
  have hrest : ∀ name, Keeps tokens (rest name) fun m => OfSome Expr.Regular m.initializer :=
    fun _ => (after_keeps hg.expr).bind fun _ h => .pure h
  split
  · exact takeText_keeps.bind fun _ _ => hrest _
  · exact takeString_keeps.bind fun _ _ => hrest _
  · exact fail_keeps.bind fun _ (_ : True) => hrest _

theorem enumDef_keeps (hg : g.Regular tokens) (hs : AllSound tokens) (modifiers : Modifiers) :
    Keeps tokens (g.enumDef modifiers) EnumDef.Regular :=
  takeWord_keeps.bind fun _ _ => requireWord_keeps.bind fun _ _ => (word_keeps hs _).bind
    fun _ hname => require_keeps.bind fun _ _ => (commaList_keeps (enumMember_keeps hg)).bind
    fun _ hmembers => require_keeps.bind fun _ _ => .pure ⟨hname, hmembers⟩

theorem aliasDef_keeps (hg : g.Regular tokens) (hs : AllSound tokens) (modifiers : Modifiers) :
    Keeps tokens (g.aliasDef modifiers) AliasDef.Regular :=
  requireWord_keeps.bind fun _ _ => (word_keeps hs _).bind fun _ hname =>
    (typeParams_keeps hg hs).bind fun _ hparams => require_keeps.bind fun _ _ =>
    hg.type.bind fun _ htype => takeKind_keeps.bind fun _ _ => .pure ⟨hname, hparams, htype⟩

theorem variableStatement_keeps (hg : g.Regular tokens) (hs : AllSound tokens)
    (modifiers : Modifiers) : Keeps tokens (g.variableStatement modifiers) fun _ => True := by
  have hbinding : Keeps tokens g.binding fun _ => True :=
    (bindingName_keeps hs _).bind fun _ _ => takeKind_keeps.bind fun _ _ =>
      (after_keeps hg.type).bind fun _ _ => (after_keeps hg.expr).bind fun _ _ => .pure trivial
  exact advance_keeps.bind fun _ _ => (separated_keeps hbinding).bind fun _ _ =>
    takeKind_keeps.bind fun _ _ => .pure trivial

theorem modifiers_keeps : Keeps tokens modifiers fun _ => True := by
  have hon : ∀ m : Modifiers, Keeps tokens (do advance; return some m) (OfSome fun _ => True) :=
    fun _ => advance_keeps.bind fun _ _ => .pure (ofSome_some.2 trivial)
  exact iterate_keeps (fun m _ => .look fun c => .ite
    (fun _ => .ite (fun _ => .pure ofSome_none) fun _ => hon _) fun _ => .ite (fun _ => hon _)
    fun _ => .ite (fun _ => hon _) fun _ => .ite (fun _ => hon _) fun _ => .pure ofSome_none)
    trivial

theorem declaration_keeps (hg : g.Regular tokens) (hs : AllSound tokens) (modifiers : Modifiers)
    (decorators : List Decorator) :
    Keeps tokens (g.declaration modifiers decorators) (OfSome Item.Regular) := by
  refine .look fun c => .ite (fun _ => ?_) fun _ => .ite (fun _ => ?_) fun _ => .ite (fun _ => ?_)
    fun _ => .ite (fun _ => ?_) fun _ => .ite (fun _ => ?_) fun _ => .ite (fun _ => ?_) fun _ => ?_
  · refine (importStatement_keeps hs).bind fun found _ => .pure ?_
    cases found <;> simp [Item.Regular]
  · exact (classDef_keeps hg hs _ _).bind fun _ h => .pure (ofSome_some.2 h)
  · exact (interfaceDef_keeps hg hs _).bind fun _ h => .pure (ofSome_some.2 h)
  · exact (enumDef_keeps hg hs _).bind fun _ h => .pure (ofSome_some.2 h)
  · exact (aliasDef_keeps hg hs _).bind fun _ h => .pure (ofSome_some.2 h)
  · exact (variableStatement_keeps hg hs _).bind fun _ _ => .pure (ofSome_some.2 trivial)
  · exact passStatement_keeps.bind fun _ _ => .pure ofSome_none

theorem statement_keeps (hg : g.Regular tokens) (hs : AllSound tokens) :
    Keeps tokens g.statement (OfSome Item.Regular) :=
  (decorators_keeps hg hs).bind fun _ _ => modifiers_keeps.bind fun _ _ => .look fun _ => .ite
    (fun _ => passStatement_keeps.bind fun _ _ => .pure ofSome_none)
    fun _ => (decorators_keeps hg hs).bind fun _ _ => declaration_keeps hg hs _ _

theorem statements_keeps (hg : g.Regular tokens) (hs : AllSound tokens) :
    Keeps tokens g.statements fun items => ∀ item ∈ items, item.Regular := by
  refine (many_keeps (Q := OfSome Item.Regular) ?_).bind fun items hitems => .pure ?_
  · exact .look fun _ => .ite (fun _ => .pure ofSome_none) fun _ =>
      takeKind_keeps.bind fun _ _ => .ite (fun _ => .pure (ofSome_some.2 ofSome_none))
      fun _ => (statement_keeps hg hs).bind fun _ h => .pure (ofSome_some.2 h)
  · intro item hitem
    obtain ⟨o, ho, rfl⟩ := List.mem_filterMap.1 hitem
    exact hitems _ ho item rfl

end Grammar

theorem Cursor.within_ofTokens (h : tokens ≠ []) : (Cursor.ofTokens tokens).Within tokens where
  ahead _ ht := List.dropLast_subset _ ht
  final := by
    rw [Cursor.ofTokens, List.getLastD_eq_getLast?, List.getLast?_eq_some_getLast h]
    exact List.getLast_mem h

theorem lex_ne_nil (source : String) : lex source ≠ [] := by
  have hscan : ∀ cs before gap offset skip, Lexer.scan before gap offset skip cs ≠ [] := by
    intro cs
    induction cs with
    | nil => exact fun _ _ _ _ => List.cons_ne_nil _ _
    | cons c cs ih =>
        intro before gap offset skip
        cases skip with
        | succ skip => exact ih _ _ _ _
        | zero =>
            rw [Lexer.scan]
            cases Lexer.lexeme before c cs with
            | mk found n =>
                cases found with
                | gap => exact ih _ _ _ _
                | token kind => exact List.cons_ne_nil _ _
  exact hscan _ _ _ _ _

/-- What a text is parsed to is regular, and where it is not parsed the error is at a token. -/
theorem parse_regular (source : String) : match parse source with
    | .ok items => ∀ item ∈ items, item.Regular
    | .error e => ∃ t ∈ lex source, e.offset = t.start := by
  have hs : AllSound (lex source) := lex_sound source
  have h := Grammar.statements_keeps
    (Grammar.withLevels_regular hs ((lex source).length + 1)) hs _
    (Cursor.within_ofTokens (lex_ne_nil source))
  rw [parse, parseTokens]
  revert h
  cases Grammar.statements _ (Cursor.ofTokens (lex source)) with
  | error e => exact id
  | ok out => exact And.right

end HandlerWeave.Source
