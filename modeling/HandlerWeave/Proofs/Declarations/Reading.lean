import HandlerWeave.Proofs.Declarations.Marks
import HandlerWeave.Proofs.Source.CanonicalReading
import HandlerWeave.Source.Parse

/-!
The text of a canonical declaration is parsed to that declaration and to nothing else.
-/
namespace HandlerWeave.Source

open Mark Source.Parser Grammar

variable {m : Mark} {ms mid rest : List Mark} {g : Grammar} {n : Nat}

def TypeParam.types (p : TypeParam) : List TypeNode := p.constraint.toList ++ p.fallback.toList

theorem typeParam_takes {p : TypeParam} (hp : p.Canonical) (h : ∀ t ∈ p.types, t.ReadBy g)
    (hm : m.kind ∈ [.comma, .greater]) :
    Takes g.typeParam (p.marks ++ m :: rest) p (m :: rest) := by
  obtain ⟨w, constraint, fallback⟩ := p
  have hne : ∀ kind ∉ [Token.Kind.comma, .greater], m.kind ≠ kind := by
    rintro kind hkind rfl
    exact hkind hm
  have hends : m.endsType = true := endsType_of_mem hm (by decide)
  have hequals : m.kind ≠ .equals := hne _ (by decide)
  have hword : m.kind ≠ .word := hne _ (by decide)
  obtain ⟨hconstraint, hfallback⟩ := List.forall_mem_append.1 h
  obtain ⟨after, hafter⟩ : ∃ after, after = clauseMarks .equals fallback ++ m :: rest := ⟨_, rfl⟩
  have hdefault : Takes (Parser.after .equals g.type) after fallback (m :: rest) := by
    rw [hafter]
    cases fallback with
    | none => exact after_none hequals
    | some t => exact after_takes rfl ((hfallback t (by simp)).takes (m :: rest) hends)
  have hnext : (markAt after 0).kind ≠ .word ∧ (markAt after 0).endsType = true := by
    rw [hafter]
    cases fallback with
    | none => exact ⟨hword, hends⟩
    | some t => exact ⟨nofun, rfl⟩
  -- a name that is also a modifier has no word behind it
  have hmodifier : w ∈ TypeParam.modifierNames →
      (markAt (clauseMarks (.name "extends") constraint ++ after) 0).kind ≠ .word := by
    intro hw
    obtain rfl : constraint = none := hp.modifier hw
    exact hnext.1
  rw [TypeParam.marks, List.cons_append, List.append_assoc, ← hafter]
  refine (skipWhile_none (.look fun c hc => .ite_neg ?_ .pure)).bind ((word_takes rfl).bind ?_)
  · rw [hc.seesAnyWord, hc.kindAhead, Bool.and_eq_true, beq_iff_eq, List.any_eq_true]
    rintro ⟨⟨v, hv, hname⟩, hnext⟩
    simp only [markAt_zero, Mark.isWord, Bool.and_eq_true, beq_iff_eq, name_text] at hname
    obtain rfl := hname.2
    exact hmodifier hv hnext
  · cases constraint with
    | none =>
        have hnot : (markAt after 0).isWord "extends" = false := by simp [Mark.isWord, hnext.1]
        exact (takeWord_none hnot).bind (.ite_neg (by decide) (.bind .pure (hdefault.bind .pure)))
    | some t =>
        have ht := (hconstraint t (by simp)).takes after hnext.2
        exact (takeWord_takes rfl).bind (.ite_pos rfl (ht.map.bind (hdefault.bind .pure)))

theorem typeParams_takes {params : List TypeParam} (hparams : ∀ p ∈ params, p.Canonical)
    (h : ∀ p ∈ params, ∀ t ∈ p.types, t.ReadBy g) (hrest : (markAt rest 0).kind ≠ .less) :
    Takes g.typeParams (typeParamsMarks params ++ rest) params rest := by
  cases params with
  | nil => exact (takeKind_none hrest).bind (.ite_neg (by decide) .pure)
  | cons p params =>
      have hlist : Listed (ReadsPart g.typeParam [.comma, .greater]) (separatedMarks (sign ',')
          ((p :: params).map TypeParam.marks)) (p :: params) :=
        listed_separated fun p hp => ⟨fun _ => by simp [TypeParam.marks],
          fun _ _ hr => typeParam_takes (hparams p hp) (h p hp) hr⟩
      rw [typeParamsMarks, List.isEmpty_cons, if_neg (by decide), List.cons_append,
        List.append_assoc]
      exact (takeKind_takes rfl).bind (.ite_pos rfl
        ((commaList_takes (hlist.lists rfl (by decide))).bind ((require_takes rfl).bind .pure)))

theorem heritage_takes {b : Heritage} (hb : b.Canonical) (h : ∀ t ∈ b.typeArgs, t.ReadBy g)
    (hrest : (markAt rest 0).kind ∈ [.comma, .leftBrace]) :
    Takes g.heritage (b.marks ++ rest) b rest := by
  obtain ⟨⟨qualifier, w⟩, args⟩ := b
  obtain rfl : qualifier = none := hb.qualifier
  have hne : ∀ kind ∉ [Token.Kind.comma, .leftBrace], (markAt rest 0).kind ≠ kind := by
    rintro kind hkind rfl
    exact hkind hrest
  have hcall : ∀ c : Cursor, c.Shows rest → ¬ c.check .leftParen = true := by
    intro c hc
    simp [hc.check, hne]
  cases args with
  | nil =>
      exact (qualifiedName_takes rfl (hne _ (by decide))).bind
        ((typeArgsIfAny_none (hne _ (by decide))).bind
          (.look fun c hc => .ite_neg (hcall c hc) .pure))
  | cons arg args =>
      have hdot : (markAt (sign '<' :: (separatedMarks (sign ',') (typeMarks (arg :: args)) ++
          sign '>' :: rest)) 0).kind ≠ .dot := nofun
      rw [Heritage.marks, Declaration.heritageType, TypeNode.marks, List.isEmpty_cons,
        if_neg (by decide), List.cons_append, List.cons_append, List.append_assoc]
      have hargs : Takes g.typeArgs (sign '<' :: (separatedMarks (sign ',')
          (typeMarks (arg :: args)) ++ sign '>' :: rest)) (arg :: args) rest :=
        typeArgs_takes ⟨sign '<', rfl⟩ ⟨sign '>', rfl⟩ (listed_types h)
      exact (qualifiedName_takes rfl hdot).bind ((typeArgsIfAny_takes rfl hargs).bind
        (.look fun c hc => .ite_neg (hcall c hc) .pure))

theorem bases_takes {bases : List Heritage} (hbases : ∀ b ∈ bases, b.Canonical)
    (h : ∀ b ∈ bases, ∀ t ∈ b.typeArgs, t.ReadBy g) :
    Takes (g.heritageAfter "extends") (basesMarks bases ++ sign '\x7b' :: rest) bases
      (sign '\x7b' :: rest) := by
  cases bases with
  | nil => exact (takeWord_none rfl).bind (.ite_neg (by decide) .pure)
  | cons b bases =>
      have hbrace : (markAt (sign '\x7b' :: rest) 0).kind ≠ .comma := nofun
      have hlist : Separates .comma g.heritage (separatedMarks (sign ',')
          ((b :: bases).map Heritage.marks) ++ sign '\x7b' :: rest) (b :: bases)
          (sign '\x7b' :: rest) := by
        refine Joined.separates (joined_separated (m := sign ',') (by simp) fun b hb ms hms =>
          heritage_takes (hbases b hb) (h b hb) ?_) hbrace
        obtain hms | rfl := hms
        · rw [hms]
          decide
        · exact List.mem_cons_of_mem _ List.mem_cons_self
      exact (takeWord_takes rfl).bind (.ite_pos rfl (separated_takes hlist))

theorem primaryExpr_takes {e : Expr} (he : e.Canonical) (hsign : ∀ inner, e ≠ .negate inner) :
    Takes g.primaryExpr (e.marks ++ rest) e rest := by
  refine .look fun c hc => ?_
  rw [hc.kind]
  cases e with
  | string s => exact (takeString_takes false s).bind .pure
  | number n => exact takeText_takes.bind .pure
  | negate inner => exact absurd rfl (hsign inner)
  | _ => exact he.elim

/-- The kinds of marks that an expression ends in front of. -/
def exprEnds : List Token.Kind := [.comma, .semicolon, .rightParen, .rightBracket, .rightBrace]

theorem exprSuffix_none {start : Cursor} {e : Expr} (hm : m.kind ∈ exprEnds) :
    Takes (g.exprSuffix start e) (m :: rest) none (m :: rest) := by
  refine .look fun c hc => ?_
  rw [hc.kind, markAt_zero]
  cases hkind : m.kind with
  | comma | semicolon | rightParen | rightBracket | rightBrace => exact .pure
  | _ => exact absurd (hkind ▸ hm) (by decide)

theorem operandExpr_takes {e : Expr} (hm : m.kind ∈ exprEnds)
    (h : Takes g.primaryExpr ms e (m :: rest)) : Takes g.operandExpr ms e (m :: rest) :=
  .look fun _ _ => h.bind (iterate_takes (.stop (exprSuffix_none hm)))

/-- An expression without a cast ends where its operand does. -/
theorem exprRule_takes {e : Expr} (hm : m.kind ∈ exprEnds)
    (h : Takes g.unaryRule ms e (m :: rest)) : Takes g.exprRule ms e (m :: rest) := by
  have hword : m.kind ≠ .word := by
    intro hword
    rw [hword] at hm
    exact absurd hm (by decide)
  have hend : ∀ c : Cursor, c.Shows (m :: rest) → atExprEnd c = true := fun c hc => by
    have hends : exprEnds ⊆ exprEnds ++ [.endOfFile] := List.subset_append_left ..
    rw [atExprEnd, hc.kind, markAt_zero, Bool.or_eq_true, List.contains_iff_mem]
    exact .inl (hends hm)
  refine .look fun start _ => h.bind ((skipWhile_none (.look fun c hc => .ite_neg ?_ .pure)).bind
    (.look fun c hc => .ite_pos (hend c hc) .pure))
  simp [hc.seesAnyWord, Mark.isWord, hword]

/-- An operand without a sign. -/
theorem unaryRule_of_primary {e : Expr} (hsign : (markAt ms 0).kind ∉ [.minus, .plus])
    (hm : m.kind ∈ exprEnds) (h : Takes g.primaryExpr ms e (m :: rest)) :
    Takes g.unaryRule ms e (m :: rest) := by
  simp only [List.mem_cons, List.not_mem_nil, or_false, not_or] at hsign
  refine (takeKind_none hsign.1).bind (.ite_neg (by decide) (.look fun c hc => .ite_neg ?_
    (operandExpr_takes hm h)))
  simp [hc.check, hsign.2]

theorem unaryRule_takes {e : Expr} (he : e.Canonical) (hsign : ∀ inner, e ≠ .negate inner) :
    Takes g.unaryRule (e.marks ++ sign ',' :: rest) e (sign ',' :: rest) := by
  refine unaryRule_of_primary ?_ (by decide) (primaryExpr_takes he hsign)
  cases e with
  | string | number => simp [Expr.marks]
  | negate inner => exact absurd rfl (hsign inner)
  | _ => exact he.elim

/-- A string or a number, with or without a sign, in front of a comma. -/
theorem expr_takes {e : Expr} (he : e.Canonical) :
    Takes (withLevels (n + 2)).expr (e.marks ++ sign ',' :: rest) e (sign ',' :: rest) := by
  have hunary : Takes (withLevels (n + 1)).unaryRule (e.marks ++ sign ',' :: rest) e
      (sign ',' :: rest) := by
    cases e with
    | negate inner =>
        cases inner with
        | number s =>
            have hnumber :
                Takes (withLevels n).unaryRule ((Expr.number s).marks ++ sign ',' :: rest)
                (.number s) (sign ',' :: rest) := unaryRule_takes he nofun
            exact (takeKind_takes rfl).bind (.ite_pos rfl (hnumber.bind .pure))
        | _ => exact he.elim
    | string | number => exact unaryRule_takes he nofun
    | _ => exact he.elim
  exact exprRule_takes (by decide) hunary

theorem enumMember_takes {member : EnumMember} (h : member.Canonical) :
    Takes (withLevels (n + 2)).enumMember (member.marks ++ rest) member (sign ',' :: rest) := by
  obtain ⟨w, initializer⟩ := member
  have hvalue : Takes (after .equals (withLevels (n + 2)).expr)
      (initializerMarks initializer ++ sign ',' :: rest) initializer (sign ',' :: rest) := by
    cases initializer with
    | none => exact after_none nofun
    | some e => exact after_takes rfl (expr_takes (ofSome_some.1 h.initializer))
  rw [EnumMember.marks, List.cons_append, List.append_assoc, List.singleton_append]
  refine .look fun c hc => ?_
  rw [hc.kind, nameMark]
  cases Text.isIdentifier w with
  | true => exact takeText_takes.bind (hvalue.bind .pure)
  | false => exact (takeString_takes true w).bind (hvalue.bind .pure)

/-- Every member of an enumeration ends with a comma, the last one included. -/
theorem lists_members {members : List EnumMember} (h : ∀ m ∈ members, m.Canonical)
    (hrest : (markAt rest 0).kind = .rightBrace) :
    Lists .rightBrace (withLevels (n + 2)).enumMember
      ((members.map EnumMember.marks).flatten ++ rest) members rest := by
  induction members with
  | nil => exact .nil hrest
  | cons member members ih =>
      obtain ⟨hmember, hmembers⟩ := List.forall_mem_cons.1 h
      rw [List.map_cons, List.flatten_cons, List.append_assoc]
      refine .cons ?_ (enumMember_takes hmember) rfl ?_ (ih hmembers)
      · have hname := nameMark_kind member.name true
        intro hbrace
        rw [EnumMember.marks, List.cons_append, markAt_zero] at hbrace
        rw [hbrace] at hname
        exact absurd hname (by decide)
      · simp only [EnumMember.marks, List.length_append, List.length_cons]
        omega

theorem enumDef_takes {e : EnumDef} (he : e.Canonical) :
    Takes ((withLevels (n + 2)).enumDef .written)
      (.name "enum" :: .name e.name :: (bodyMarks (e.members.map EnumMember.marks) ++ rest)) e
      rest := by
  obtain ⟨w, modifiers, isConst, members⟩ := e
  obtain rfl : modifiers = .written := he.modifiers
  obtain rfl : isConst = false := he.plain
  have hbrace : (markAt ((sign '\x7d').onLine true :: rest) 0).kind = .rightBrace := rfl
  rw [bodyMarks, List.cons_append, List.append_assoc, List.singleton_append]
  exact (takeWord_none rfl).bind ((requireWord_takes rfl).bind ((word_takes rfl).bind
    ((require_takes rfl).bind ((commaList_takes (lists_members he.members hbrace)).bind
      ((require_takes rfl).bind .pure)))))

theorem interfaceDef_takes {i : InterfaceDef} (hi : i.Canonical)
    (hparams : ∀ p ∈ i.typeParams, ∀ t ∈ p.types, t.ReadBy g)
    (hbases : ∀ b ∈ i.bases, ∀ t ∈ b.typeArgs, t.ReadBy g)
    (hmembers : ∀ m ∈ i.members, ∀ t ∈ m.types, t.ReadBy g) :
    Takes (g.interfaceDef .written) (.name "interface" :: .name i.name ::
      (typeParamsMarks i.typeParams ++ (basesMarks i.bases ++
        (bodyMarks (memberMarks true i.members) ++ rest)))) i rest := by
  obtain ⟨w, modifiers, params, bases, members⟩ := i
  obtain rfl : modifiers = .written := hi.modifiers
  have hnext :
      (markAt (basesMarks bases ++ (bodyMarks (memberMarks true members) ++ rest)) 0).kind ≠
        .less := by
    cases bases with
    | nil => exact nofun
    | cons => exact nofun
  rw [bodyMarks, List.cons_append, List.append_assoc, List.singleton_append] at hnext ⊢
  exact (requireWord_takes rfl).bind ((word_takes rfl).bind
    ((typeParams_takes hi.typeParams hparams hnext).bind
      ((bases_takes hi.bases hbases).bind ((memberMarks_takes true hi.plain hmembers).bind .pure))))

theorem aliasDef_takes {a : AliasDef} (ha : a.Canonical)
    (hparams : ∀ p ∈ a.typeParams, ∀ t ∈ p.types, t.ReadBy g) (ht : a.type.ReadBy g) :
    Takes (g.aliasDef .written) (.name "type" :: .name a.name :: (typeParamsMarks a.typeParams ++
      .equals :: (a.type.marks ++ sign ';' :: rest))) a rest := by
  obtain ⟨w, modifiers, params, type⟩ := a
  obtain rfl : modifiers = .written := ha.modifiers
  have hequals : (markAt (.equals :: (type.marks ++ sign ';' :: rest)) 0).kind ≠ .less := nofun
  exact (requireWord_takes rfl).bind ((word_takes rfl).bind
    ((typeParams_takes ha.typeParams hparams hequals).bind ((require_takes rfl).bind
      ((ht.takes (sign ';' :: rest) rfl).bind ((takeKind_takes rfl).bind .pure)))))

theorem decorators_none (h : (markAt ms 0).kind ≠ .atSign) : Takes g.decorators ms [] ms :=
  many_takes (.nil ((takeKind_none h).bind (.ite_neg (by decide) .pure)))

/-- Words that are modifiers, or that say what an export lists. -/
def leadingWords : List String := ["export", "as", "default", "declare", "abstract"]

theorem isWord_of_notMem {keyword : String} (hkeyword : keyword ∉ leadingWords) :
    ∀ v ∈ leadingWords, (Mark.name keyword).isWord v = false := by
  intro v hv
  have hne : keyword ≠ v := by
    rintro rfl
    exact hkeyword hv
  simpa [Mark.isWord] using hne

/-- A word that is no modifier ends them. -/
theorem modifierRound_none (h : ∀ v ∈ leadingWords, (markAt ms 0).isWord v = false)
    (modifiers : Modifiers) : Takes (modifierRound modifiers) ms none ms := by
  refine .look fun c hc => .ite_neg ?_ (.ite_neg ?_ (.ite_neg ?_ (.ite_neg ?_ .pure)))
  · simp [hc.seesWord, h "export" (by decide)]
  · simp [hc.seesWord, h "default" (by decide)]
  · simp [hc.seesWord, h "declare" (by decide)]
  · simp [hc.seesWord, h "abstract" (by decide)]

theorem modifiers_none (h : ∀ v ∈ leadingWords, (markAt ms 0).isWord v = false) :
    Takes modifiers ms {} ms := by
  rw [modifiers_eq]
  exact iterate_takes (.stop (modifierRound_none h _))

theorem modifiers_takes {keyword w : String} (hm : m.isWord "export" = true)
    (hkeyword : keyword ∉ leadingWords) :
    Takes modifiers (m :: .name keyword :: .name w :: rest) .written
      (.name keyword :: .name w :: rest) := by
  have hword : ∀ v ∈ leadingWords, (markAt (.name keyword :: .name w :: rest) 0).isWord v = false :=
    isWord_of_notMem hkeyword
  rw [modifiers_eq]
  refine iterate_takes (.step (.look fun c hc => .ite_pos ?_ (.ite_neg ?_
    (advance_takes.bind .pure))) (Nat.lt_succ_self _) (.stop (modifierRound_none hword _)))
  · rw [hc.seesWord, markAt_zero, hm]
  · simp [atReexport, hc.kindAhead, hc.wordAt, isWord_of_notMem hkeyword "as" (by decide)]

theorem atReexport_none (hm : (markAt ms 0).isWord "export" = false) {c : Cursor}
    (hc : c.Shows ms) : atReexport c = false := by
  rw [atReexport, hc.seesWord, hm, Bool.false_and]

/-- A statement without decorators and modifiers. -/
theorem statement_of_plain {o : Option Item} (hat : (markAt ms 0).kind ≠ .atSign)
    (hword : ∀ v ∈ leadingWords, (markAt ms 0).isWord v = false)
    (h : Takes (g.declaration {} []) ms o rest) : Takes g.statement ms o rest := by
  refine (decorators_none hat).bind ((modifiers_none hword).bind (.look fun c hc => .ite_neg ?_
    ((decorators_none hat).bind h)))
  simp [atReexport_none (hword "export" (by decide)) hc]

/-- A statement that is exported, with decorators in front of it or without. -/
theorem statement_of_declaration {keyword w : String} {o : Option Item}
    {decorators : List Decorator}
    (hdecorators : Takes g.decorators ms decorators (m :: .name keyword :: .name w :: mid))
    (hm : m.isWord "export" = true) (hkeyword : keyword ∉ leadingWords)
    (h : Takes (g.declaration .written decorators) (.name keyword :: .name w :: mid) o rest) :
    Takes g.statement ms o rest := by
  have hsecond : (markAt (.name keyword :: .name w :: mid) 0).kind ≠ .atSign := nofun
  refine hdecorators.bind ((modifiers_takes hm hkeyword).bind (.look fun c hc => .ite_neg ?_
    ((decorators_none hsecond).bind ?_)))
  · have hword := isWord_of_notMem hkeyword "export" (by decide)
    simp [atReexport_none (by simpa using hword) hc]
  · rwa [List.append_nil]

theorem header_statement {keyword w : String} {o : Option Item} (hkeyword : keyword ∉ leadingWords)
    (h : Takes (g.declaration .written []) (.name keyword :: .name w :: ms) o rest) :
    Takes g.statement (headerMarks keyword w ++ ms) o rest :=
  statement_of_declaration (decorators_none nofun) rfl hkeyword h

/-- The marks are one statement, which is this item. -/
structure ReadsItem (g : Grammar) (ms : List Mark) (item : Item) : Prop where
  starts : ∀ rest, (markAt (ms ++ rest) 0).kind ∉ [.endOfFile, .semicolon]
  takes : ∀ rest, Takes g.statement (ms ++ rest) (some item) rest

theorem ReadsItem.ne_nil {item : Item} (h : ReadsItem g ms item) : ms ≠ [] := by
  rintro rfl
  exact h.starts [] List.mem_cons_self

/-- Statements one behind the other are read one after the other. -/
theorem statements_takes {parts : List (List Mark × Item)}
    (h : ∀ part ∈ parts, ReadsItem g part.1 part.2) :
    Takes g.statements (parts.map Prod.fst).flatten (parts.map Prod.snd) [] := by
  have hitems : Collects (do
      if (← get).check .endOfFile then return none
      if ← takeKind .semicolon then return some none
      return some (← g.statement)) (parts.map Prod.fst).flatten
      (parts.map fun part => some part.2) [] := by
    induction parts with
    | nil => exact .nil (.look fun c hc => .ite_pos (by rw [hc.check]; rfl) .pure)
    | cons part parts ih =>
        obtain ⟨hpart, hparts⟩ := List.forall_mem_cons.1 h
        have hstarts := hpart.starts (parts.map Prod.fst).flatten
        have hpos := List.length_pos_iff.2 hpart.ne_nil
        simp only [List.mem_cons, List.not_mem_nil, or_false, not_or] at hstarts
        rw [List.map_cons, List.flatten_cons]
        refine .cons (.look fun c hc => .ite_neg ?_ ((takeKind_none hstarts.2).bind (.ite_neg
          (by decide) ((hpart.takes _).bind .pure)))) ?_ (ih hparts)
        · simp [hc.check, hstarts.1]
        · rw [List.length_append]
          omega
  have hresults : (parts.map fun part => some part.2).filterMap id = parts.map Prod.snd := by
    simp [List.filterMap_map]
  refine (many_takes hitems).bind ?_
  rw [hresults]
  exact .pure

theorem ReadsItem.statements {item : Item} (h : ReadsItem g ms item) :
    Takes g.statements ms [item] [] := by
  have hparts : ∀ part ∈ [(ms, item)], ReadsItem g part.1 part.2 := List.forall_mem_singleton.2 h
  simpa using statements_takes hparts

/-- A text is parsed to the statements that its marks are. -/
theorem parse_of_statements {source : String} {items : List Item} (harrow : ArrowFree ms)
    (hscans : Scans false source.toList (ms ++ [.final]))
    (h : Takes (withLevels (ms.length + 2)).statements ms items []) :
    parse source = .ok items := by
  have hlength : (lex source).length = ms.length + 1 := by
    rw [← List.length_map (f := Token.mark), hscans.lex, List.length_append, List.length_singleton]
  obtain ⟨after, hparse, -⟩ := h _ (shows_ofTokens harrow hscans)
  rw [parse, parseTokens, hlength, hparse]
  rfl

/-- A text is parsed to the items of its parts. -/
theorem parse_of_parts {source : String} {parts : List (List Mark × Item)}
    (hscans : Scans false source.toList ((parts.map Prod.fst).flatten ++ [.final]))
    (h : ∀ part ∈ parts, ArrowFree part.1 ∧
      ReadsItem (withLevels ((parts.map Prod.fst).flatten.length + 2)) part.1 part.2) :
    parse source = .ok (parts.map Prod.snd) := by
  have harrow : ArrowFree (parts.map Prod.fst).flatten :=
    arrowFree_flatten (List.forall_mem_map.2 fun part hpart => (h part hpart).1)
  exact parse_of_statements harrow hscans (statements_takes fun part hpart => (h part hpart).2)

theorem interface_statement {i : InterfaceDef}
    (h : Takes (g.interfaceDef .written) (.name "interface" :: .name i.name :: ms) i rest) :
    Takes g.statement (headerMarks "interface" i.name ++ ms) (some (.interfaceDef i)) rest := by
  refine header_statement (by decide) (.look fun c hc => .ite_neg ?_ (.ite_neg ?_
    (.ite_pos ?_ (h.bind .pure))))
  all_goals simp [hc.seesWord, hc.kindAhead, Mark.isWord]

theorem enum_statement {e : EnumDef}
    (h : Takes (g.enumDef .written) (.name "enum" :: .name e.name :: ms) e rest) :
    Takes g.statement (headerMarks "enum" e.name ++ ms) (some (.enumDef e)) rest := by
  refine header_statement (by decide) (.look fun c hc => .ite_neg ?_ (.ite_neg ?_
    (.ite_neg ?_ (.ite_pos ?_ (h.bind .pure)))))
  all_goals simp [hc.seesWord, Mark.isWord]

theorem alias_statement {a : AliasDef} (hnext : (markAt ms 0).kind ∈ [.equals, .less])
    (h : Takes (g.aliasDef .written) (.name "type" :: .name a.name :: ms) a rest) :
    Takes g.statement (headerMarks "type" a.name ++ ms) (some (.aliasDef a)) rest := by
  simp only [List.mem_cons, List.not_mem_nil, or_false] at hnext
  refine header_statement (by decide) (.look fun c hc => .ite_neg ?_ (.ite_neg ?_
    (.ite_neg ?_ (.ite_neg ?_ (.ite_pos ?_ (h.bind .pure))))))
  all_goals simp [hc.seesWord, hc.kindAhead, Mark.isWord, hnext]

end HandlerWeave.Source

namespace HandlerWeave.Declaration

open Source Mark Source.Parser Grammar

/-- The item that a declaration is. -/
def toItem : Declaration → Item
  | classDef d => .classDef d
  | interfaceDef d => .interfaceDef d
  | enumDef d => .enumDef d
  | aliasDef d => .aliasDef d

/-- Written as it stands, the declaration shows all that it holds. -/
def Canonical : Declaration → Prop
  | classDef _ => False
  | interfaceDef i => i.Canonical
  | enumDef e => e.Canonical
  | aliasDef a => a.Canonical

def marks : Declaration → List Mark
  | classDef _ => []
  | interfaceDef i => i.marks
  | enumDef e => e.marks
  | aliasDef a => a.marks

/-- The types that stand in a declaration. -/
def types : Declaration → List TypeNode
  | classDef _ => []
  | interfaceDef i => i.typeParams.flatMap TypeParam.types ++ (i.bases.flatMap (·.typeArgs) ++
      i.members.flatMap TypeMember.types)
  | enumDef _ => []
  | aliasDef a => a.typeParams.flatMap TypeParam.types ++ [a.type]

variable {d : Declaration} {ms rest : List Mark} {g : Grammar} {n : Nat}

theorem statement_takes (hd : d.Canonical) (h : ∀ t ∈ d.types, t.ReadBy (withLevels (n + 2))) :
    Takes (withLevels (n + 2)).statement (d.marks ++ rest) (some d.toItem) rest := by
  cases d with
  | classDef d => exact hd.elim
  | interfaceDef i =>
      simp only [types, List.forall_mem_append, List.mem_flatMap, forall_exists_index, and_imp] at h
      obtain ⟨hparams, hbases, hmembers⟩ := h
      rw [marks, InterfaceDef.marks, List.append_assoc, List.append_assoc, List.append_assoc]
      exact interface_statement (interfaceDef_takes hd (fun p hp t ht => hparams t p hp ht)
        (fun b hb t ht => hbases t b hb ht) fun m hm t ht => hmembers t m hm ht)
  | enumDef e =>
      rw [marks, EnumDef.marks, List.append_assoc]
      exact enum_statement (enumDef_takes hd)
  | aliasDef a =>
      simp only [types, List.forall_mem_append, List.mem_flatMap, forall_exists_index, and_imp,
        List.forall_mem_singleton] at h
      obtain ⟨hparams, htype⟩ := h
      have hnext : (markAt (typeParamsMarks a.typeParams ++ .equals :: (a.type.marks ++
          sign ';' :: rest)) 0).kind ∈ [Token.Kind.equals, .less] := by
        cases a.typeParams with
        | nil => exact List.mem_cons_self
        | cons => exact List.mem_cons_of_mem _ List.mem_cons_self
      have halias := alias_statement hnext
        (aliasDef_takes hd (fun p hp t ht => hparams t p hp ht) htype)
      simpa [marks, AliasDef.marks, toItem] using halias

theorem marks_start (hd : d.Canonical) : ∃ ms, d.marks = .name "export" :: ms := by
  cases d with
  | classDef d => exact hd.elim
  | interfaceDef | enumDef | aliasDef => exact ⟨_, rfl⟩

theorem statements_takes (hd : d.Canonical) (h : ∀ t ∈ d.types, t.ReadBy (withLevels (n + 2))) :
    Takes (withLevels (n + 2)).statements d.marks [d.toItem] [] := by
  obtain ⟨ms, hms⟩ := marks_start hd
  have hword : Token.Kind.word ∉ [.endOfFile, .semicolon] := by decide
  have hitem : ReadsItem (withLevels (n + 2)) d.marks d.toItem :=
    ⟨fun rest => by rw [hms]; exact hword, fun rest => statement_takes hd h⟩
  exact hitem.statements

end HandlerWeave.Declaration

namespace HandlerWeave.Source

open Mark

variable {t : TypeNode}

theorem TypeParam.sublist_marks {p : TypeParam} (ht : t ∈ p.types) : t.marks.Sublist p.marks := by
  obtain ⟨w, constraint, fallback⟩ := p
  have hclause : ∀ mark {o : Option TypeNode}, t ∈ o.toList →
      t.marks.Sublist (clauseMarks mark o) := by
    intro mark o ho
    obtain rfl : o = some t := by simpa using ho
    exact List.sublist_cons_self _ _
  refine .cons _ ?_
  obtain ht | ht := List.mem_append.1 ht
  · exact (hclause (.name "extends") ht).trans (List.sublist_append_left _ _)
  · exact (hclause .equals ht).trans (List.sublist_append_right _ _)

theorem sublist_typeParams {params : List TypeParam} {p : TypeParam} (hp : p ∈ params)
    (ht : t ∈ p.types) : t.marks.Sublist (typeParamsMarks params) := by
  cases params with
  | nil => cases hp
  | cons q params =>
      have hparam :=
        sublist_separatedMarks (sign ',') (List.mem_map_of_mem (f := TypeParam.marks) hp)
      exact ((p.sublist_marks ht).trans (hparam.trans (List.sublist_append_left _ _))).cons _

theorem sublist_bases {bases : List Heritage} {b : Heritage} (hb : b ∈ bases)
    (ht : t ∈ b.typeArgs) : t.marks.Sublist (basesMarks bases) := by
  cases bases with
  | nil => cases hb
  | cons c bases =>
      have hbase := sublist_separatedMarks (sign ',') (List.mem_map_of_mem (f := Heritage.marks) hb)
      have harg : t.marks.Sublist b.marks := by
        rw [Heritage.marks, Declaration.heritageType, TypeNode.marks]
        cases hargs : b.typeArgs with
        | nil => rw [hargs] at ht; cases ht
        | cons arg args =>
            rw [hargs] at ht
            refine List.Sublist.cons _ (List.Sublist.cons _ ?_)
            exact (sublist_types (sign ',') ht).trans (List.sublist_append_left _ _)
      exact (harg.trans hbase).cons _

theorem arrowFree_clause (mark : Mark) (hmark : mark.kind ≠ .arrow) {o : Option TypeNode}
    (h : OfSome TypeNode.Canonical o) : ArrowFree (clauseMarks mark o) := by
  cases o with
  | none => exact arrowFree_nil
  | some t => exact arrowFree_cons.2 ⟨hmark, (ofSome_some.1 h).arrowFree⟩

theorem arrowFree_typeParams {params : List TypeParam} (h : ∀ p ∈ params, p.Canonical) :
    ArrowFree (typeParamsMarks params) := by
  have hparams : ArrowFree (separatedMarks (sign ',') (params.map TypeParam.marks)) := by
    refine arrowFree_separated (sign_ne_arrow _) fun part hpart => ?_
    obtain ⟨p, hp, rfl⟩ := List.mem_map.1 hpart
    have hconstraint := arrowFree_clause (.name "extends") nofun (h p hp).constraint
    have hfallback := arrowFree_clause .equals nofun (h p hp).fallback
    simp [TypeParam.marks, hconstraint, hfallback]
  rw [typeParamsMarks]
  split
  · exact arrowFree_nil
  · simp [hparams, sign_ne_arrow]

theorem arrowFree_bases {bases : List Heritage} (h : ∀ b ∈ bases, b.Canonical) :
    ArrowFree (basesMarks bases) := by
  have hbases : ArrowFree (separatedMarks (sign ',') (bases.map Heritage.marks)) := by
    refine arrowFree_separated (sign_ne_arrow _) fun part hpart => ?_
    obtain ⟨b, hb, rfl⟩ := List.mem_map.1 hpart
    have hargs : ArrowFree (separatedMarks (sign ',') (typeMarks b.typeArgs)) :=
      arrowFree_types (sign_ne_arrow _) fun t ht => ((h b hb).typeArgs t ht).arrowFree
    rw [Heritage.marks, Declaration.heritageType, TypeNode.marks]
    split <;> simp [hargs, sign_ne_arrow]
  rw [basesMarks]
  split
  · exact arrowFree_nil
  · simp [hbases]

theorem EnumMember.Canonical.arrowFree {m : EnumMember} (hm : m.Canonical) :
    ArrowFree m.marks := by
  obtain ⟨w, initializer⟩ := m
  have hvalue : ArrowFree (initializerMarks initializer) := by
    cases initializer with
    | none => exact arrowFree_nil
    | some e =>
        have he := ofSome_some.1 hm.initializer
        cases e with
        | negate inner =>
            cases inner with
            | number n => simp [initializerMarks, Mark.equals, Expr.marks, sign_ne_arrow]
            | _ => exact he.elim
        | string | number => simp [initializerMarks, Mark.equals, Expr.marks]
        | _ => exact he.elim
  simp [EnumMember.marks, nameMark_ne_arrow, hvalue, sign_ne_arrow]

theorem arrowFree_body {lines : List (List Mark)} (h : ArrowFree lines.flatten) :
    ArrowFree (bodyMarks lines) := by
  simp [bodyMarks, h, sign_ne_arrow]

end HandlerWeave.Source

namespace HandlerWeave.Declaration

open Source Mark Source.Parser Grammar

variable {d : Declaration} {t : TypeNode}

theorem arrowFree_marks (hd : d.Canonical) : ArrowFree d.marks := by
  cases d with
  | classDef d => exact hd.elim
  | interfaceDef i =>
      have hbody := arrowFree_body (arrowFree_members true hd.plain fun m hm t ht =>
        (hd.members m hm t ht).arrowFree)
      simp [marks, InterfaceDef.marks, headerMarks, arrowFree_typeParams hd.typeParams,
        arrowFree_bases hd.bases, hbody]
  | enumDef e =>
      have hmembers : ArrowFree (e.members.map EnumMember.marks).flatten := by
        intro m hm
        obtain ⟨ms, hms, hm⟩ := List.mem_flatten.1 hm
        obtain ⟨member, hmember, rfl⟩ := List.mem_map.1 hms
        exact (hd.members member hmember).arrowFree m hm
      simp [marks, EnumDef.marks, headerMarks, arrowFree_body hmembers]
  | aliasDef a =>
      simp [marks, AliasDef.marks, headerMarks, arrowFree_typeParams hd.typeParams, Mark.equals,
        hd.type.arrowFree, sign_ne_arrow]

theorem sublist_marks (hd : d.Canonical) (ht : t ∈ d.types) : t.marks.Sublist d.marks := by
  cases d with
  | classDef d => exact hd.elim
  | interfaceDef i =>
      have hfront : (typeParamsMarks i.typeParams ++ basesMarks i.bases).Sublist i.marks :=
        (List.sublist_append_right _ _).trans (List.sublist_append_left _ _)
      simp only [types, List.mem_append, List.mem_flatMap] at ht
      obtain ⟨p, hp, ht⟩ | ⟨b, hb, ht⟩ | ⟨m, hm, ht⟩ := ht
      · exact (sublist_typeParams hp ht).trans ((List.sublist_append_left _ _).trans hfront)
      · exact (sublist_bases hb ht).trans ((List.sublist_append_right _ _).trans hfront)
      · have hbody : (memberMarks true i.members).flatten.Sublist
            (bodyMarks (memberMarks true i.members)) := (List.sublist_append_left _ _).cons _
        exact (sublist_members true hd.plain hm ht).trans
          (hbody.trans (List.sublist_append_right _ _))
  | enumDef e => cases ht
  | aliasDef a =>
      simp only [types, List.mem_append, List.mem_flatMap, List.mem_singleton] at ht
      obtain ⟨p, hp, ht⟩ | rfl := ht
      · exact (sublist_typeParams hp ht).trans ((List.sublist_append_left _ _).trans
          (List.sublist_append_right _ _))
      · exact ((List.sublist_append_left _ _).cons _).trans ((List.sublist_append_right _ _).trans
          (List.sublist_append_right _ _))

theorem types_canonical (hd : d.Canonical) (ht : t ∈ d.types) : t.Canonical := by
  have hparams : ∀ {params : List TypeParam}, (∀ p ∈ params, p.Canonical) →
      ∀ p ∈ params, t ∈ p.types → t.Canonical := by
    intro params hparams p hp ht
    simp only [TypeParam.types, List.mem_append, Option.mem_toList] at ht
    exact ht.elim ((hparams p hp).constraint t) ((hparams p hp).fallback t)
  cases d with
  | classDef d => exact hd.elim
  | interfaceDef i =>
      simp only [types, List.mem_append, List.mem_flatMap] at ht
      obtain ⟨p, hp, ht⟩ | ⟨b, hb, ht⟩ | ⟨m, hm, ht⟩ := ht
      · exact hparams hd.typeParams p hp ht
      · exact (hd.bases b hb).typeArgs t ht
      · exact hd.members m hm t ht
  | enumDef e => cases ht
  | aliasDef a =>
      simp only [types, List.mem_append, List.mem_flatMap, List.mem_singleton] at ht
      obtain ⟨p, hp, ht⟩ | rfl := ht
      · exact hparams hd.typeParams p hp ht
      · exact hd.type

/-- The pieces of a declaration where these names are type parameters. -/
def piecesIn (scope : List String) : Declaration → List Piece
  | classDef c =>
    blockPieces (headerPieces scope c.name c.typeParams c.heritage)
      (c.members.flatMap (classMemberPieces scope))
  | interfaceDef i =>
    blockPieces (headerPieces scope i.name i.typeParams i.bases) (memberPieces scope i.members)
  | enumDef e =>
    [.plain (block ("export enum " ++ e.name ++ " \x7b") (e.members.map enumMemberText))]
  | aliasDef a =>
    .plain ("export type " ++ a.name) :: (typeParamsPieces scope a.typeParams ++
      Piece.enclosed " = " (a.type.pieces scope) ";")

theorem pieces_eq (d : Declaration) : d.pieces = d.piecesIn d.scope := by
  cases d <;> rfl

theorem Canonical.scans (hd : d.Canonical) :
    Scans false (Piece.print (d.piecesIn [])).toList (d.marks ++ [.final]) := by
  cases d with
  | classDef d => exact hd.elim
  | interfaceDef i => exact InterfaceDef.Canonical.scans hd
  | enumDef e => exact EnumDef.Canonical.scans hd
  | aliasDef a => exact AliasDef.Canonical.scans hd

/-- The text of a canonical declaration is parsed to that declaration. -/
theorem Canonical.parse_text (hd : d.Canonical) :
    parse (Piece.print (d.piecesIn [])) = .ok [d.toItem] := by
  have hread : ∀ t ∈ d.types, t.ReadBy (withLevels (d.marks.length + 2)) := fun t ht =>
    (types_canonical hd ht).readBy (Nat.le_add_right_of_le (sublist_marks hd ht).length_le)
  exact parse_of_statements (arrowFree_marks hd) hd.scans (statements_takes hd hread)

end HandlerWeave.Declaration
