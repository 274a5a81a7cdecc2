import HandlerWeave.Proofs.Declarations.Reading
import HandlerWeave.Proofs.Source.Skipping

/-!
Imports and classes read from their marks. Of a method only what stands in front of its body counts;
the body is skipped whatever is in it, as long as its brackets are closed.
-/
namespace HandlerWeave.Source

open Mark Source.Parser Grammar

variable {m : Mark} {ms mid rest : List Mark} {g : Grammar} {n : Nat} {line : Bool} {w : String}

/-- An import of these names from a module. -/
def ImportStatement.ofNames (names : List String) (source : String) : ImportStatement :=
  ⟨source, none, .named (names.map fun w => ⟨w, w⟩), false⟩

def ImportSpecifier.marks (s : ImportSpecifier) : List Mark := [.name s.bound]

def importMarks (line : Bool) (names : List String) (source : String) : List Mark :=
  (Mark.name "import").onLine line :: sign '\x7b' ::
    (separatedMarks (sign ',') (names.map fun w => [.name w]) ++
      [sign '\x7d', .name "from", ⟨.string, Text.quote source, false⟩, sign ';'])

theorem importSpecifier_takes (hm : m.kind ∈ [.comma, .rightBrace]) :
    Takes importSpecifier (name w :: m :: rest) ⟨w, w⟩ (m :: rest) := by
  have hkind : m.kind ≠ .word ∧ m.kind ≠ .string := by
    simp only [List.mem_cons, List.not_mem_nil, or_false] at hm
    obtain hm | hm := hm <;> simp [hm]
  have has : (markAt (m :: rest) 0).isWord "as" = false := by simp [Mark.isWord, hkind.1]
  refine .look fun c hc => .ite_neg ?_ (.look fun c hc => ?_)
  · simp [hc.kindAhead, hkind]
  · rw [hc.kind]
    exact takeText_takes.bind ((takeWord_none has).bind (.ite_neg (by decide) .pure))

theorem importBindings_takes (names : List String) (rest : List Mark) :
    Takes importBindings
      (sign '\x7b' :: (separatedMarks (sign ',') (names.map fun w => [.name w]) ++
      sign '\x7d' :: rest)) (.named (names.map fun w => ⟨w, w⟩)) rest := by
  have hlist : Listed (ReadsPart importSpecifier [.comma, .rightBrace]) (separatedMarks (sign ',')
      ((names.map fun w => (⟨w, w⟩ : ImportSpecifier)).map ImportSpecifier.marks))
      (names.map fun w => ⟨w, w⟩) := by
    refine listed_separated (List.forall_mem_map.2 fun w _ => ⟨fun _ => ?_, fun _ _ hr => ?_⟩)
    · simp [ImportSpecifier.marks]
    · exact importSpecifier_takes hr
  rw [List.map_map] at hlist
  have hstar : (sign '\x7b').kind ≠ .star := nofun
  exact (takeKind_other hstar).bind (.ite_neg (by decide) ((takeKind_takes rfl).bind (.ite_pos rfl
    ((commaList_takes (hlist.lists rfl (by decide))).bind ((require_takes rfl).bind .pure)))))

theorem importStatement_takes (names : List String) (source : String) :
    Takes importStatement (importMarks line names source ++ rest)
      (some (.ofNames names source)) rest := by
  have hbindings := importBindings_takes names
    (.name "from" :: ⟨.string, Text.quote source, false⟩ :: sign ';' :: rest)
  have hsource : Takes takeString (⟨.string, Text.quote source, false⟩ :: sign ';' :: rest) source
      (sign ';' :: rest) := takeString_takes false source
  rw [importMarks, List.cons_append, List.cons_append, List.append_assoc]
  refine (requireWord_takes rfl).bind (.look fun c hc => .ite_neg ?_ (.look fun c hc => ?_))
  · simp [hc.check, sign, Lexer.mark?]
  have htype : c.seesWord "type" = false := by
    rw [hc.seesWord]
    rfl
  simp only [htype, Bool.false_and]
  refine .ite_neg (by decide) (.look fun c hc => .ite_neg ?_ (.ite_neg ?_ (.bind .pure
    (hbindings.bind ((requireWord_takes rfl).bind (.look fun c hc => .ite_neg ?_ (hsource.bind
      (.look fun c hc => .ite_neg ?_ ((takeKind_takes rfl).bind .pure)))))))))
  all_goals simp [hc.check, hc.seesAnyWord, sign, Lexer.mark?, Mark.isWord]

theorem import_readsItem (line : Bool) (names : List String) (source : String) :
    ReadsItem g (importMarks line names source) (.importStatement (.ofNames names source)) := by
  have hkind : Token.Kind.word ∉ [.endOfFile, .semicolon] := by decide
  refine ⟨fun rest => hkind, fun rest => ?_⟩
  have hstatement : Takes importStatement (importMarks line names source ++ rest) _ rest :=
    importStatement_takes names source
  rw [importMarks, List.cons_append] at hstatement ⊢
  refine statement_of_plain nofun (isWord_of_notMem (by decide)) (.look fun c hc =>
    .ite_pos ?_ (hstatement.bind .pure))
  simp [hc.seesWord, hc.kindAhead, Mark.isWord, sign, Lexer.mark?]

/-- Words that start an expression of their own. -/
def exprWords : List String := ["true", "false", "null", "new", "function", "class", "async"]

theorem nameExpr_takes (hw : w ∉ exprWords) :
    Takes (withLevels (n + 1)).expr (name w :: sign ')' :: rest) (.name w) (sign ')' :: rest) := by
  simp only [exprWords, List.mem_cons, List.not_mem_nil, or_false, not_or] at hw
  have hprimary : Takes (withLevels n).primaryExpr (name w :: sign ')' :: rest) (.name w)
      (sign ')' :: rest) := by
    refine .look fun c hc => ?_
    rw [hc.kind]
    refine .look fun c hc => .ite_neg ?_ (.ite_neg ?_ (.ite_neg ?_ (.ite_neg ?_ (.ite_neg ?_
      (.ite_neg ?_ (takeText_takes.bind .pure))))))
    all_goals simp [hc.seesWord, hc.seesAnyWord, hc.kindAhead, Mark.isWord, sign, Lexer.mark?, hw]
  exact exprRule_takes (by decide) (unaryRule_of_primary (by simp) (by decide) hprimary)

theorem arguments_takes {argument : Option String} (h : ∀ w ∈ argument, w ∉ exprWords) :
    Takes (withLevels (n + 1)).arguments
      (sign '(' :: (argument.toList.map .name ++ sign ')' :: rest))
      (argument.toList.map .name) rest := by
  have hlist : Takes ((withLevels (n + 1)).exprList .rightParen)
      (argument.toList.map .name ++ sign ')' :: rest) (argument.toList.map .name)
      (sign ')' :: rest) := by
    refine commaList_takes ?_
    cases argument with
    | none => exact .nil rfl
    | some w =>
        have hword : (markAt (name w :: sign ')' :: rest) 0).kind ≠ .rightParen := nofun
        have hend : (markAt (sign ')' :: rest) 0).kind ≠ .comma := nofun
        have hspread : (name w).kind ≠ .ellipsis := nofun
        refine .one hword (.look fun c hc => .ite_neg ?_ ((takeKind_other hspread).bind
          (.ite_neg (by decide) (nameExpr_takes (h w rfl))))) hend
        simp [hc.check]
  exact (require_takes rfl).bind (hlist.bind ((require_takes rfl).bind .pure))

/-- A decorator that starts a line or goes on with one, its path of one word and its argument. -/
structure PlainDecorator where
  line : Bool
  word : String
  argument : Option String

namespace PlainDecorator

def marks (d : PlainDecorator) : List Mark :=
  (sign '@').onLine d.line :: .name d.word :: sign '(' ::
    (d.argument.toList.map .name ++ [sign ')'])

def decorator (d : PlainDecorator) : Decorator := ⟨[d.word], d.argument.toList.map .name⟩

end PlainDecorator

theorem decorators_takes {ds : List PlainDecorator} (h : ∀ d ∈ ds, ∀ w ∈ d.argument, w ∉ exprWords)
    (hrest : (markAt rest 0).kind ≠ .atSign) :
    Takes (withLevels (n + 1)).decorators ((ds.map PlainDecorator.marks).flatten ++ rest)
      (ds.map PlainDecorator.decorator) rest := by
  refine many_takes ?_
  induction ds with
  | nil => exact .nil ((takeKind_none hrest).bind (.ite_neg (by decide) .pure))
  | cons d ds ih =>
      obtain ⟨hd, hds⟩ := List.forall_mem_cons.1 h
      have hparen : ∀ ms, (markAt (sign '(' :: ms) 0).kind ≠ .dot := fun _ => nofun
      rw [List.map_cons, List.flatten_cons, List.append_assoc, PlainDecorator.marks,
        List.cons_append, List.cons_append, List.cons_append, List.append_assoc,
        List.singleton_append]
      refine .cons ((takeKind_takes rfl).bind (.ite_pos rfl ((separated_takes (.one
        (word_takes rfl) (hparen _))).bind (.bind (.look fun c hc => .ite_pos ?_
          (arguments_takes hd)) .pure)))) ?_ (ih hds)
      · rw [hc.check]
        rfl
      · simp only [List.length_cons, List.length_append]
        omega

/-- What makes a parameter a property stands in front of other words only, so a name that could do
so does not. -/
theorem propertyWords_iterates {words : List Mark}
    (hwords : ∀ v ∈ words, v.kind = .word ∧ v.text ∈ paramWords) (hm : m.kind = .word) (s : Bool)
    (ms : List Mark) :
    Iterates (fun _ => do
      let c ← get
      if c.seesAnyWord paramWords &&
          [.word, .leftBrace, .leftBracket, .ellipsis].contains (c.kindAhead 1) then
        advance
        return some true
      return none) s (words ++ m :: sign ':' :: ms) (s || !words.isEmpty)
        (m :: sign ':' :: ms) := by
  induction words generalizing s with
  | nil =>
      rw [List.isEmpty_nil, Bool.not_true, Bool.or_false]
      refine .stop (.look fun c hc => .ite_neg ?_ .pure)
      rw [hc.kindAhead]
      simp [sign, Lexer.mark?]
  | cons v words ih =>
      obtain ⟨⟨hkind, htext⟩, hwords⟩ := List.forall_mem_cons.1 hwords
      have hnext : (markAt (words ++ m :: sign ':' :: ms) 0).kind = .word := by
        cases words with
        | nil => exact hm
        | cons u words => exact (hwords u List.mem_cons_self).1
      have hrest := ih hwords true
      rw [Bool.true_or] at hrest
      rw [List.isEmpty_cons, Bool.not_false, Bool.or_true]
      refine .step (.look fun c hc => .ite_pos ?_ (advance_takes.bind .pure))
        (Nat.lt_succ_self _) hrest
      have hsees : paramWords.any v.isWord = true := by
        rw [List.any_eq_true]
        exact ⟨v.text, htext, by simp [Mark.isWord, hkind]⟩
      rw [hc.seesAnyWord, hc.kindAhead, List.cons_append, markAt_zero, markAt_one, hsees, hnext]
      rfl

/-- A parameter is its decorators, the words that make it a property, its name and its type. -/
theorem param_takes {ds : List PlainDecorator} {words : List Mark} {m r : Mark} {t : TypeNode}
    (hds : ∀ d ∈ ds, ∀ w ∈ d.argument, w ∉ exprWords)
    (hwords : ∀ v ∈ words, v.kind = .word ∧ v.text ∈ paramWords) (hm : m.kind = .word)
    (ht : t.ReadBy (withLevels (n + 1))) (hr : r.kind ∈ [.comma, .rightParen]) :
    Takes (withLevels (n + 1)).param ((ds.map PlainDecorator.marks).flatten ++ (words ++
      m :: sign ':' :: (t.marks ++ r :: rest)))
      ⟨m.text, some t, false, false, !words.isEmpty, ds.map PlainDecorator.decorator⟩
      (r :: rest) := by
  have hne : ∀ kind ∉ [Token.Kind.comma, .rightParen], r.kind ≠ kind := by
    rintro kind hkind rfl
    exact hkind hr
  have hends : r.endsType = true := endsType_of_mem hr (by decide)
  have hsign : (markAt (words ++ m :: sign ':' :: (t.marks ++ r :: rest)) 0).kind ≠ .atSign := by
    cases words with
    | nil => rw [List.nil_append, markAt_zero, hm]; decide
    | cons v words =>
        rw [List.cons_append, markAt_zero, (hwords v List.mem_cons_self).1]
        decide
  have hspread : m.kind ≠ .ellipsis := by rw [hm]; decide
  have hoptional : (sign ':').kind ≠ .question := by decide
  have hname : ∀ ms what, Takes (bindingName what) (m :: ms) m.text ms := by
    intro ms what
    refine .look fun c hc => ?_
    rw [hc.kind, markAt_zero, hm]
    exact takeText_takes
  have htype := after_takes (m := sign ':') rfl (ht.takes (r :: rest) hends)
  have hproperty := iterate_takes
    (propertyWords_iterates hwords hm false (t.marks ++ r :: rest))
  rw [Bool.false_or] at hproperty
  exact (decorators_takes hds hsign).bind (hproperty.bind ((takeKind_other hspread).bind
    ((hname _ _).bind ((takeKind_other hoptional).bind (htype.bind
      ((takeKind_other (hne _ (by decide))).bind (.ite_neg (by decide) .pure)))))))

/-- The marks are one member of a class. -/
structure ReadsMember (g : Grammar) (ms : List Mark) (member : ClassMember) : Prop where
  starts : ∀ rest, (markAt (ms ++ rest) 0).kind ∉ [.rightBrace, .endOfFile]
  takes : ∀ rest, Takes g.classMember (ms ++ rest) (some member) rest

theorem ReadsMember.ne_nil {member : ClassMember} (h : ReadsMember g ms member) : ms ≠ [] := by
  rintro rfl
  exact h.starts [] (by simp [Mark.final])

theorem passBody_lines {lines : List (List Mark)} (h : Closed lines.flatten) :
    Takes passBody (bodyMarks lines ++ rest) () rest := by
  rw [bodyMarks, List.cons_append, List.append_assoc]
  exact passBody_takes h rfl rfl

theorem takeKind_paren {kind : Token.Kind} (h : Token.Kind.leftParen ≠ kind) :
    Takes (takeKind kind) (sign '(' :: ms) false (sign '(' :: ms) := takeKind_other h

theorem params_takes {params : List Param} {r : Mark} (hr : r.kind = .rightParen)
    (h : Lists .rightParen g.param (ms ++ r :: rest) params (r :: rest)) :
    Takes g.params (sign '(' :: (ms ++ r :: rest)) params rest :=
  (require_takes rfl).bind ((commaList_takes h).bind ((require_takes hr).bind .pure))

/-- The name of a member in front of its parameters stands for itself, also where it is a word that
makes a modifier or an accessor of a member. -/
theorem member_takes {member : ClassMember} {isStatic : Bool} (hm : m.kind = .word)
    (hwords : Takes passMemberWords ms isStatic (m :: sign '(' :: mid))
    (hsemicolon : (markAt ms 0).kind ≠ .semicolon) (hsign : (markAt ms 0).kind ≠ .atSign)
    (h : Takes (g.classMemberBody [] isStatic .method m.text) (sign '(' :: mid) member rest) :
    Takes g.classMember ms (some member) rest := by
  have hstar : m.kind ≠ .star := by rw [hm]; exact nofun
  have hname : Takes (memberName "class member") (m :: sign '(' :: mid) m.text
      (sign '(' :: mid) := by
    refine .look fun c hc => ?_
    rw [hc.kind, markAt_zero, hm]
    exact takeText_takes
  refine (takeKind_none hsemicolon).bind (.ite_neg (by decide) ((decorators_none hsign).bind
    (hwords.bind (.look fun c hc => .ite_neg ?_ (.look fun c hc => ?_)))))
  · simp [atStaticBlock, hc.kindAhead, sign, Lexer.mark?]
  have hnot : (c.seesAnyWord ["get", "set"] && c.nameStartsAt 1) = false := by
    simp [Cursor.nameStartsAt, hc.kindAhead, sign, Lexer.mark?]
  simp only [hnot]
  refine .ite_neg (by decide) ((takeKind_other hstar).bind (.look fun c hc => .ite_neg ?_
    (hname.bind (h.bind .pure))))
  simp [atIndexSignature, hc.kindAhead, sign, Lexer.mark?]

theorem constructor_readsMember {params : List Param} {body : List (List Mark)} {r : Mark}
    (line : Bool) (hr : r.kind = .rightParen) (hbody : Closed body.flatten)
    (h : ∀ rest, Lists .rightParen g.param (ms ++ r :: rest) params (r :: rest)) :
    ReadsMember g ((Mark.name "constructor").onLine line :: sign '(' ::
      (ms ++ r :: bodyMarks body)) (.constructor params) := by
  have hkind : Token.Kind.word ∉ [.rightBrace, .endOfFile] := by decide
  refine ⟨fun rest => hkind, fun rest => ?_⟩
  rw [List.cons_append, List.cons_append, List.append_assoc, List.cons_append]
  refine member_takes rfl (iterate_takes (.stop (.look fun c hc => .ite_neg ?_ .pure))) nofun nofun
    ((takeKind_paren (by decide)).bind ((takeKind_paren (by decide)).bind (.look fun c hc =>
      .ite_pos ?_ ((params_takes hr (h _)).bind ((passBody_lines hbody).bind .pure)))))
  · simp [hc.seesAnyWord, Mark.isWord, memberWords]
  · simp [hc.check, sign, Lexer.mark?]

theorem method_readsMember {params : List Param} {body : List (List Mark)} {r : Mark}
    (line : Bool) (hw : w ≠ "constructor") (hr : r.kind = .rightParen) (hbody : Closed body.flatten)
    (h : ∀ rest, Lists .rightParen g.param (ms ++ r :: rest) params (r :: rest)) :
    ReadsMember g ((Mark.name "public").onLine line :: .name w :: sign '(' ::
      (ms ++ r :: bodyMarks body)) (.method ⟨w, .method, false, [], params, none, []⟩) := by
  have hkind : Token.Kind.word ∉ [.rightBrace, .endOfFile] := by decide
  refine ⟨fun rest => hkind, fun rest => ?_⟩
  rw [List.cons_append, List.cons_append, List.cons_append, List.append_assoc, List.cons_append]
  have hwords : Takes passMemberWords ((Mark.name "public").onLine line :: .name w :: sign '(' ::
      (ms ++ r :: (bodyMarks body ++ rest))) false
      (.name w :: sign '(' :: (ms ++ r :: (bodyMarks body ++ rest))) := by
    refine iterate_takes (.step (u := false) (.look fun c hc => .ite_pos ?_ ?_)
      (Nat.lt_succ_self _) (.stop (.look fun c hc => .ite_neg ?_ .pure)))
    · simp [hc.seesAnyWord, hc.seesWord, atStaticBlock, Cursor.nameStartsAt, hc.kindAhead,
        Mark.isWord, memberWords]
    · have hstatic : c.seesWord "static" = false := by
        rw [hc.seesWord]
        rfl
      rw [hstatic, Bool.or_false]
      exact advance_takes.bind .pure
    · simp [Cursor.nameStartsAt, hc.kindAhead, sign, Lexer.mark?]
  have hkinds : Token.Kind.word ≠ .semicolon ∧ Token.Kind.word ≠ .atSign := by decide
  have hbrace : Token.Kind.leftBrace ≠ .colon := by decide
  have hcolon : (markAt (bodyMarks body ++ rest) 0).kind ≠ .colon := hbrace
  have htypeParams : Takes g.typeParams (sign '(' :: (ms ++ r :: (bodyMarks body ++ rest))) []
      (sign '(' :: (ms ++ r :: (bodyMarks body ++ rest))) :=
    (takeKind_paren (by decide)).bind (.ite_neg (by decide) .pure)
  refine member_takes rfl hwords hkinds.1 hkinds.2 ((takeKind_paren (by decide)).bind
    ((takeKind_paren (by decide)).bind (.look fun c hc => .ite_neg ?_ (.ite_pos ?_
      (htypeParams.bind ((params_takes hr (h _)).bind ((after_none hcolon).bind
        ((passBody_lines hbody).bind .pure))))))))
  · simp [hw]
  · simp [hc.check, sign, Lexer.mark?]

theorem collects_classMembers {parts : List (List Mark × ClassMember)} (name : String)
    (h : ∀ part ∈ parts, ReadsMember g part.1 part.2)
    (hrest : (markAt rest 0).kind = .rightBrace) :
    Collects (do
      let c ← get
      if c.check .rightBrace then return none
      if c.check .endOfFile then fail (.unterminatedClass name)
      return some (← g.classMember)) ((parts.map Prod.fst).flatten ++ rest)
      (parts.map fun part => some part.2) rest := by
  induction parts with
  | nil => exact .nil (.look fun c hc => .ite_pos (by simp [hc.check, hrest]) .pure)
  | cons part parts ih =>
      obtain ⟨hpart, hparts⟩ := List.forall_mem_cons.1 h
      have hstarts := hpart.starts ((parts.map Prod.fst).flatten ++ rest)
      have hpos := List.length_pos_iff.2 hpart.ne_nil
      simp only [List.mem_cons, List.not_mem_nil, or_false, not_or] at hstarts
      rw [List.map_cons, List.flatten_cons, List.append_assoc]
      refine .cons (.look fun c hc => .ite_neg ?_ (.ite_neg ?_ ((hpart.takes _).bind .pure))) ?_
        (ih hparts)
      · simp [hc.check, hstarts.1]
      · simp [hc.check, hstarts.2]
      · simp only [List.length_append]
        omega

theorem classDef_takes {parts : List (List Mark × ClassMember)} {mods : Modifiers}
    {decorators : List Decorator} (hw : w ∉ ["extends", "implements"])
    (h : ∀ part ∈ parts, ReadsMember g part.1 part.2) :
    Takes (g.classDef mods decorators)
      (.name "class" :: .name w :: (bodyMarks (parts.map Prod.fst) ++ rest))
      ⟨w, mods, decorators, [], none, [], parts.map Prod.snd⟩ rest := by
  simp only [List.mem_cons, List.not_mem_nil, or_false, not_or] at hw
  have hbrace : ∀ ms, Takes g.typeParams (sign '\x7b' :: ms) [] (sign '\x7b' :: ms) := fun ms =>
    (takeKind_other (by decide)).bind (.ite_neg (by decide) .pure)
  have hclose : (markAt ((sign '\x7d').onLine true :: rest) 0).kind = .rightBrace := rfl
  have hmembers := many_takes (collects_classMembers w h hclose)
  have hresults : (parts.map fun part => some part.2).filterMap id = parts.map Prod.snd := by
    simp [List.filterMap_map]
  rw [bodyMarks, List.cons_append, List.append_assoc, List.singleton_append]
  refine (requireWord_takes rfl).bind (.look fun c hc => .ite_pos ?_ (takeText_takes.bind
    ((hbrace _).bind ((takeWord_none rfl).bind (.ite_neg (by decide) (.bind .pure (.bind
      ((takeWord_none rfl).bind (.ite_neg (by decide) .pure)) ((require_takes rfl).bind
        (hmembers.bind ((require_takes rfl).bind ?_))))))))))
  · simp [hc.check, hc.seesAnyWord, Mark.isWord, hw]
  · rw [hresults]
    exact .pure

/-- A class is read with its decorators and its members. -/
theorem class_readsItem {parts : List (List Mark × ClassMember)} {ds : List PlainDecorator}
    (line : Bool) (hw : w ∉ ["extends", "implements"])
    (hds : ∀ d ∈ ds, ∀ v ∈ d.argument, v ∉ exprWords)
    (h : ∀ part ∈ parts, ReadsMember (withLevels (n + 1)) part.1 part.2) :
    ReadsItem (withLevels (n + 1)) ((ds.map PlainDecorator.marks).flatten ++
      (Mark.name "export").onLine line :: .name "class" :: .name w ::
        bodyMarks (parts.map Prod.fst))
      (.classDef ⟨w, .written, ds.map PlainDecorator.decorator, [], none, [],
        parts.map Prod.snd⟩) := by
  have hkinds : ∀ kind ∈ [Token.Kind.atSign, .word], kind ∉ [.endOfFile, .semicolon] := by decide
  refine ⟨fun rest => ?_, fun rest => ?_⟩
  · cases ds with
    | nil => exact hkinds .word (by decide)
    | cons d ds => exact hkinds .atSign (by decide)
  · rw [List.append_assoc, List.cons_append, List.cons_append, List.cons_append]
    refine statement_of_declaration (decorators_takes hds nofun) rfl (by decide)
      (.look fun c hc => .ite_neg ?_ (.ite_pos ?_ ((classDef_takes hw h).bind .pure)))
    all_goals simp [hc.seesWord, Mark.isWord]

end HandlerWeave.Source
