import HandlerWeave.Proofs.Declarations.Reading
import HandlerWeave.Proofs.Source.Joined

/-!
Literals as the grammar takes them: strings, numerals, truth values, lists and objects, with marks
that may stand anywhere on their lines. A grammar with as many levels as a literal has marks reads
all of it.
-/
namespace HandlerWeave.Source

open Mark Source.Parser Grammar

variable {m comma colon opener closer : Mark} {ms rest : List Mark} {e : Expr} {es : List Expr}
  {n : Nat}

/-- The kinds of marks that an operand of a literal starts with. -/
def operandStarts : List Token.Kind := [.string, .number, .word, .leftBracket, .leftBrace]

/-- The marks are an operand, whatever stands behind them. -/
structure ReadsOperand (ms : List Mark) (e : Expr) : Prop where
  arrowFree : ArrowFree ms
  starts : ∀ rest, (markAt (ms ++ rest) 0).kind ∈ operandStarts
  takes : ∀ n, ms.length ≤ n + 1 → ∀ rest,
    Takes (withLevels n).primaryExpr (ms ++ rest) e rest

/-- The marks are an expression in front of anything that ends one. -/
structure ReadsExpr (ms : List Mark) (e : Expr) : Prop where
  arrowFree : ArrowFree ms
  starts : ∀ rest, (markAt (ms ++ rest) 0).kind ∈ .minus :: operandStarts
  takes : ∀ n, ms.length ≤ n → ∀ m rest, m.kind ∈ exprEnds →
    Takes (withLevels n).expr (ms ++ m :: rest) e (m :: rest)

theorem ReadsOperand.length_pos (h : ReadsOperand ms e) : 0 < ms.length := by
  cases ms with
  | nil => exact absurd (h.starts []) (by decide)
  | cons m ms => exact Nat.succ_pos _

theorem ReadsOperand.unary (h : ReadsOperand ms e) (hn : ms.length ≤ n + 1)
    (hm : m.kind ∈ exprEnds) :
    Takes (withLevels n).unaryRule (ms ++ m :: rest) e (m :: rest) := by
  refine unaryRule_of_primary ?_ hm (h.takes n hn _)
  have hstarts := h.starts (m :: rest)
  intro hsign
  have hdisjoint : ∀ kind ∈ operandStarts, kind ∉ [Token.Kind.minus, .plus] := by decide
  exact hdisjoint _ hstarts hsign

theorem ReadsOperand.expr (h : ReadsOperand ms e) : ReadsExpr ms e := by
  refine ⟨h.arrowFree, fun rest => List.mem_cons_of_mem _ (h.starts rest),
    fun n hn m rest hm => ?_⟩
  obtain ⟨k, rfl⟩ := Nat.exists_eq_add_of_lt (Nat.lt_of_lt_of_le h.length_pos hn)
  rw [Nat.zero_add] at hn ⊢
  exact exprRule_takes hm (h.unary hn hm)

theorem ReadsOperand.negate (h : ReadsOperand ms e) (hm : m.kind = .minus) :
    ReadsExpr (m :: ms) (.negate e) := by
  have harrow : m.kind ≠ .arrow := by
    rw [hm]
    decide
  refine ⟨arrowFree_cons.2 ⟨harrow, h.arrowFree⟩, fun rest => by simp [hm],
    fun n hn last rest hlast => ?_⟩
  have hpos := h.length_pos
  obtain ⟨k, rfl⟩ : ∃ k, n = k + 2 := ⟨n - 2, by rw [List.length_cons] at hn; omega⟩
  rw [List.length_cons] at hn
  exact exprRule_takes hlast ((takeKind_takes hm).bind (.ite_pos rfl
    ((h.unary (Nat.le_of_succ_le_succ hn) hlast).bind .pure)))

theorem ne_arrow_of_start (h : m.kind ∈ operandStarts) : m.kind ≠ .arrow := by
  have hdistinct : Token.Kind.arrow ∉ operandStarts := by decide
  rintro heq
  exact hdistinct (heq ▸ h)

theorem takes_single {kind : Token.Kind} (hm : m.kind = kind) (hkind : kind ∈ operandStarts)
    (h : ∀ n rest, Takes (withLevels n).primaryExpr (m :: rest) e rest) : ReadsOperand [m] e := by
  subst hm
  exact ⟨arrowFree_cons.2 ⟨ne_arrow_of_start hkind, arrowFree_nil⟩, fun _ => hkind,
    fun n _ rest => h n rest⟩

theorem string_operand {s : String} (hm : m.kind = .string) (hs : Text.unquote m.text = s) :
    ReadsOperand [m] (.string s) := by
  subst hs
  refine takes_single hm (by decide) fun n rest => .look fun c hc => ?_
  rw [hc.kind, markAt_zero, hm]
  exact takeString_unquotes.bind .pure

theorem number_operand (hm : m.kind = .number) : ReadsOperand [m] (.number m.text) := by
  refine takes_single hm (by decide) fun n rest => .look fun c hc => ?_
  rw [hc.kind, markAt_zero, hm]
  exact takeText_takes.bind .pure

theorem bool_operand {b : Bool} (hm : m.kind = .word)
    (htext : m.text = if b then "true" else "false") : ReadsOperand [m] (.bool b) := by
  refine takes_single hm (by decide) fun n rest => .look fun c hc => ?_
  rw [hc.kind, markAt_zero, hm]
  refine .look fun c hc => .ite_pos ?_ (advance_takes.bind ?_)
  · cases b <;> simp [hc.seesAnyWord, Mark.isWord, hm, htext]
  · have hword : c.seesWord "true" = b := by
      rw [hc.seesWord]
      cases b <;> simp [Mark.isWord, hm, htext]
    rw [hword]
    exact .pure

theorem exprList_takes (h : Joined .comma ReadsExpr ms es) (hn : ms.length ≤ n)
    (hm : m.kind = .rightBracket) :
    Takes ((withLevels n).exprList .rightBracket) (ms ++ m :: rest) es (m :: rest) := by
  refine commaList_takes (Listed.lists (Joined.listed (h.imp fun ns e hns he => ⟨fun rest => ?_,
    fun last rest hlast => ?_⟩)) hm (by decide))
  · have hdisjoint : ∀ kind ∈ Token.Kind.minus :: operandStarts,
        kind ∉ [Token.Kind.comma, .rightBracket] := by decide
    exact hdisjoint _ (he.starts rest)
  · have hstarts := he.starts (last :: rest)
    have hends : [Token.Kind.comma, .rightBracket] ⊆ exprEnds := by decide
    have hne : ∀ kind ∉ Token.Kind.minus :: operandStarts,
        (markAt (ns ++ last :: rest) 0).kind ≠ kind := by
      rintro kind hkind rfl
      exact hkind hstarts
    refine .look fun c hc => .ite_neg ?_ ((takeKind_none (hne _ (by decide))).bind
      (.ite_neg (by decide) (he.takes n (Nat.le_trans hns hn) last rest (hends hlast))))
    simp [hc.check, hne .comma (by decide)]

/-- An operand between two marks, which needs a level for each mark between them. -/
theorem enclosed_operand (hopener : opener.kind ∈ operandStarts) (hcloser : closer.kind ≠ .arrow)
    (harrow : ArrowFree ms)
    (h : ∀ n, ms.length ≤ n → ∀ rest,
      Takes (withLevels n).primaryExpr (opener :: (ms ++ closer :: rest)) e rest) :
    ReadsOperand (opener :: (ms ++ [closer])) e := by
  refine ⟨?_, fun _ => hopener, fun n hn rest => ?_⟩
  · simp [harrow, ne_arrow_of_start hopener, hcloser]
  · have hlength : ms.length ≤ n := by
      rw [List.length_cons, List.length_append, List.length_singleton] at hn
      omega
    rw [List.cons_append, List.append_assoc, List.singleton_append]
    exact h n hlength rest

theorem array_operand (hopener : opener.kind = .leftBracket) (hcloser : closer.kind = .rightBracket)
    (harrow : ArrowFree ms)
    (h : ∀ n, ms.length ≤ n → ∀ rest,
      Takes ((withLevels n).exprList .rightBracket) (ms ++ closer :: rest) es (closer :: rest)) :
    ReadsOperand (opener :: (ms ++ [closer])) (.array es) := by
  refine enclosed_operand (hopener ▸ (by decide)) (by simp [hcloser]) harrow fun n hn rest =>
    .look fun c hc => ?_
  rw [hc.kind, markAt_zero, hopener]
  exact advance_takes.bind ((h n hn rest).bind ((require_takes hcloser).bind .pure))

theorem emptyArray_operand (hopener : opener.kind = .leftBracket)
    (hcloser : closer.kind = .rightBracket) : ReadsOperand [opener, closer] (.array []) :=
  array_operand hopener hcloser arrowFree_nil fun _ _ _ => commaList_takes (.nil hcloser)

theorem list_operand (hopener : opener.kind = .leftBracket) (hcloser : closer.kind = .rightBracket)
    (h : Joined .comma ReadsExpr ms es) : ReadsOperand (opener :: (ms ++ [closer])) (.array es) :=
  array_operand hopener hcloser (h.arrowFree (by decide) fun _ _ _ h => h.arrowFree) fun _ hn _ =>
    exprList_takes h hn hcloser

/-- The marks are a member of an object that keeps its structure. -/
structure ReadsEntry (ms : List Mark) (member : ObjectMember) : Prop where
  arrowFree : ArrowFree ms
  part : ∀ n, ms.length ≤ n →
    ReadsPart (withLevels n).objectMember [.comma, .rightBrace] ms member

theorem property_member {key : String} (hm : m.kind = .string) (hname : Text.unquote m.text = key)
    (hcolon : colon.kind = .colon) (h : ReadsExpr ms e) :
    ReadsEntry (m :: colon :: ms) (.property key e) := by
  subst hname
  refine ⟨by simp [hm, hcolon, h.arrowFree], fun n hn => ⟨fun _ => by simp [hm],
    fun last rest hlast => ?_⟩⟩
  have hlength : ms.length ≤ n := by
    rw [List.length_cons, List.length_cons] at hn
    omega
  have hends : last.kind ∈ exprEnds := by
    have hsubset : [Token.Kind.comma, .rightBrace] ⊆ exprEnds := by decide
    exact hsubset hlast
  have hellipsis : m.kind ≠ .ellipsis := by simp [hm]
  have hstar : m.kind ≠ .star := by simp [hm]
  have hkey : ∀ ns, Takes (memberName "property name") (m :: ns) (Text.unquote m.text) ns := by
    intro ns
    refine .look fun c hc => ?_
    rw [hc.kind, markAt_zero, hm]
    exact takeString_unquotes
  refine .look fun start hstart => (takeKind_other hellipsis).bind (.ite_neg (by decide) ?_)
  have hmodified : start.seesAnyWord ["get", "set", "async"] = false := by
    simp [hstart.seesAnyWord, Mark.isWord, hm]
  simp only [hmodified, Bool.false_and]
  refine .ite_neg (by decide) ((takeKind_other hstar).bind (.look fun nameStart hname =>
    (hkey _).bind (.look fun c hc => .ite_neg ?_ ((takeKind_takes hcolon).bind (.ite_pos rfl
      ((h.takes n hlength last rest hends).bind (.ite_neg ?_ .pure)))))))
  · simp [hc.check, hcolon]
  · simp [hname.check, hm]

theorem object_operand {members : List ObjectMember} (hopener : opener.kind = .leftBrace)
    (hcloser : closer.kind = .rightBrace) (harrow : ArrowFree ms)
    (h : ∀ n, ms.length ≤ n → ∀ rest, Lists .rightBrace (withLevels n).objectMember
      (ms ++ closer :: rest) members (closer :: rest)) :
    ReadsOperand (opener :: (ms ++ [closer])) (.object members) := by
  refine enclosed_operand (hopener ▸ (by decide)) (by simp [hcloser]) harrow fun n hn rest =>
    .look fun c hc => ?_
  rw [hc.kind, markAt_zero, hopener]
  exact (require_takes hopener).bind ((commaList_takes (h n hn rest)).bind
    ((require_takes hcloser).bind .pure))

theorem emptyObject_operand (hopener : opener.kind = .leftBrace)
    (hcloser : closer.kind = .rightBrace) : ReadsOperand [opener, closer] (.object []) :=
  object_operand hopener hcloser arrowFree_nil fun _ _ _ => .nil hcloser

theorem members_operand {members : List ObjectMember} (hopener : opener.kind = .leftBrace)
    (hcloser : closer.kind = .rightBrace) (h : Joined .comma ReadsEntry ms members) :
    ReadsOperand (opener :: (ms ++ [closer])) (.object members) :=
  object_operand hopener hcloser (h.arrowFree (by decide) fun _ _ _ h => h.arrowFree) fun n hn _ =>
    Listed.lists (Joined.listed (h.imp fun _ _ hns hmember => hmember.part n (Nat.le_trans hns hn)))
      hcloser (by decide)

/-- The statement `const w = e;`. -/
theorem constant_readsItem {w : String} {equals semicolon : Mark} (hw : w ≠ "enum")
    (hequals : equals.kind = .equals) (h : ReadsExpr ms e) (hn : ms.length ≤ n)
    (hsemicolon : semicolon.kind = .semicolon) :
    ReadsItem (withLevels n) (.name "const" :: .name w :: equals :: (ms ++ [semicolon]))
      (.variableStatement ⟨false, [⟨w, some e⟩]⟩) := by
  have hword : Token.Kind.word ∉ [.endOfFile, .semicolon] := by decide
  refine ⟨fun rest => hword, fun rest => ?_⟩
  have hends : semicolon.kind ∈ exprEnds := by simp [hsemicolon, exprEnds]
  have hbang : equals.kind ≠ .bang := by simp [hequals]
  have hcolon : (markAt (equals :: (ms ++ semicolon :: rest)) 0).kind ≠ .colon := by simp [hequals]
  have hcomma : (markAt (semicolon :: rest) 0).kind ≠ .comma := by simp [hsemicolon]
  have hbinding : Takes (withLevels n).binding
      (.name w :: equals :: (ms ++ semicolon :: rest)) ⟨w, some e⟩ (semicolon :: rest) := by
    have hname : Takes (bindingName "binding name") (.name w :: equals ::
        (ms ++ semicolon :: rest)) w (equals :: (ms ++ semicolon :: rest)) := by
      refine .look fun c hc => ?_
      rw [hc.kind]
      exact takeText_takes
    exact hname.bind ((takeKind_other hbang).bind ((after_none hcolon).bind
      ((after_takes hequals (h.takes n hn semicolon rest hends)).bind .pure)))
  have hstatement : Takes ((withLevels n).variableStatement {})
      (.name "const" :: .name w :: equals :: (ms ++ semicolon :: rest))
      ⟨false, [⟨w, some e⟩]⟩ rest :=
    advance_takes.bind ((separated_takes (.one hbinding hcomma)).bind
      ((takeKind_takes hsemicolon).bind .pure))
  simp only [List.cons_append, List.append_assoc, List.nil_append]
  refine statement_of_plain nofun (isWord_of_notMem (by decide)) (.look fun c hc => .ite_neg ?_
    (.ite_neg ?_ (.ite_neg ?_ (.ite_neg ?_ (.ite_neg ?_ (.ite_pos ?_ (hstatement.bind .pure)))))))
  all_goals simp [hc.seesWord, hc.wordAt, hc.seesAnyWord, hc.kindAhead, Mark.isWord, hw]

end HandlerWeave.Source
