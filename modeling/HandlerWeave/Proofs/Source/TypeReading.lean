import HandlerWeave.Proofs.Source.Rounds
import HandlerWeave.Proofs.Source.WrittenTypes

/-!
The grammar takes the marks of a written type and gives the tree they mean, wherever nothing behind
the type continues it.
-/
namespace HandlerWeave.Source

open Mark Source.Parser Grammar

variable {m colon : Mark} {ms ns rest rest' : List Mark} {t t' : TypeNode} {g : Grammar}
  {kind : Token.Kind} {qualifiers : List String} {w : String} {args : List TypeNode}

theorem nameRound_takes (hm : m.kind = .dot) (v : String) (line : Bool) :
    Takes nameRound (m :: (name v).onLine line :: rest) (some v) rest := by
  refine .look fun c hc => .ite_pos ?_ (advance_takes.bind
    ((word_takes (m := (name v).onLine line) rfl).bind .pure))
  simp [hc.check, hc.kindAhead, hm]

theorem nameRound_none (hrest : (markAt rest 0).kind ≠ .dot) :
    Takes nameRound rest none rest :=
  .look fun c hc => .ite_neg (by simp [hc.check, hrest]) .pure

/-- The words behind the first one, each with a dot in front of it. -/
theorem Joined.names_collects {ws : List String}
    (h : Joined .dot (fun ks v => ∃ line, ks = [(name v).onLine line]) ns ws)
    (hm : m.kind = .dot) (hrest : (markAt rest 0).kind ≠ .dot) :
    Collects nameRound (m :: (ns ++ rest)) ws rest := by
  induction h generalizing m with
  | @one ms v h =>
      obtain ⟨line, rfl⟩ := h
      simp only [List.cons_append, List.nil_append]
      refine .cons (nameRound_takes hm v line) ?_ (.nil (nameRound_none hrest))
      simp only [List.length_cons]
      omega
  | @cons ms ns dot v vs h hdot _ ih =>
      obtain ⟨line, rfl⟩ := h
      simp only [List.cons_append, List.nil_append]
      refine .cons (nameRound_takes hm v line) ?_ (ih hdot)
      simp only [List.length_cons, List.length_append]
      omega

/-- A path is a word, alone or with a dot and more words behind it. -/
theorem IsPath.cases (h : IsPath ms qualifiers w) :
    (∃ line, ms = [(name w).onLine line] ∧ qualifiers = []) ∨
    ∃ v vs line dot ns, ms = (name v).onLine line :: dot :: ns ∧ qualifiers = v :: vs ∧
      dot.kind = .dot ∧
      Joined .dot (fun ks v => ∃ line, ks = [(name v).onLine line]) ns (vs ++ [w]) := by
  obtain ⟨hjoined, -, -, -⟩ := h
  cases qualifiers with
  | nil =>
      cases hjoined with
      | one h =>
          obtain ⟨line, rfl⟩ := h
          exact .inl ⟨line, rfl, rfl⟩
      | cons _ _ hrest => cases hrest
  | cons v vs =>
      rw [List.cons_append] at hjoined
      generalize hws : vs ++ [w] = ws at hjoined
      cases hjoined with
      | one => exact absurd hws (by simp)
      | cons h hm hrest =>
          obtain ⟨line, rfl⟩ := h
          exact .inr ⟨v, vs, line, _, _, rfl, rfl, hm, hws ▸ hrest⟩

theorem qualifiedName_takes (hm : m.kind = .word) (hrest : (markAt rest 0).kind ≠ .dot) :
    Takes qualifiedName (m :: rest) ⟨none, m.text⟩ rest := by
  rw [qualifiedName_eq]
  exact (word_takes hm).bind ((many_takes (.nil (nameRound_none hrest))).bind .pure)

theorem IsPath.takes (h : IsPath ms qualifiers w) (hrest : (markAt rest 0).kind ≠ .dot) :
    Takes qualifiedName (ms ++ rest) ⟨qualifiers.head?, w⟩ rest := by
  obtain ⟨line, rfl, rfl⟩ | ⟨v, vs, line, dot, ns, rfl, rfl, hdot, hns⟩ := h.cases
  · exact qualifiedName_takes (m := (name w).onLine line) rfl hrest
  · rw [qualifiedName_eq]
    refine (word_takes (m := (name v).onLine line) rfl).bind
      ((many_takes (hns.names_collects hdot hrest)).bind ?_)
    rw [List.getLast?_concat]
    exact .pure

/-- Marks of other kinds than the first word of a type goes on with, and words other than `extends`
and, behind `abstract` alone, `new`. -/
structure Phrase.EndsAt (p : Phrase) (m : Mark) : Prop where
  union : m.endsUnion = true
  word : ¬ RunsInto p.marks m

/-- The grammar gives the tree for the marks, with the end of a type behind them. -/
structure Phrase.ReadBy (g : Grammar) (p : Phrase) : Prop where
  begins : ∃ m ms, Begins p.marks m ms
  takes : ∀ rest, p.EndsAt (markAt rest 0) → Takes g.type (p.marks ++ rest) p.type rest

/-- The grammar gives the tree for the marks as a primary type. -/
def Phrase.PrimaryOf (g : Grammar) (p : Phrase) : Prop :=
  ∀ rest, (markAt rest 0).endsName = true → Takes g.primaryType (p.marks ++ rest) p.type rest

variable {p : Phrase}

theorem Begins.kind_ne {all : List Mark} (h : Begins all m ms)
    (hkind : kind ∉ [.word, .string, .number, .minus, .leftParen, .leftBracket, .leftBrace])
    (rest : List Mark) : (markAt (all ++ rest) 0).kind ≠ kind := by
  rw [h.eq]
  exact h.starts.kind_ne hkind

theorem Begins.notMem {all : List Mark} {ends : List Token.Kind} (h : Begins all m ms)
    (hends : ∀ kind ∈ ends,
      kind ∉ [.word, .string, .number, .minus, .leftParen, .leftBracket, .leftBrace])
    (rest : List Mark) : (markAt (all ++ rest) 0).kind ∉ ends :=
  fun hmem => h.kind_ne (hends _ hmem) rest rfl

theorem Phrase.EndsAt.of_endsType (h : m.endsType = true) : p.EndsAt m := by
  simp only [Mark.endsType, Bool.and_eq_true, Bool.not_eq_true'] at h
  refine ⟨h.1.1, ?_⟩
  rintro (hword | ⟨hword, -⟩)
  · simp [h.1.2] at hword
  · simp [h.2] at hword

theorem Phrase.EndsAt.of_mem {kinds : List Token.Kind} (hm : m.kind ∈ kinds)
    (hkinds : ∀ kind ∈ kinds,
      kind ∉ [.dot, .leftParen, .less, .leftBracket, .ampersand, .pipe, .word]) : p.EndsAt m :=
  .of_endsType (endsType_of_mem hm hkinds)

theorem Phrase.ReadBy.part {ends : List Token.Kind} (h : p.ReadBy g)
    (hends : ∀ kind ∈ ends,
      kind ∉ [.word, .string, .number, .minus, .leftParen, .leftBracket, .leftBrace] ∧
      kind ∉ [.dot, .leftParen, .less, .leftBracket, .ampersand, .pipe, .word]) :
    ReadsPart g.type ends p.marks p.type := by
  obtain ⟨⟨m, ms, hbegins⟩, htakes⟩ := h
  exact ⟨hbegins.notMem fun kind hkind => (hends kind hkind).1,
    fun _ _ hr => htakes _ (.of_mem hr fun kind hkind => (hends kind hkind).2)⟩

theorem typeArgs_takes (opener : MarkOf .less) (closer : MarkOf .greater)
    (h : Listed (ReadsPart g.type [.comma, .greater]) ns args) :
    Takes g.typeArgs (opener.1 :: (ns ++ closer.1 :: rest)) args rest :=
  (require_takes opener.2).bind ((commaList_takes (h.lists closer.2 (by decide))).bind
    ((require_takes closer.2).bind .pure))

theorem typeArgsIfAny_none (hrest : (markAt rest 0).kind ≠ .less) :
    Takes g.typeArgsIfAny rest [] rest :=
  .look fun c hc => .ite_neg (by simp [hc.check, hrest]) .pure

theorem typeArgsIfAny_takes (hm : m.kind = .less) (h : Takes g.typeArgs (m :: ms) args rest) :
    Takes g.typeArgsIfAny (m :: ms) args rest :=
  .look fun c hc => .ite_pos (by simp [hc.check, hm]) h

theorem namedType_takes (hw : m.text ∉ ["true", "false", "typeof"])
    (hparen : (markAt ms 0).kind ≠ .leftParen)
    (h : ∀ start : Cursor, start.Shows (m :: ms) → Takes (match Keyword.ofText? m.text with
      | some keyword =>
        if start.kindAhead 1 == .dot then g.referenceType
        else do
          advance
          return .keyword keyword
      | none => g.referenceType) (m :: ms) t rest) :
    Takes g.namedType (m :: ms) t rest := by
  simp only [List.mem_cons, List.not_mem_nil, or_false, not_or] at hw
  refine .look fun start hstart => .ite_neg ?_ (.ite_neg ?_ (.ite_neg ?_ ?_))
  · simp [hstart.seesAnyWord, Mark.isWord, hw]
  · simp [hstart.seesWord, Mark.isWord, hw]
  · simp [hstart.kindAhead, hparen]
  · have := h start hstart
    rw [hstart.text]
    exact this

theorem primaryType_word (h : Takes g.namedType (m :: ms) t rest) (hm : m.kind = .word) :
    Takes g.primaryType (m :: ms) t rest := by
  refine .look fun start hstart => ?_
  rw [hstart.kind, markAt_zero, hm]
  exact h

theorem takeString_unquotes : Takes takeString (m :: ms) (Text.unquote m.text) ms :=
  takeText_takes.bind .pure

theorem takeString_takes (line : Bool) (value : String) :
    Takes takeString (⟨.string, Text.quote value, line⟩ :: ms) value ms := by
  have htext : Takes takeString (⟨.string, Text.quote value, line⟩ :: ms)
      (Text.unquote (Text.quote value)) ms := takeString_unquotes
  rwa [unquote_quote] at htext

theorem keyword_takes (word : Keyword) (line : Bool) (hrest : (markAt rest 0).endsName = true) :
    Takes g.primaryType ((name word.text).onLine line :: rest) (.keyword word) rest := by
  have hdot := kind_of_endsName hrest .dot (by decide)
  have hkeyword : Keyword.ofText? word.text = some word := by cases word <;> decide
  have hspecial : word.text ∉ ["true", "false", "typeof"] := by cases word <;> decide
  refine primaryType_word (namedType_takes hspecial
    (kind_of_endsName hrest _ (by decide)) fun c hc => ?_) rfl
  rw [onLine_text, name_text, hkeyword]
  exact .ite_neg (by simp [hc.kindAhead, hdot]) (advance_takes.bind .pure)

theorem bool_takes (value line : Bool) :
    Takes g.primaryType ((name (if value then "true" else "false")).onLine line :: rest)
      (.literal (.bool value)) rest := by
  refine primaryType_word (.look fun c hc => .ite_pos ?_ (advance_takes.bind ?_)) rfl
  · cases value <;> simp [hc.seesAnyWord, Mark.isWord]
  · have hword : c.seesWord "true" = value := by
      rw [hc.seesWord]
      cases value <;> rfl
    rw [hword]
    exact .pure

theorem string_takes (m : MarkOf .string) :
    Takes g.primaryType (m.1 :: rest) (.literal (.string (Text.unquote m.1.text))) rest := by
  refine .look fun start hstart => ?_
  rw [hstart.kind, markAt_zero, m.2]
  exact takeString_unquotes.bind .pure

theorem number_takes (m : MarkOf .number) :
    Takes g.primaryType (m.1 :: rest) (.literal (.number m.1.text)) rest := by
  refine .look fun start hstart => ?_
  rw [hstart.kind, markAt_zero, m.2]
  exact takeText_takes.bind .pure

theorem negative_takes (minus : MarkOf .minus) (m : MarkOf .number) :
    Takes g.primaryType (minus.1 :: m.1 :: rest) (.literal (.number ("-" ++ m.1.text))) rest := by
  refine .look fun start hstart => ?_
  rw [hstart.kind, markAt_zero, minus.2]
  refine .ite_pos ?_ (advance_takes.bind (takeText_takes.bind .pure))
  simp [hstart.kindAhead, m.2]

/-- A path is read as a reference, whatever arguments it has. -/
theorem IsPath.primary (h : IsPath ms qualifiers w) (hparen : (markAt rest 0).kind ≠ .leftParen)
    (hdot : (markAt rest 0).kind ≠ .dot) (hargs : Takes g.typeArgsIfAny rest args rest') :
    Takes g.primaryType (ms ++ rest) (.reference ⟨qualifiers.head?, w⟩ args) rest' := by
  have href : Takes g.referenceType (ms ++ rest) (.reference ⟨qualifiers.head?, w⟩ args) rest' :=
    (h.takes hdot).bind (hargs.bind .pure)
  have hspecial : ∀ v ∈ (qualifiers ++ [w]).head?, v ∉ ["true", "false", "typeof"] := by
    intro v hv hmem
    have hsubset : ["true", "false", "typeof"] ⊆ "true" :: "false" :: reservedNames := by decide
    exact h.first v hv (hsubset hmem)
  obtain ⟨line, rfl, rfl⟩ | ⟨v, vs, line, dot, ns, rfl, rfl, hkind, -⟩ := h.cases
  · refine primaryType_word (namedType_takes (hspecial w rfl) hparen fun c hc => ?_) rfl
    rw [onLine_text, name_text, h.keyword rfl]
    exact href
  · refine primaryType_word (namedType_takes (hspecial v rfl) ?_ fun c hc => ?_) rfl
    · simp [hkind]
    · cases Keyword.ofText? ((name v).onLine line).text with
      | none => exact href
      | some keyword => exact .ite_pos (by simp [hc.kindAhead, hkind]) href

theorem parenthesized_takes (opener : MarkOf .leftParen) (closer : MarkOf .rightParen)
    (h : p.ReadBy g) :
    Takes g.primaryType (opener.1 :: (p.marks ++ closer.1 :: rest)) (.parenthesized p.type)
      rest := by
  have hends : p.EndsAt (markAt (closer.1 :: rest) 0) :=
    .of_mem (List.mem_singleton.2 closer.2) (by decide)
  refine .look fun start hstart => ?_
  rw [hstart.kind, markAt_zero, opener.2]
  exact advance_takes.bind ((h.takes _ hends).bind ((require_takes closer.2).bind .pure))

theorem takeKind_someMark (mark : Option (MarkOf kind)) (hrest : (markAt rest 0).kind ≠ kind) :
    Takes (takeKind kind) (someMark mark ++ rest) mark.isSome rest := by
  cases mark with
  | none => exact takeKind_none hrest
  | some m => exact takeKind_takes m.2

theorem someMark_kind (mark : Option (MarkOf kind)) (rest : List Mark) :
    (markAt (someMark mark ++ rest) 0).kind = kind ∨
      markAt (someMark mark ++ rest) 0 = markAt rest 0 := by
  cases mark with
  | none => exact .inr rfl
  | some m => exact .inl m.2

/-- A label, if there is one, and what follows. -/
def afterLabel {α : Type} (tail : Parser α) : Parser α := do
  let c ← get
  if c.check .word && c.kindAhead 1 == .colon then
    advance
    advance
  else if c.check .word && c.kindAhead 1 == .question && c.kindAhead 2 == .colon then
    advance
    advance
    advance
  tail

theorem tupleElement_eq (g : Grammar) : g.tupleElement = (do
    let _ ← takeKind .ellipsis
    afterLabel do
      let element ← g.type
      let _ ← takeKind .question
      return element) := by rfl

section

variable {α : Type} {tail : Parser α} {a : α}

theorem Label.takes (l : Label) (h : Takes tail ns a rest) :
    Takes (afterLabel tail) (l.marks ++ ns) a rest := by
  obtain ⟨word, optional, colon⟩ := l
  cases optional with
  | none =>
      exact .look fun c hc => .ite_pos
        (by simp [hc.check, hc.kindAhead, Label.marks, someMark, word.2, colon.2])
        (advance_takes.bind (advance_takes.bind h))
  | some question =>
      refine .look fun c hc => .ite_neg ?_ (.ite_pos ?_
        (advance_takes.bind (advance_takes.bind (advance_takes.bind h))))
      · simp [hc.kindAhead, Label.marks, someMark, question.2]
      · simp [hc.check, hc.kindAhead, Label.marks, someMark, word.2, question.2, colon.2]

/-- A word with no colon behind it, nor a question mark and a colon, is no label. -/
theorem afterLabel_none (hcolon : (markAt ms 0).kind = .word → (markAt ms 1).kind ≠ .colon)
    (hquestion : (markAt ms 0).kind = .word → (markAt ms 1).kind = .question →
      (markAt ms 2).kind ≠ .colon) (h : Takes tail ms a rest) :
    Takes (afterLabel tail) ms a rest := by
  refine .look fun c hc => .ite_neg ?_ (.ite_neg ?_ h)
  · rw [hc.check, hc.kindAhead, Bool.and_eq_true, beq_iff_eq, beq_iff_eq]
    exact fun ⟨hword, hnext⟩ => hcolon hword hnext
  · simp only [hc.check, hc.kindAhead, Bool.and_eq_true, beq_iff_eq]
    exact fun ⟨⟨hword, hnext⟩, hlast⟩ => hquestion hword hnext hlast

/-- No type that starts with a word is a label, with what may stand behind it in a tuple. -/
theorem Begins.afterLabel {all : List Mark} (hbegins : Begins all m ns)
    (hms : (markAt ms 0).kind ∈ [.question, .comma, .rightBracket])
    (hnext : (markAt ms 0).kind = .question → (markAt ms 1).kind ≠ .colon)
    (h : Takes tail (all ++ ms) a rest) : Takes (afterLabel tail) (all ++ ms) a rest := by
  rw [hbegins.eq, List.cons_append] at h ⊢
  cases ns with
  | nil =>
      refine afterLabel_none (fun _ hcolon => ?_) (fun _ => hnext) h
      rw [markAt_one, List.nil_append] at hcolon
      rw [hcolon] at hms
      exact absurd hms (by decide)
  | cons n ns =>
      have hsequel : m.kind = .word → n.kind ∈ nameSequels := fun hword =>
        (hbegins.next hword).resolve_left (List.cons_ne_nil _ _)
      refine afterLabel_none (fun hword hcolon => ?_) (fun hword hquestion => ?_) h
      · have hmem := hsequel hword
        rw [show n.kind = .colon from hcolon] at hmem
        exact absurd hmem (by decide)
      · have hmem := hsequel hword
        rw [show n.kind = .question from hquestion] at hmem
        exact absurd hmem (by decide)

end

theorem Element.takes {e : Element} (h : e.phrase.ReadBy g)
    (hm : m.kind ∈ [.comma, .rightBracket]) :
    Takes g.tupleElement (e.marks ++ m :: rest) e.phrase.type (m :: rest) := by
  obtain ⟨dots, label, p, optional⟩ := e
  obtain ⟨first, ms, hbegins⟩ := h.begins
  have hne : ∀ kind ∉ [Token.Kind.comma, .rightBracket], (markAt (m :: rest) 0).kind ≠ kind := by
    rintro kind hkind rfl
    exact hkind hm
  have hnext : (markAt (someMark optional ++ m :: rest) 0).kind ∈
      [.question, .comma, .rightBracket] := by
    obtain hkind | hat := someMark_kind optional (m :: rest)
    · rw [hkind]
      decide
    · rw [hat]
      exact List.mem_cons_of_mem _ hm
  have hends : p.EndsAt (markAt (someMark optional ++ m :: rest) 0) :=
    .of_mem hnext (by decide)
  have htype : Takes (do
      let element ← g.type
      let _ ← takeKind .question
      return element) (p.marks ++ (someMark optional ++ m :: rest)) p.type (m :: rest) :=
    (h.takes _ hends).bind ((takeKind_someMark optional (hne _ (by decide))).bind .pure)
  have hdots : (markAt (label.elim [] Label.marks ++ (p.marks ++ (someMark optional ++ m :: rest)))
      0).kind ≠ .ellipsis := by
    cases label with
    | none => exact hbegins.kind_ne (by decide) _
    | some l => simp [Label.marks, l.name.2]
  simp only [Element.marks, List.append_assoc]
  rw [tupleElement_eq]
  refine (takeKind_someMark dots hdots).bind ?_
  cases label with
  | some l => exact l.takes htype
  | none =>
      refine hbegins.afterLabel hnext (fun hquestion => ?_) htype
      cases optional with
      | none => exact absurd hquestion (hne _ (by decide))
      | some question => exact hne _ (by decide)

theorem Element.starts {e : Element} (h : ∃ m ms, Begins e.phrase.marks m ms) (rest : List Mark) :
    (markAt (e.marks ++ rest) 0).kind ∉ [.comma, .rightBracket] := by
  obtain ⟨dots, label, p, optional⟩ := e
  obtain ⟨first, ms, hbegins⟩ := h
  simp only [Element.marks, List.append_assoc]
  cases dots with
  | some m => simp [someMark, m.2]
  | none =>
      cases label with
      | some l => simp [someMark, Label.marks, l.name.2]
      | none =>
          exact hbegins.notMem (by decide) _

theorem Element.part {e : Element} (h : e.phrase.ReadBy g) :
    ReadsPart g.tupleElement [.comma, .rightBracket] e.marks e.phrase.type :=
  ⟨Element.starts h.begins, fun _ _ hm => Element.takes h hm⟩

theorem Element.length_le (e : Element) : e.phrase.marks.length ≤ e.marks.length := by
  simp only [Element.marks, List.length_append]
  omega

theorem tuple_takes (opener : MarkOf .leftBracket) (closer : MarkOf .rightBracket)
    {elements : List TypeNode}
    (h : Listed (ReadsPart g.tupleElement [.comma, .rightBracket]) ms elements) :
    Takes g.primaryType (opener.1 :: (ms ++ closer.1 :: rest)) (.tuple elements) rest := by
  refine .look fun start hstart => ?_
  rw [hstart.kind, markAt_zero, opener.2]
  exact (require_takes opener.2).bind ((commaList_takes (h.lists closer.2 (by decide))).bind
    ((require_takes closer.2).bind .pure))

theorem memberName_takes {what : String} (hm : m.kind ∈ [.word, .string, .number]) :
    Takes (memberName what) (m :: ms) (nameText m) ms := by
  refine .look fun c hc => ?_
  rw [hc.kind, markAt_zero, nameText]
  cases hkind : m.kind with
  | word | number => exact takeText_takes
  | string => exact takeString_unquotes
  | _ => exact absurd (hkind ▸ hm) (by decide)

theorem typeMember_end (hm : (markAt ms 0).kind = .rightBrace) : Takes g.typeMember ms none ms :=
  .look fun c hc => .ite_pos (by simp [hc.check, hm]) .pure

theorem typeMember_separator (hm : m.kind ∈ [.semicolon, .comma]) :
    Takes g.typeMember (m :: rest) (some none) rest := by
  simp only [List.mem_cons, List.not_mem_nil, or_false] at hm
  refine .look fun c hc => .ite_neg ?_ (.ite_neg ?_ (.ite_pos ?_ (advance_takes.bind .pure)))
  all_goals
    rw [hc.check]
    obtain hm | hm := hm <;> simp [hm, hc.check]

/-- Behind a name stands what neither a modifier nor a method has there. -/
theorem typeMember_named {optional : Bool} {type : Option TypeNode}
    (hm : m.kind ∈ [.word, .string, .number])
    (hnext : (markAt ms 0).kind ∈ [.colon, .question]) (hcolon : colon.kind = .colon)
    (hoptional : Takes (takeKind .question) ms optional (colon :: rest'))
    (htype : Takes (after .colon g.type) (colon :: rest') type rest) :
    Takes g.typeMember (m :: ms) (some (some (.property (nameText m) optional type))) rest := by
  have hcheck : ∀ c : Cursor, c.Shows (m :: ms) → ∀ kind ∉ [Token.Kind.word, .string, .number],
      c.check kind = false := by
    intro c hc kind hne
    rw [hc.check, markAt_zero, beq_eq_false_iff_ne]
    rintro rfl
    exact hne hm
  have hstart : ∀ c : Cursor, c.Shows (m :: ms) → c.nameStartsAt 1 = false := by
    intro c hc
    rw [Cursor.nameStartsAt, hc.kindAhead, markAt_one]
    revert hnext
    cases (markAt ms 0).kind <;> decide
  have hsignature : ∀ c : Cursor, c.Shows (m :: ms) →
      (c.kindAhead 1 == .leftParen || c.kindAhead 1 == .less) = false := by
    intro c hc
    rw [hc.kindAhead, markAt_one]
    revert hnext
    cases (markAt ms 0).kind <;> decide
  refine .look fun c hc => .ite_neg ?_ (.ite_neg ?_ (.ite_neg ?_ (.ite_neg ?_
    (.look fun c hc => .ite_neg ?_ (.ite_neg ?_ (.ite_neg ?_ (.look fun c' hc' => .ite_neg ?_
      ((memberName_takes hm).bind (hoptional.bind (.look fun d hd => .ite_neg ?_
        (htype.bind .pure)))))))))))
  · simp [hcheck c hc]
  · simp [hcheck c hc]
  · simp [hcheck c hc]
  · simp [hstart c hc]
  · simp [hcheck c hc]
  · simp [hsignature c hc]
  · simp [hstart c hc]
  · simp [atIndexSignature, hcheck c' hc']
  · simp [hstart c hc, hd.check, hcolon]

theorem typeMember_index {signature : IndexSignature}
    (hm : m.kind = .leftBracket) (hword : (markAt ms 0).kind = .word)
    (hcolon : (markAt ms 1).kind = .colon)
    (h : Takes g.indexSignature (m :: ms) signature rest) :
    Takes g.typeMember (m :: ms)
      (some (some (.index signature.keyName signature.keyType signature.type))) rest := by
  have hno : ∀ w, m.isWord w = false := fun w => by simp [Mark.isWord, hm]
  refine .look fun c hc => .ite_neg ?_ (.ite_neg ?_ (.ite_neg ?_ (.ite_neg ?_
    (.look fun c hc => .ite_neg ?_ (.ite_neg ?_ (.ite_neg ?_ (.look fun c' hc' => .ite_pos ?_
      (h.bind .pure))))))))
  · simp [hc.check, hm]
  · simp [hc.check, hm]
  · simp [hc.check, hm]
  · simp [hc.seesWord, hno]
  · simp [hc.check, hm]
  · simp [hc.seesWord, hno]
  · simp [hc.seesAnyWord, hno]
  · simp [atIndexSignature, hc'.check, hc'.kindAhead, hm, hword, hcolon]

/-- Behind the name of a property stands its colon or the mark that makes it optional. -/
theorem someMark_next (optional : Option (MarkOf .question)) (colon : MarkOf .colon)
    (ms : List Mark) :
    (markAt (someMark optional ++ colon.1 :: ms) 0).kind ∈ [Token.Kind.colon, .question] := by
  obtain hkind | hat := someMark_kind optional (colon.1 :: ms)
  · simp [hkind]
  · simp [hat, colon.2]

theorem MemberPhrase.takes {member : MemberPhrase} (h : ∀ p ∈ member.phrases, p.ReadBy g)
    (hrest : member.value.EndsAt (markAt rest 0)) :
    Takes g.typeMember (member.marks ++ rest) (some (some member.member)) rest := by
  cases member with
  | property name hname optional colon phrase =>
      have hphrase : phrase.ReadBy g := h _ List.mem_cons_self
      have hcolon : (markAt (colon.1 :: (phrase.marks ++ rest)) 0).kind ≠ .question := by
        simp [colon.2]
      simp only [MemberPhrase.marks, List.cons_append, List.append_assoc]
      exact typeMember_named hname (someMark_next optional colon _) colon.2
        (takeKind_someMark optional hcolon) (after_takes colon.2 (hphrase.takes _ hrest))
  | index opener key keyColon keyPhrase closer colon phrase =>
      have hkey : keyPhrase.ReadBy g := h _ List.mem_cons_self
      have hphrase : phrase.ReadBy g := h _ (List.mem_cons_of_mem _ List.mem_cons_self)
      have hcloser : keyPhrase.EndsAt (markAt (closer.1 :: colon.1 :: (phrase.marks ++ rest)) 0) :=
        .of_mem (List.mem_singleton.2 closer.2) (by decide)
      simp only [MemberPhrase.marks, List.cons_append, List.append_assoc]
      have hsignature : Takes g.indexSignature (opener.1 :: key.1 :: keyColon.1 ::
          (keyPhrase.marks ++ closer.1 :: colon.1 :: (phrase.marks ++ rest)))
          ⟨key.1.text, keyPhrase.type, phrase.type⟩ rest :=
        (require_takes opener.2).bind ((word_takes key.2).bind ((require_takes keyColon.2).bind
          ((hkey.takes _ hcloser).bind ((require_takes closer.2).bind ((require_takes colon.2).bind
            ((hphrase.takes _ hrest).bind .pure))))))
      refine typeMember_index opener.2 ?_ ?_ hsignature
      · exact key.2
      · exact keyColon.2

/-- The members start with a name, a bracket or a separator. -/
theorem Members.head {members : List MemberPhrase} (h : Members ms members) :
    ∀ m ∈ ms.head?, m.kind ∈ [.word, .string, .number, .leftBracket, .semicolon, .comma] := by
  cases h with
  | nil => exact fun _ hm => absurd hm (by simp)
  | separator hm =>
      rintro _ ⟨⟩
      exact List.mem_append_right [.word, .string, .number, .leftBracket] hm
  | @cons member _ _ _ _ =>
      cases member with
      | property name hname =>
          rintro _ ⟨⟩
          exact List.mem_append_left [.leftBracket, .semicolon, .comma] hname
      | index opener =>
          rintro _ ⟨⟩
          rw [opener.2]
          decide

/-- What stands behind a member ends its type. -/
theorem Members.endsAt {member : MemberPhrase} {members : List MemberPhrase}
    (h : Members ms members) (hend : ∀ m ∈ ms.head?, m.kind ∈ [.semicolon, .comma] ∨
      m.line = true ∧ ¬ RunsInto member.value.marks m)
    (hrest : (markAt rest 0).kind = .rightBrace) :
    member.value.EndsAt (markAt (ms ++ rest) 0) := by
  cases ms with
  | nil => exact .of_mem (List.mem_singleton.2 hrest) (by decide)
  | cons m ms =>
      rw [List.cons_append, markAt_zero]
      obtain hm | ⟨hline, hruns⟩ := hend m rfl
      · exact .of_mem hm (by decide)
      · refine ⟨?_, hruns⟩
        have hhead := h.head m rfl
        simp only [List.mem_cons, List.not_mem_nil, or_false] at hhead
        obtain hm | hm | hm | hm | hm | hm := hhead <;>
          simp [Mark.endsUnion, Mark.endsPart, Mark.endsOperand, Mark.endsName, hline, hm]

theorem MemberPhrase.length_pos (member : MemberPhrase) : 0 < member.marks.length := by
  cases member <;> exact Nat.succ_pos _

theorem Members.collects {members : List MemberPhrase} (h : Members ms members)
    (hall : ∀ m ∈ members, ∀ p ∈ m.phrases, p.ReadBy g)
    (hrest : (markAt rest 0).kind = .rightBrace) :
    ∃ results, Collects g.typeMember (ms ++ rest) results rest ∧
      results.filterMap id = members.map MemberPhrase.member := by
  induction h with
  | nil => exact ⟨[], .nil (typeMember_end hrest), rfl⟩
  | separator hm _ ih =>
      obtain ⟨results, hresults, hmembers⟩ := ih hall
      exact ⟨none :: results, .cons (typeMember_separator hm) (Nat.lt_succ_self _) hresults,
        hmembers⟩
  | @cons member ms members hend h ih =>
      obtain ⟨hmember, hall⟩ := List.forall_mem_cons.1 hall
      obtain ⟨results, hresults, hmembers⟩ := ih hall
      refine ⟨some member.member :: results, ?_, congrArg (member.member :: ·) hmembers⟩
      rw [List.append_assoc]
      refine .cons (MemberPhrase.takes hmember (h.endsAt hend hrest)) ?_ hresults
      have hpos := member.length_pos
      simp only [List.length_append]
      omega

theorem typeMembers_takes {members : List MemberPhrase} (opener : MarkOf .leftBrace)
    (closer : MarkOf .rightBrace) (h : Members ms members)
    (hall : ∀ m ∈ members, ∀ p ∈ m.phrases, p.ReadBy g) :
    Takes g.typeMembers (opener.1 :: (ms ++ closer.1 :: rest))
      (members.map MemberPhrase.member) rest := by
  obtain ⟨results, hresults, hmembers⟩ := h.collects hall
    (show (markAt (closer.1 :: rest) 0).kind = .rightBrace from closer.2)
  refine (require_takes opener.2).bind ((many_takes hresults).bind
    ((require_takes closer.2).bind ?_))
  rw [hmembers]
  exact .pure

/-- A shape starts with a name and no bracket behind it, with an index signature, with a separator
or with its end. -/
theorem startsMappedType_eq_false {c : Cursor} (hc : c.Shows ms)
    (hplus : (markAt ms 1).kind ≠ .plus) (hminus : (markAt ms 1).kind ≠ .minus)
    (hbracket : (markAt ms 1).kind = .leftBracket → (markAt ms 3).kind ≠ .word)
    (hword : (markAt ms 1).kind = .word → (markAt ms 2).kind ≠ .leftBracket) :
    startsMappedType c = false := by
  have hreadonly : (markAt ms 1).isWord "readonly" = true → (markAt ms 2).kind ≠ .leftBracket := by
    intro h
    simp only [Mark.isWord, Bool.and_eq_true, beq_iff_eq] at h
    exact hword h.1
  have hin : (markAt ms 1).kind = .leftBracket → (markAt ms 3).isWord "in" = false := by
    intro h
    simp [Mark.isWord, hbracket h]
  rw [startsMappedType]
  simp only [hc.kindAhead, hc.wordAt, hplus, hminus, beq_iff_eq, or_self, if_false, Bool.or_eq_true]
  split
  · next h => simp [hreadonly h]
  · by_cases h : (markAt ms 1).kind = .leftBracket
    · simp [hin h]
    · simp [h]

theorem Members.startsMappedType {members : List MemberPhrase} {c : Cursor} {opener : Mark}
    {closer : MarkOf .rightBrace} (h : Members ms members)
    (hc : c.Shows (opener :: (ms ++ closer.1 :: rest))) : startsMappedType c = false := by
  have hplain : (markAt (ms ++ closer.1 :: rest) 0).kind ∉ [.leftBracket, .word, .plus, .minus] →
      Grammar.startsMappedType c = false := by
    intro hkind
    simp only [List.mem_cons, List.not_mem_nil, or_false, not_or] at hkind
    refine startsMappedType_eq_false hc ?_ ?_ ?_ ?_ <;> simp [hkind]
  cases h with
  | nil => exact hplain (by rw [List.nil_append, markAt_zero, closer.2]; decide)
  | separator hm =>
      refine hplain fun hmem => ?_
      rw [List.cons_append, markAt_zero] at hmem
      simp only [List.mem_cons, List.not_mem_nil, or_false] at hm
      obtain hm | hm := hm <;>
      · rw [hm] at hmem
        exact absurd hmem (by decide)
  | @cons member ms _ _ _ =>
      cases member with
      | property name hname optional colon phrase =>
          simp only [MemberPhrase.marks, List.cons_append, List.append_assoc] at hc
          have hnext := someMark_next optional colon (phrase.marks ++ (ms ++ closer.1 :: rest))
          simp only [List.mem_cons, List.not_mem_nil, or_false] at hname
          refine startsMappedType_eq_false hc ?_ ?_ ?_ fun _ hbracket => ?_
          · obtain hname | hname | hname := hname <;> simp [hname]
          · obtain hname | hname | hname := hname <;> simp [hname]
          · obtain hname | hname | hname := hname <;> simp [hname]
          · rw [markAt_two, markAt_one] at hbracket
            rw [hbracket] at hnext
            exact absurd hnext (by decide)
      | index opener key keyColon =>
          simp only [MemberPhrase.marks, List.cons_append] at hc
          refine startsMappedType_eq_false hc ?_ ?_ (fun _ => ?_) fun hword => ?_
          · simp [opener.2]
          · simp [opener.2]
          · simp [keyColon.2, markAt]
          · simp [opener.2] at hword

theorem shape_takes {members : List MemberPhrase} (opener : MarkOf .leftBrace)
    (closer : MarkOf .rightBrace) (h : Members ms members)
    (hall : ∀ m ∈ members, ∀ p ∈ m.phrases, p.ReadBy g) :
    Takes g.primaryType (opener.1 :: (ms ++ closer.1 :: rest))
      (.shape (members.map MemberPhrase.member)) rest := by
  refine .look fun start hstart => ?_
  rw [hstart.kind, markAt_zero, opener.2]
  exact .ite_neg (by rw [h.startsMappedType hstart]; exact Bool.false_ne_true)
    ((typeMembers_takes opener closer h hall).bind .pure)

/-- Wherever the grammar has a level for each of the marks, it gives the tree at this level of
binding. -/
def Phrase.ReadAt (p : Phrase) : Level → Prop
  | .operand => ∀ n rest t' rest', p.marks.length ≤ n + 1 → (markAt rest 0).endsName = true →
    (∀ start, Iterates ((withLevels n).typeSuffix start) p.type rest t' rest') →
    Takes (withLevels n).operandTypeRule (p.marks ++ rest) t' rest'
  | .part => ∀ n rest, p.marks.length ≤ n + 1 → (markAt rest 0).endsPart = true →
    Takes (withLevels n).intersectionType (p.marks ++ rest) p.type rest
  | .whole => ∀ n rest, p.marks.length ≤ n + 1 → p.EndsAt (markAt rest 0) →
    Takes (withLevels n).typeRule (p.marks ++ rest) p.type rest

namespace Written

variable {n : Nat} {scope : List String} {level : Level}

theorem readBy_of_whole (ha : Written scope level p) (h : p.ReadAt .whole)
    (hn : p.marks.length ≤ n) : p.ReadBy (withLevels n) := by
  refine ⟨ha.begins, fun rest hrest => ?_⟩
  cases n with
  | zero =>
      obtain ⟨m, ms, hbegins⟩ := ha.begins
      rw [hbegins.eq] at hn
      exact absurd hn (by simp)
  | succ n => exact h n rest hn hrest

theorem readAt_of_primary (ha : Written scope level p)
    (h : ∀ {n}, p.marks.length ≤ n + 1 → p.PrimaryOf (withLevels n)) : p.ReadAt .operand := by
  intro n rest t' rest' hn hrest hsuffix
  obtain ⟨m, ms, hbegins⟩ := ha.begins
  have hprimary := h hn rest hrest
  rw [hbegins.eq, List.cons_append] at hprimary ⊢
  exact operandTypeRule_takes hbegins.starts hprimary hsuffix

theorem readAt_part (ha : Written scope level p) (h : p.ReadAt .operand) :
    p.ReadAt .part := by
  intro n rest hn hrest
  obtain ⟨m, ms, hbegins⟩ := ha.begins
  have hend := endsOperand_of_endsPart hrest
  have hoperand := h n rest _ _ hn (endsName_of_endsOperand hend)
    fun _ => .stop (typeSuffix_none hend)
  rw [hbegins.eq, List.cons_append] at hoperand ⊢
  refine intersectionType_takes hbegins.starts hoperand ?_
  simp only [Mark.endsPart, Bool.and_eq_true, bne_iff_ne] at hrest
  exact hrest.2

theorem readAt_of_union (ha : Written scope level p)
    (h : ∀ {n rest}, p.marks.length ≤ n + 1 → (markAt rest 0).endsUnion = true →
      Takes (withLevels n).unionType (p.marks ++ rest) p.type rest) : p.ReadAt .whole := by
  intro n rest hn hrest
  obtain ⟨m, ms, hbegins⟩ := ha.begins
  have hunion := h hn hrest.union
  have hextends : (markAt rest 0).isWord "extends" = false :=
    Bool.eq_false_iff.2 fun hword => hrest.word (.inl hword)
  have hruns := hrest.word
  rw [hbegins.eq, List.cons_append] at hunion ⊢
  rw [hbegins.eq] at hruns
  refine typeRule_of_union hbegins.starts (fun habstract => Bool.eq_false_iff.2 fun hnew => ?_)
    hunion hextends
  have hword : m.kind = .word := by
    simp only [Mark.isWord, Bool.and_eq_true, beq_iff_eq] at habstract
    exact habstract.1
  obtain rfl | hnext := hbegins.next hword
  · exact hruns (.inr ⟨hnew, m, rfl, habstract⟩)
  · cases ms with
    | nil => exact absurd hnext (by decide)
    | cons next ms =>
        simp only [List.cons_append, markAt_zero, Mark.isWord, Bool.and_eq_true, beq_iff_eq]
          at hnext hnew
        rw [hnew.1] at hnext
        exact absurd hnext (by decide)

theorem readAt_whole (ha : Written scope level p) (h : p.ReadAt .part) : p.ReadAt .whole := by
  refine ha.readAt_of_union fun {n rest} hn hrest => ?_
  obtain ⟨m, ms, hbegins⟩ := ha.begins
  have hpart := h n rest hn (endsPart_of_endsUnion hrest)
  rw [hbegins.eq, List.cons_append] at hpart ⊢
  refine unionType_takes hbegins.starts hpart ?_
  simp only [Mark.endsUnion, Bool.and_eq_true, bne_iff_ne] at hrest
  exact hrest.2

end Written

/-- Parts between which stands a mark that no type starts with are read at the level of that mark.
-/
theorem Joined.takes_join {parts : List Phrase} {q : Parser TypeNode} {separator : Token.Kind}
    (join : List TypeNode → TypeNode) (hlength : 2 ≤ parts.length)
    (hjoined : Joined separator (fun ks p => ks = p.marks) ms parts)
    (hstart : (markAt (ms ++ rest) 0).kind ≠ separator)
    (hrest : (markAt rest 0).kind ≠ separator)
    (h : ∀ p ∈ parts, p.marks.length ≤ ms.length → ∀ tail,
      (markAt tail 0).kind = separator ∨ tail = rest → Takes q (p.marks ++ tail) p.type tail) :
    Takes (do
      let _ ← takeKind separator
      return joined join (← separated separator q)) (ms ++ rest)
      (join (parts.map Phrase.type)) rest := by
  have hseparates : Separates separator q (ms ++ rest) (parts.map Phrase.type) rest :=
    Joined.separates (hjoined.map fun ks p hp hks heq => heq ▸ h p hp (heq ▸ hks)) hrest
  have hjoin : joined join (parts.map Phrase.type) = join (parts.map Phrase.type) := by
    rw [Grammar.joined]
    intro t ht
    rw [← List.length_map (f := Phrase.type), ht] at hlength
    exact absurd hlength (by simp)
  refine (takeKind_none hstart).bind ((separated_takes hseparates).bind ?_)
  rw [hjoin]
  exact .pure

theorem Members.length_le {members : List MemberPhrase} (h : Members ms members)
    {member : MemberPhrase} (hmember : member ∈ members) (hp : p ∈ member.phrases) :
    p.marks.length ≤ ms.length := by
  induction h with
  | nil => cases hmember
  | separator _ _ ih => exact Nat.le_succ_of_le (ih hmember)
  | cons _ _ ih =>
      rw [List.length_append]
      obtain rfl | hmember := List.mem_cons.1 hmember
      · refine Nat.le_add_right_of_le ?_
        cases member with
        | property =>
            obtain rfl := List.mem_singleton.1 hp
            simp only [MemberPhrase.marks, List.length_cons, List.length_append]
            omega
        | index =>
            simp only [MemberPhrase.phrases, List.mem_cons, List.not_mem_nil, or_false] at hp
            simp only [MemberPhrase.marks, List.length_cons, List.length_append]
            obtain rfl | rfl := hp <;> omega
      · exact Nat.le_add_left_of_le (ih hmember)

/-- Every written type is read as the tree it means. -/
theorem Written.readAt {scope : List String} {level : Level} (h : Written scope level p) :
    p.ReadAt level := by
  induction h with
  | keyword word line =>
      have h : Written scope .operand _ := .keyword word line
      exact h.readAt_of_primary fun _ _ hrest => keyword_takes word line hrest
  | bool value line =>
      have h : Written scope .operand _ := .bool value line
      exact h.readAt_of_primary fun _ _ _ => bool_takes value line
  | string m hline =>
      have h : Written scope .operand _ := .string m hline
      exact h.readAt_of_primary fun _ _ _ => string_takes m
  | number m hnumeral =>
      have h : Written scope .operand _ := .number m hnumeral
      exact h.readAt_of_primary fun _ _ _ => number_takes m
  | negative minus m hnumeral =>
      have h : Written scope .operand _ := .negative minus m hnumeral
      exact h.readAt_of_primary fun _ _ _ => negative_takes minus m
  | @reference ms qualifiers w hpath =>
      have h : Written scope .operand _ := .reference hpath
      refine h.readAt_of_primary fun _ rest hrest => ?_
      exact hpath.primary (kind_of_endsName hrest _ (by decide))
        (kind_of_endsName hrest _ (by decide))
        (typeArgsIfAny_none (kind_of_endsName hrest _ (by decide)))
  | @applied ms ns qualifiers w args hpath hscope opener closer hne hargs hall ih =>
      have h : Written scope .operand _ := .applied hpath hscope opener closer hne hargs hall
      refine h.readAt_of_primary fun {n} hn rest _ => ?_
      simp only [List.length_append, List.length_cons] at hn
      have hread : Listed (ReadsPart (withLevels n).type [.comma, .greater]) ns
          (args.map Phrase.type) := by
        refine hargs.map fun ks p hp hks heq => ?_
        subst heq
        exact ((hall p hp).readBy_of_whole (ih p hp) (by omega)).part (by decide)
      have htypeArgs : Takes (withLevels n).typeArgs (opener.1 :: (ns ++ closer.1 :: rest))
          (args.map Phrase.type) rest := typeArgs_takes opener closer hread
      simp only [List.append_assoc, List.cons_append, List.nil_append]
      exact hpath.primary (by simp [opener.2]) (by simp [opener.2])
        (typeArgsIfAny_takes opener.2 htypeArgs)
  | array h opener hline closer ih =>
      intro n rest t' rest' hn hrest hsuffix
      simp only [List.length_append, List.length_cons] at hn
      simp only [List.append_assoc, List.cons_append, List.nil_append]
      refine ih n _ t' rest' (by omega) (by simp [endsName, opener.2]) fun start => ?_
      exact .step (typeSuffix_array opener.2 hline closer.2)
        (Nat.lt_succ_of_lt (Nat.lt_succ_self _)) (hsuffix start)
  | @tuple ms elements opener closer hlist hall ih =>
      have h : Written scope .operand _ := .tuple opener closer hlist hall
      refine h.readAt_of_primary fun {n} hn rest _ => ?_
      simp only [List.length_append, List.length_cons] at hn
      simp only [List.append_assoc, List.cons_append, List.nil_append]
      refine tuple_takes opener closer (hlist.map fun ks e he hks heq => ?_)
      subst heq
      have hlength := e.length_le
      exact Element.part ((hall e he).readBy_of_whole (ih e he) (by omega))
  | @parenthesized inner opener closer hinner ih =>
      have h : Written scope .operand _ := .parenthesized opener closer hinner
      refine h.readAt_of_primary fun {n} hn rest _ => ?_
      simp only [List.length_append, List.length_cons] at hn
      simp only [List.append_assoc, List.cons_append, List.nil_append]
      exact parenthesized_takes opener closer (hinner.readBy_of_whole ih (by omega))
  | @shape ms members opener closer hbody hplain hall ih =>
      have h : Written scope .operand _ := .shape opener closer hbody hplain hall
      refine h.readAt_of_primary fun {n} hn rest _ => ?_
      simp only [List.length_append, List.length_cons] at hn
      simp only [List.append_assoc, List.cons_append, List.nil_append]
      refine shape_takes opener closer hbody fun m hm p hp => ?_
      have hlength := hbody.length_le hm hp
      exact (hall m hm p hp).readBy_of_whole (ih m hm p hp) (by omega)
  | operand h ih => exact h.readAt_part ih
  | @intersection ms parts hlength hjoined hall ih =>
      have h : Written scope .part _ := .intersection hlength hjoined hall
      intro n rest hn hrest
      obtain ⟨m, ns, hbegins⟩ := h.begins
      have hend := endsOperand_of_endsPart hrest
      have hampersand : (markAt rest 0).kind ≠ .ampersand := by
        simp only [Mark.endsPart, Bool.and_eq_true, bne_iff_ne] at hrest
        exact hrest.2
      refine hjoined.takes_join .intersection hlength (hbegins.kind_ne (by decide) rest) hampersand
        fun p hp hms tail htail => ?_
      have hclose : (markAt tail 0).endsOperand = true := by
        obtain hkind | rfl := htail
        · simp [Mark.endsOperand, endsName, hkind]
        · exact hend
      exact ih p hp n tail _ _ (Nat.le_trans hms hn) (endsName_of_endsOperand hclose)
        fun _ => .stop (typeSuffix_none hclose)
  | part h ih => exact h.readAt_whole ih
  | @union ms arms hlength hjoined hall ih =>
      have h : Written scope .whole _ := .union hlength hjoined hall
      refine h.readAt_of_union fun {n rest} hn hrest => ?_
      obtain ⟨m, ns, hbegins⟩ := h.begins
      have hpipe : (markAt rest 0).kind ≠ .pipe := by
        simp only [Mark.endsUnion, Bool.and_eq_true, bne_iff_ne] at hrest
        exact hrest.2
      refine hjoined.takes_join .union hlength (hbegins.kind_ne (by decide) rest) hpipe
        fun p hp hms tail htail => ?_
      refine ih p hp n tail (Nat.le_trans hms hn) ?_
      obtain hkind | rfl := htail
      · simp [endsPart, Mark.endsOperand, endsName, hkind]
      · exact endsPart_of_endsUnion hrest

theorem Written.readBy {scope : List String} {n : Nat} (h : Written scope .whole p)
    (hn : p.marks.length ≤ n) : p.ReadBy (withLevels n) := h.readBy_of_whole h.readAt hn

end HandlerWeave.Source
