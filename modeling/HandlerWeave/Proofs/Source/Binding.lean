import HandlerWeave.Proofs.Source.TypeMarks
import HandlerWeave.Proofs.Source.Takes
import HandlerWeave.Source.Grammar.Types

/-!
How tightly the forms of a type bind. A type is read through one production for each level of
binding, and leaves a level when the mark behind it does not continue the type there.
-/
namespace HandlerWeave.Source

open Mark Source.Parser Grammar

namespace Mark

/-- A type starts here, and with no word that starts a form of its own. -/
structure StartsType (m : Mark) : Prop where
  kind : m.kind ∈ [.word, .string, .number, .minus, .leftParen, .leftBracket, .leftBrace]
  plain : ∀ w ∈ reservedNames, m.isWord w = false

/-- Behind a name this gives it no sequel and no arguments. -/
def endsName (m : Mark) : Bool := !List.contains [.dot, .leftParen, .less] m.kind

def endsOperand (m : Mark) : Bool := m.endsName && (m.kind != .leftBracket || m.line)

def endsPart (m : Mark) : Bool := m.endsOperand && m.kind != .ampersand

def endsUnion (m : Mark) : Bool := m.endsPart && m.kind != .pipe

/-- Behind any type this is no part of it. -/
def endsType (m : Mark) : Bool := m.endsUnion && !m.isWord "extends" && !m.isWord "new"

variable {m : Mark}

theorem endsName_of_endsOperand (h : m.endsOperand = true) : m.endsName = true := by
  simp only [endsOperand, Bool.and_eq_true] at h
  exact h.1

theorem endsOperand_of_endsPart (h : m.endsPart = true) : m.endsOperand = true := by
  simp only [endsPart, Bool.and_eq_true] at h
  exact h.1

theorem endsPart_of_endsUnion (h : m.endsUnion = true) : m.endsPart = true := by
  simp only [endsUnion, Bool.and_eq_true] at h
  exact h.1

theorem kind_of_endsName (h : m.endsName = true) (kind : Token.Kind)
    (hkind : kind ∈ [.dot, .leftParen, .less]) : m.kind ≠ kind := by
  rintro rfl
  simp only [endsName, Bool.not_eq_true', List.contains_eq_mem, decide_eq_false_iff_not] at h
  exact h hkind

theorem endsType_of_mem {kinds : List Token.Kind} (hm : m.kind ∈ kinds) (hkinds : ∀ kind ∈ kinds,
      kind ∉ [.dot, .leftParen, .less, .leftBracket, .ampersand, .pipe, .word]) :
    m.endsType = true := by
  have hkind := hkinds _ hm
  simp only [List.mem_cons, List.not_mem_nil, or_false, not_or] at hkind
  simp [endsType, endsUnion, endsPart, endsOperand, endsName, isWord, hkind]

end Mark

variable {m : Mark} {ms rest rest' : List Mark} {t t' : TypeNode} {g : Grammar} {n : Nat}

theorem Mark.StartsType.kind_ne (hm : m.StartsType) {kind : Token.Kind}
    (hkind : kind ∉ [.word, .string, .number, .minus, .leftParen, .leftBracket, .leftBrace]) :
    m.kind ≠ kind := by
  rintro rfl
  exact hkind hm.kind

theorem Mark.StartsType.any_isWord (hm : m.StartsType) {words : List String}
    (h : ∀ w ∈ words, w ∈ reservedNames) : words.any m.isWord = false :=
  List.any_eq_false.2 fun w hw => by simp [hm.plain w (h w hw)]

/-- A primary type and what is behind it make an operand. -/
theorem operandTypeRule_takes (hm : m.StartsType) (hprimary : Takes g.primaryType (m :: ms) t rest)
    (hsuffix : ∀ start, Iterates (g.typeSuffix start) t rest t' rest') :
    Takes g.operandTypeRule (m :: ms) t' rest' := by
  have hoperators : ["keyof", "unique", "readonly"].any m.isWord = false :=
    hm.any_isWord (by decide)
  have hinfer : m.isWord "infer" = false := hm.plain _ (by decide)
  refine .look fun start hstart => .ite_neg ?_ (.look fun _ _ => ?_)
  · simp [hstart.seesAnyWord, hoperators]
  refine .ite_neg ?_ (hprimary.bind (iterate_takes (hsuffix start)))
  simp [hstart.seesWord, hinfer]

/-- An operand that no `&` follows is read as such. -/
theorem intersectionType_takes (hm : m.StartsType)
    (h : Takes g.operandTypeRule (m :: ms) t rest) (hrest : (markAt rest 0).kind ≠ .ampersand) :
    Takes g.intersectionType (m :: ms) t rest :=
  (takeKind_other (hm.kind_ne (by decide))).bind
    ((separated_takes (.one h hrest)).bind .pure)

theorem unionType_takes (hm : m.StartsType)
    (h : Takes g.intersectionType (m :: ms) t rest) (hrest : (markAt rest 0).kind ≠ .pipe) :
    Takes g.unionType (m :: ms) t rest :=
  (takeKind_other (hm.kind_ne (by decide))).bind
    ((separated_takes (.one h hrest)).bind .pure)

theorem atArrowParams_eq_false {c : Cursor} (hc : c.Shows ms) : atArrowParams c = false := by
  rw [atArrowParams]
  cases c.check .leftParen with
  | false => rfl
  | true =>
      cases Group.closingIndex? 0 c.ahead with
      | none => rfl
      | some n => simpa using hc.kindAhead_ne_arrow (n + 1)

/-- A union that is no constructor and has no condition behind it. -/
theorem typeRule_of_union (hm : m.StartsType)
    (hnew : m.isWord "abstract" = true → (markAt ms 0).isWord "new" = false)
    (h : Takes g.unionType (m :: ms) t rest) (hextends : (markAt rest 0).isWord "extends" = false) :
    Takes g.typeRule (m :: ms) t rest := by
  refine .look fun start hstart => .ite_neg ?_ (.ite_neg ?_ (h.bind
    ((takeWord_none hextends).bind (.ite_neg (by decide) .pure))))
  · simp [hstart.check, atArrowParams_eq_false hstart, hm.kind_ne]
  · have hplain : m.isWord "new" = false := hm.plain _ (by decide)
    have habstract : (m.isWord "abstract" && (markAt ms 0).isWord "new") = false := by
      cases hword : m.isWord "abstract" with
      | false => rfl
      | true => rw [hnew hword, Bool.and_false]
    simp [hstart.seesWord, hstart.wordAt, hplain, habstract]

/-- A bracket on another line is none of the type's. -/
theorem typeSuffix_none {start : Cursor} (hrest : (markAt rest 0).endsOperand = true) :
    Takes (g.typeSuffix start t) rest none rest := by
  simp only [Mark.endsOperand, Bool.and_eq_true, Bool.or_eq_true, bne_iff_ne] at hrest
  refine .look fun c hc => .ite_neg ?_ .pure
  rw [hc.check, hc.newlineBefore]
  obtain hkind | hline := hrest.2
  · simp [hkind]
  · simp [hline]

theorem typeSuffix_array {start : Cursor} {opener closer : Mark}
    (hopener : opener.kind = .leftBracket) (hline : opener.line = false)
    (hcloser : closer.kind = .rightBracket) :
    Takes (g.typeSuffix start t) (opener :: closer :: rest) (some (.array t)) rest :=
  .look fun c hc => .ite_pos (by simp [hc.check, hc.newlineBefore, hopener, hline])
    (advance_takes.bind ((takeKind_takes hcloser).bind (.ite_pos rfl .pure)))

end HandlerWeave.Source
