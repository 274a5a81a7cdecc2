import HandlerWeave.Source.Lexer
import HandlerWeave.Text.Quoted

/-!
Words and numerals as tokens have them. Each of them is read as one token again wherever nothing
follows that could continue it, whatever followed it in the text it comes from.
-/
namespace HandlerWeave.Source

/-- An identifier, or one that a hash marks as private. -/
def IsWord (w : String) : Prop :=
  Text.isIdentifier w = true ∨ ∃ v, Text.isIdentifier v = true ∧ w = "#" ++ v

/-- A character that can stand in a word or a numeral. -/
def continues (c : Char) : Bool := isWordPart c || c == '.'

/-- The first character, if there is one, has the property. -/
def Starts (P : Char → Prop) (cs : List Char) : Prop := ∀ c ∈ cs.head?, P c

/-- What stands here continues no word and no numeral in front of it. -/
def Edge (cs : List Char) : Prop := Starts (continues · = false) cs

/-- A text that is read as one number wherever nothing continues it. -/
def IsNumeral (n : String) : Prop :=
  ∃ c cs, n.toList = c :: cs ∧ ∀ before rest, Edge rest →
    Lexer.lexeme before c (cs ++ rest) = (.token .number, cs.length)

variable {P : Char → Prop} {p : Char → Bool} {c : Char} {cs xs ys rest tail w f e b : List Char}
  {before : Option Token}

@[simp] theorem starts_nil : Starts P [] := fun _ h => nomatch h

@[simp] theorem starts_cons : Starts P (c :: cs) ↔ P c := by
  simp [Starts]

theorem Starts.append (hx : Starts P xs) (hy : Starts P ys) : Starts P (xs ++ ys) := by
  cases xs with
  | nil => exact hy
  | cons x xs => exact starts_cons.2 (starts_cons.1 hx)

/-- The first part of a text whose rest starts with something else ends where it does. -/
theorem Starts.takeWhile_append (hrest : Starts (p · = false) rest) (hall : ∀ c ∈ cs, p c = true) :
    (cs ++ rest).takeWhile p = cs := by
  have hstop : rest.takeWhile p = [] := by
    cases rest with
    | nil => rfl
    | cons c rest => simp [hrest c rfl]
  rw [List.takeWhile_append_of_pos hall, hstop, List.append_nil]

theorem Starts.dropWhile_append (hrest : Starts (p · = false) rest) (hall : ∀ c ∈ cs, p c = true) :
    (cs ++ rest).dropWhile p = rest := by
  rw [List.dropWhile_append_of_pos hall]
  cases rest with
  | nil => rfl
  | cons c rest => simp [hrest c rfl]

theorem starts_dropWhile (p : Char → Bool) (cs : List Char) :
    Starts (p · = false) (cs.dropWhile p) := by
  intro c hc
  have h := List.head?_dropWhile_not p cs
  rw [Option.mem_def.1 hc] at h
  exact h

@[simp] theorem edge_nil : Edge [] := starts_nil

@[simp] theorem edge_cons : Edge (c :: cs) ↔ continues c = false := starts_cons

theorem Edge.starts (h : Edge rest) (hP : ∀ c, continues c = false → P c) : Starts P rest :=
  fun c hc => hP c (h c hc)

theorem ne_of_continues {d : Char} (hd : continues d = true) (hc : continues c = false) :
    c ≠ d := by
  rintro rfl
  rw [hd] at hc
  cases hc

theorem eq_false_of_continues (hp : ∀ c, p c = true → continues c = true)
    (hc : continues c = false) : p c = false := by
  cases h : p c with
  | false => rfl
  | true =>
      rw [hp c h] at hc
      cases hc

theorem continues_of_isWordPart (c : Char) (h : isWordPart c = true) : continues c = true := by
  rw [continues, h, Bool.true_or]

/-- Nothing that stands at an edge is part of a word. -/
theorem Edge.endsWord (h : Edge rest) : Starts (isWordPart · = false) rest :=
  h.starts fun _ => eq_false_of_continues continues_of_isWordPart

namespace Lexer

theorem prefixLength_append (hall : ∀ c ∈ cs, p c = true) (hrest : Starts (p · = false) rest) :
    prefixLength p (cs ++ rest) = cs.length := by
  rw [prefixLength, hrest.takeWhile_append hall]

theorem prefixLength_cons (h : p c = true) : prefixLength p (c :: cs) = prefixLength p cs + 1 := by
  simp [prefixLength, h]

/-- A text is the run at its front, of the length that is counted, and the rest. -/
theorem exists_prefix (p : Char → Bool) (cs : List Char) :
    ∃ run rest, cs = run ++ rest ∧ (∀ c ∈ run, p c = true) ∧ prefixLength p cs = run.length :=
  ⟨cs.takeWhile p, cs.dropWhile p, List.takeWhile_append_dropWhile.symm,
    List.all_eq_true.1 List.all_takeWhile, rfl⟩

theorem isUpper_eq (c : Char) : c.isUpper = decide (c.val ≥ 'A'.val ∧ c.val ≤ 'Z'.val) := rfl

theorem isLower_eq (c : Char) :
    c.isLower = (decide (c.val ≥ 'a'.val) && decide (c.val ≤ 'z'.val)) := rfl

theorem isAlpha_eq (c : Char) : c.isAlpha = (c.isUpper || c.isLower) := rfl

theorem continues_of_isDigitPart (c : Char) (h : isDigitPart c = true) : continues c = true := by
  simp only [isDigitPart, continues, isWordPart, Char.isAlphanum, Bool.or_eq_true] at h ⊢
  obtain h | h := h
  · exact .inl (.inl (.inl (.inr h)))
  · exact .inl (.inl (.inr h))

def IsFraction (f : List Char) : Prop :=
  f = [] ∨ ∃ digits, f = '.' :: digits ∧ ∀ c ∈ digits, isDigitPart c = true

def IsExponent (e : List Char) : Prop :=
  e = [] ∨ ∃ mark sign digits, e = mark :: (sign ++ digits) ∧ (mark = 'e' ∨ mark = 'E') ∧
    (sign = [] ∨ sign = ['+'] ∨ sign = ['-']) ∧ digits ≠ [] ∧ ∀ c ∈ digits, c.isDigit = true

def IsBigMark (b : List Char) : Prop := b = [] ∨ b = ['n']

/-- The length of a sign at the front. -/
def signLength (cs : List Char) : Nat :=
  match cs with
  | '+' :: _ | '-' :: _ => 1
  | _ => 0

theorem signLength_append (hsign : w = [] ∨ w = ['+'] ∨ w = ['-'])
    (htail : Starts (fun c => c ≠ '+' ∧ c ≠ '-') tail) : signLength (w ++ tail) = w.length := by
  obtain rfl | rfl | rfl := hsign
  · unfold signLength
    split <;> simp_all
  · rfl
  · rfl

theorem exists_sign (cs : List Char) :
    ∃ sign rest, cs = sign ++ rest ∧ (sign = [] ∨ sign = ['+'] ∨ sign = ['-']) ∧
      signLength cs = sign.length := by
  unfold signLength
  split
  · exact ⟨['+'], _, rfl, .inr (.inl rfl), rfl⟩
  · exact ⟨['-'], _, rfl, .inr (.inr rfl), rfl⟩
  · exact ⟨[], cs, rfl, .inl rfl, rfl⟩

theorem exponentLength_cons {mark : Char} (hmark : mark = 'e' ∨ mark = 'E') :
    exponentLength (mark :: cs) =
      if prefixLength Char.isDigit (cs.drop (signLength cs)) = 0 then 0
      else 1 + signLength cs + prefixLength Char.isDigit (cs.drop (signLength cs)) := by
  unfold exponentLength
  dsimp only
  rw [if_pos (by simpa using hmark)]
  split
  next hnone =>
    have hnone : prefixLength Char.isDigit (cs.drop (signLength cs)) = 0 := hnone
    rw [if_pos hnone]
  next hsome =>
    have hsome : ¬ prefixLength Char.isDigit (cs.drop (signLength cs)) = 0 := hsome
    rw [if_neg hsome]
    rfl

theorem exponentLength_eq_zero (h : Starts (fun c => c ≠ 'e' ∧ c ≠ 'E') cs) :
    exponentLength cs = 0 := by
  cases cs with
  | nil => rfl
  | cons c cs => simp_all [exponentLength]

theorem exists_exponent (cs : List Char) :
    ∃ e rest, cs = e ++ rest ∧ IsExponent e ∧ exponentLength cs = e.length := by
  by_cases hzero : exponentLength cs = 0
  · exact ⟨[], cs, rfl, .inl rfl, hzero⟩
  · cases cs with
    | nil => exact absurd rfl hzero
    | cons mark cs =>
        by_cases hmark : mark = 'e' ∨ mark = 'E'
        · rw [exponentLength_cons hmark] at hzero ⊢
          obtain ⟨sign, cs', rfl, hsign, hsignLength⟩ := exists_sign cs
          obtain ⟨digits, rest, rfl, hdigits, hcount⟩ := exists_prefix Char.isDigit cs'
          rw [hsignLength, List.drop_left, hcount] at hzero ⊢
          by_cases hempty : digits.length = 0
          · exact absurd (if_pos hempty) hzero
          · refine ⟨mark :: (sign ++ digits), rest, by simp, ?_, ?_⟩
            · exact .inr ⟨mark, sign, digits, rfl, hmark, hsign,
                fun h => hempty (by rw [h]; rfl), hdigits⟩
            · rw [if_neg hempty]
              simp only [List.length_cons, List.length_append]
              omega
        · exact absurd (by simp [exponentLength, hmark]) hzero

/-- An exponent is read again where no digit follows it, and where none is written no mark of one
follows. -/
theorem exponentLength_append (he : IsExponent e) (hdigit : Starts (·.isDigit = false) tail)
    (hmark : Starts (fun c => c ≠ 'e' ∧ c ≠ 'E') tail) :
    exponentLength (e ++ tail) = e.length := by
  obtain rfl | ⟨mark, sign, digits, rfl, hkind, hsign, hne, hdigits⟩ := he
  · exact exponentLength_eq_zero hmark
  · obtain ⟨d, digits, rfl⟩ := List.exists_cons_of_ne_nil hne
    have hd : d.isDigit = true := hdigits d List.mem_cons_self
    have hsignLength : signLength (sign ++ (d :: digits ++ tail)) = sign.length := by
      refine signLength_append hsign (starts_cons.2 ?_)
      constructor <;> rintro rfl <;> cases hd
    rw [List.cons_append, List.append_assoc, exponentLength_cons hkind, hsignLength,
      List.drop_left, prefixLength_append hdigits hdigit, if_neg (by simp)]
    simp only [List.length_cons, List.length_append]
    omega

theorem exists_bigMark (cs : List Char) :
    ∃ b rest, cs = b ++ rest ∧ IsBigMark b ∧ bigMarkLength cs = b.length := by
  unfold bigMarkLength
  split
  · exact ⟨['n'], _, rfl, .inr rfl, rfl⟩
  · exact ⟨[], cs, rfl, .inl rfl, rfl⟩

theorem bigMarkLength_append (hb : IsBigMark b) (hrest : Starts (· ≠ 'n') rest) :
    bigMarkLength (b ++ rest) = b.length := by
  obtain rfl | rfl := hb
  · unfold bigMarkLength
    split <;> simp_all
  · rfl

/-- The length of a point and the digits behind it. -/
def pointLength (cs : List Char) : Nat :=
  match cs with
  | '.' :: r => 1 + prefixLength isDigitPart r
  | _ => 0

theorem exists_fraction (cs : List Char) :
    ∃ f rest, cs = f ++ rest ∧ IsFraction f ∧ pointLength cs = f.length := by
  unfold pointLength
  split
  next r =>
    obtain ⟨digits, rest, rfl, hdigits, hcount⟩ := exists_prefix isDigitPart r
    refine ⟨'.' :: digits, rest, rfl, .inr ⟨digits, rfl, hdigits⟩, ?_⟩
    rw [hcount, List.length_cons, Nat.add_comm]
  · exact ⟨[], cs, rfl, .inl rfl, rfl⟩

theorem pointLength_append (hf : IsFraction f)
    (htail : Starts (fun c => isDigitPart c = false ∧ c ≠ '.') tail) :
    pointLength (f ++ tail) = f.length := by
  obtain rfl | ⟨digits, rfl, hdigits⟩ := hf
  · unfold pointLength
    split <;> simp_all
  · rw [List.cons_append, pointLength, prefixLength_append hdigits fun c hc => (htail c hc).1,
      List.length_cons, Nat.add_comm]

theorem decimalLength_eq (cs : List Char) :
    decimalLength cs =
      let whole := prefixLength isDigitPart cs
      let fraction := pointLength (cs.drop whole)
      let exponent := exponentLength (cs.drop (whole + fraction))
      whole + fraction + exponent + bigMarkLength (cs.drop (whole + fraction + exponent)) := rfl

/-- The length of a numeral is that of its parts, once each part is counted where it starts. -/
theorem decimalLength_parts (hwhole : prefixLength isDigitPart (w ++ (f ++ (e ++ (b ++ rest)))) =
      w.length) (hpoint : pointLength (f ++ (e ++ (b ++ rest))) = f.length)
    (hmark : exponentLength (e ++ (b ++ rest)) = e.length)
    (hbig : bigMarkLength (b ++ rest) = b.length) :
    decimalLength (w ++ (f ++ (e ++ (b ++ rest)))) =
      w.length + f.length + e.length + b.length := by
  have hexponent : (w ++ (f ++ (e ++ (b ++ rest)))).drop (w.length + f.length) =
      e ++ (b ++ rest) := by
    rw [← List.append_assoc, ← List.length_append, List.drop_left]
  have hend : (w ++ (f ++ (e ++ (b ++ rest)))).drop (w.length + f.length + e.length) =
      b ++ rest := by
    rw [← List.append_assoc, ← List.append_assoc, ← List.length_append, ← List.length_append,
      List.drop_left]
  simp only [decimalLength_eq, hwhole, List.drop_left, hpoint, hexponent, hmark, hend, hbig]

/-- Nothing of a numeral but a big mark, an exponent, a fraction or a digit can come next, and each
of them only in this order. -/
theorem starts_bigMark (hb : IsBigMark b) (hrest : Edge rest) (hP : ∀ c, continues c = false → P c)
    (hn : P 'n') : Starts P (b ++ rest) := by
  refine .append ?_ (hrest.starts hP)
  obtain rfl | rfl := hb
  · exact starts_nil
  · exact starts_cons.2 hn

theorem starts_exponent (he : IsExponent e) (htail : Starts P tail) (hsmall : P 'e')
    (hlarge : P 'E') : Starts P (e ++ tail) := by
  refine .append ?_ htail
  obtain rfl | ⟨mark, sign, digits, rfl, hmark, -⟩ := he
  · exact starts_nil
  · obtain rfl | rfl := hmark
    · exact starts_cons.2 hsmall
    · exact starts_cons.2 hlarge

theorem starts_fraction (hf : IsFraction f) (htail : Starts P tail) (hpoint : P '.') :
    Starts P (f ++ tail) := by
  refine .append ?_ htail
  obtain rfl | ⟨digits, rfl, -⟩ := hf
  · exact starts_nil
  · exact starts_cons.2 hpoint

theorem decimalLength_append (hw : ∀ c ∈ w, isDigitPart c = true) (hf : IsFraction f)
    (he : IsExponent e) (hb : IsBigMark b) (hrest : Edge rest) :
    decimalLength (w ++ (f ++ (e ++ (b ++ rest)))) =
      w.length + f.length + e.length + b.length := by
  have hdigit : ∀ c, continues c = false → isDigitPart c = false :=
    fun c => eq_false_of_continues continues_of_isDigitPart
  have hexponent : ∀ {P : Char → Prop}, (∀ c, continues c = false → P c) → P 'n' → P 'e' → P 'E' →
      Starts P (e ++ (b ++ rest)) := fun hP hn hsmall hlarge =>
    starts_exponent he (starts_bigMark hb hrest hP hn) hsmall hlarge
  have hwhole : prefixLength isDigitPart (w ++ (f ++ (e ++ (b ++ rest)))) = w.length :=
    prefixLength_append hw (starts_fraction hf
      (hexponent hdigit (by decide) (by decide) (by decide)) (by decide))
  have hpoint : pointLength (f ++ (e ++ (b ++ rest))) = f.length :=
    pointLength_append hf (hexponent
      (fun c hc => ⟨hdigit c hc, ne_of_continues (by decide) hc⟩)
      (by decide) (by decide) (by decide))
  have hmark : exponentLength (e ++ (b ++ rest)) = e.length := by
    refine exponentLength_append he ?_ ?_
    · refine starts_bigMark hb hrest (fun c hc => ?_) (by decide)
      cases hd : c.isDigit with
      | false => rfl
      | true => exact absurd (hdigit c hc) (by simp [isDigitPart, hd])
    · exact starts_bigMark hb hrest
        (fun c hc => ⟨ne_of_continues (by decide) hc, ne_of_continues (by decide) hc⟩) (by decide)
  have hbig : bigMarkLength (b ++ rest) = b.length :=
    bigMarkLength_append hb (hrest.starts fun c hc => ne_of_continues (by decide) hc)
  exact decimalLength_parts hwhole hpoint hmark hbig

/-- The decimal numeral at the front, in its parts. -/
theorem exists_decimal (cs : List Char) :
    ∃ w f e b rest, cs = w ++ (f ++ (e ++ (b ++ rest))) ∧ (∀ c ∈ w, isDigitPart c = true) ∧
      IsFraction f ∧ IsExponent e ∧ IsBigMark b ∧
      decimalLength cs = w.length + f.length + e.length + b.length := by
  obtain ⟨w, r, rfl, hw, hwhole⟩ := exists_prefix isDigitPart cs
  obtain ⟨f, r, rfl, hf, hpoint⟩ := exists_fraction r
  obtain ⟨e, r, rfl, he, hmark⟩ := exists_exponent r
  obtain ⟨b, r, rfl, hb, hbig⟩ := exists_bigMark r
  exact ⟨w, f, e, b, r, rfl, hw, hf, he, hb, decimalLength_parts hwhole hpoint hmark hbig⟩

/-- The digits that a mark behind a zero announces. -/
def basedPart? (mark : Char) : Option (Char → Bool) :=
  if mark = 'x' ∨ mark = 'X' then some isHexPart
  else if mark = 'b' ∨ mark = 'B' then some isBinaryPart
  else if mark = 'o' ∨ mark = 'O' then some isOctalPart
  else none

def digitsLength? (part : Char → Bool) (cs : List Char) : Option Nat :=
  let n := prefixLength part cs
  if n = 0 then none else some (1 + n + bigMarkLength (cs.drop n))

theorem basedLength?_cons (mark : Char) (cs : List Char) :
    basedLength? (mark :: cs) = (basedPart? mark).bind (digitsLength? · cs) := by
  unfold basedLength? basedPart?
  split
  case h_7 => simp_all
  all_goals
    next heq =>
      cases heq
      simp only [digitsLength?, Char.reduceEq, or_true, true_or, or_self, ↓reduceIte,
        Option.bind_some]
      split <;> simp_all

theorem basedLength?_eq_none (h : Starts (basedPart? · = none) cs) : basedLength? cs = none := by
  cases cs with
  | nil => rfl
  | cons mark cs => rw [basedLength?_cons, starts_cons.1 h, Option.bind_none]

theorem continues_of_isHexPart (c : Char) (h : isHexPart c = true) : continues c = true := by
  simp only [isHexPart, Bool.or_eq_true, Bool.and_eq_true, decide_eq_true_eq] at h
  obtain (h | ⟨hlow, hhigh⟩) | ⟨hlow, hhigh⟩ := h
  · exact continues_of_isDigitPart c h
  · have hlower : c.isLower = true := by
      simp only [isLower_eq, Char.le_def, decide_eq_true_eq, Bool.and_eq_true] at hlow hhigh ⊢
      exact ⟨hlow, UInt32.le_trans hhigh (by decide)⟩
    simp [continues, isWordPart, Char.isAlphanum, isAlpha_eq, hlower]
  · have hupper : c.isUpper = true := by
      simp only [isUpper_eq, Char.le_def, decide_eq_true_eq] at hlow hhigh ⊢
      exact ⟨hlow, UInt32.le_trans hhigh (by decide)⟩
    simp [continues, isWordPart, Char.isAlphanum, isAlpha_eq, hupper]

theorem continues_of_isOctalPart (c : Char) (h : isOctalPart c = true) : continues c = true := by
  simp only [isOctalPart, Bool.or_eq_true, Bool.and_eq_true, decide_eq_true_eq] at h
  refine continues_of_isDigitPart c ?_
  obtain ⟨hlow, hhigh⟩ | h := h
  · have hdigit : c.isDigit = true := by
      simp only [Char.isDigit, Char.le_def, decide_eq_true_eq, Bool.and_eq_true] at hlow hhigh ⊢
      exact ⟨hlow, UInt32.le_trans hhigh (by decide)⟩
    simp [isDigitPart, hdigit]
  · simp [isDigitPart, h]

theorem continues_of_isBinaryPart (c : Char) (h : isBinaryPart c = true) : continues c = true := by
  simp only [isBinaryPart, Bool.or_eq_true, beq_iff_eq] at h
  obtain (rfl | rfl) | rfl := h <;> decide

/-- Neither an edge nor a big mark is among the digits of a based numeral. -/
theorem basedPart?_stop {mark : Char} {part : Char → Bool} (h : basedPart? mark = some part) :
    part 'n' = false ∧ ∀ c, continues c = false → part c = false := by
  simp only [basedPart?] at h
  split at h
  · cases h
    exact ⟨by decide, fun c => eq_false_of_continues continues_of_isHexPart⟩
  · split at h
    · cases h
      exact ⟨by decide, fun c => eq_false_of_continues continues_of_isBinaryPart⟩
    · split at h
      · cases h
        exact ⟨by decide, fun c => eq_false_of_continues continues_of_isOctalPart⟩
      · cases h

/-- A based numeral behind its zero is read again at an edge. -/
theorem exists_based {n : Nat} (h : basedLength? cs = some n) :
    ∃ based rest, cs = based ++ rest ∧ based.length = n ∧
      ∀ rest, Edge rest → basedLength? (based ++ rest) = some n := by
  cases cs with
  | nil => cases h
  | cons mark cs =>
      rw [basedLength?_cons] at h
      obtain ⟨part, hpart, h⟩ := Option.bind_eq_some_iff.1 h
      obtain ⟨hbigMark, hedge⟩ := basedPart?_stop hpart
      obtain ⟨digits, r, rfl, hdigits, hcount⟩ := exists_prefix part cs
      obtain ⟨b, r, rfl, hb, hbig⟩ := exists_bigMark r
      rw [digitsLength?, hcount, List.drop_left, hbig] at h
      split at h
      · cases h
      next hne =>
        cases h
        refine ⟨mark :: (digits ++ b), r, by simp, ?_, fun rest hrest => ?_⟩
        · simp only [List.length_cons, List.length_append]
          omega
        · have hdigitsLength : prefixLength part (digits ++ (b ++ rest)) = digits.length :=
            prefixLength_append hdigits (starts_bigMark hb hrest hedge hbigMark)
          have hbig : bigMarkLength (b ++ rest) = b.length :=
            bigMarkLength_append hb (hrest.starts fun c hc => ne_of_continues (by decide) hc)
          rw [List.cons_append, List.append_assoc, basedLength?_cons, hpart, Option.bind_some,
            digitsLength?, hdigitsLength, List.drop_left, hbig, if_neg hne]

theorem basedPart?_eq_none (hp : ['x', 'X', 'b', 'B', 'o', 'O'].any p = false)
    (hc : p c = true) : basedPart? c = none := by
  have hne : ∀ mark ∈ ['x', 'X', 'b', 'B', 'o', 'O'], c ≠ mark := by
    rintro mark hmark rfl
    exact List.any_eq_false.1 hp c hmark hc
  simp only [List.forall_mem_cons] at hne
  simp [basedPart?, hne]

/-- No mark of a based numeral stands behind the first digit of a decimal one. -/
theorem numberLength_decimal (first : Char) (hw : ∀ c ∈ w, isDigitPart c = true)
    (hf : IsFraction f) (he : IsExponent e) (hb : IsBigMark b) (hrest : Edge rest) :
    numberLength first (w ++ (f ++ (e ++ (b ++ rest)))) =
      w.length + f.length + e.length + b.length := by
  have hplain : Starts (basedPart? · = none) (w ++ (f ++ (e ++ (b ++ rest)))) := by
    refine .append (fun c hc => ?_) (starts_fraction hf (starts_exponent he
      (starts_bigMark hb hrest (fun c hc => ?_) rfl) rfl rfl) rfl)
    · exact basedPart?_eq_none (by decide) (hw c (List.mem_of_mem_head? hc))
    · exact basedPart?_eq_none (p := fun c => !continues c) (by decide) (by simp [hc])
  have hnone : (if first = '0' then basedLength? (w ++ (f ++ (e ++ (b ++ rest)))) else none) =
      none := by
    rw [basedLength?_eq_none hplain, ite_self]
  rw [numberLength, hnone]
  exact decimalLength_append hw hf he hb hrest

/-- A numeral that starts with a digit is read again at an edge. -/
theorem exists_number (first : Char) (cs : List Char) :
    ∃ number rest, cs = number ++ rest ∧ number.length = numberLength first cs ∧
      ∀ rest, Edge rest → numberLength first (number ++ rest) = number.length := by
  cases hbased : (if first = '0' then basedLength? cs else none) with
  | some n =>
      obtain ⟨hzero, hbased⟩ := Option.ite_none_right_eq_some.1 hbased
      obtain ⟨based, rest, hcs, hlength, hagain⟩ := exists_based hbased
      refine ⟨based, rest, hcs, ?_, fun rest hrest => ?_⟩
      · rw [hlength, numberLength, if_pos hzero, hbased]
      · rw [hlength, numberLength, if_pos hzero, hagain rest hrest]
  | none =>
      obtain ⟨w, f, e, b, r, rfl, hw, hf, he, hb, hlength⟩ := exists_decimal cs
      have hnumber : (w ++ (f ++ (e ++ b))).length = w.length + f.length + e.length + b.length := by
        simp only [List.length_append]
        omega
      refine ⟨w ++ (f ++ (e ++ b)), r, by simp, ?_, fun rest hrest => ?_⟩
      · rw [numberLength, hbased, hnumber]
        exact hlength.symm
      · simp only [List.append_assoc]
        rw [numberLength_decimal first hw hf he hb hrest, hnumber]

theorem fractionLength_append (hw : ∀ c ∈ w, isDigitPart c = true) (he : IsExponent e)
    (hrest : Starts (fun c => isDigitPart c = false ∧ c ≠ 'e' ∧ c ≠ 'E') rest) :
    fractionLength (w ++ (e ++ rest)) = w.length + e.length := by
  have hwhole : prefixLength isDigitPart (w ++ (e ++ rest)) = w.length :=
    prefixLength_append hw (starts_exponent he (fun c hc => (hrest c hc).1) (by decide)
      (by decide))
  have hmark : exponentLength (e ++ rest) = e.length := by
    refine exponentLength_append he (fun c hc => ?_) fun c hc => (hrest c hc).2
    have hdigit := (hrest c hc).1
    simp only [isDigitPart, Bool.or_eq_false_iff] at hdigit
    exact hdigit.1
  rw [fractionLength, hwhole, List.drop_left, hmark]

/-- A numeral behind its point is read again at an edge. -/
theorem exists_pointed (cs : List Char) :
    ∃ number rest, cs = number ++ rest ∧ number.length = fractionLength cs ∧
      (cs.head?.any Char.isDigit → number.head?.any Char.isDigit) ∧
      ∀ rest, Edge rest → fractionLength (number ++ rest) = number.length := by
  obtain ⟨w, r, rfl, hw, hwhole⟩ := exists_prefix isDigitPart cs
  obtain ⟨e, r, rfl, he, hmark⟩ := exists_exponent r
  have hlength : fractionLength (w ++ (e ++ r)) = w.length + e.length := by
    rw [fractionLength, hwhole, List.drop_left, hmark]
  refine ⟨w ++ e, r, by simp, ?length, ?head, fun rest hrest => ?again⟩
  case length => rw [hlength, List.length_append]
  case head =>
    intro hdigit
    cases w with
    | cons d w => exact hdigit
    | nil =>
        -- The digit would have been counted.
        rw [List.nil_append] at hdigit hwhole
        cases hcs : e ++ r with
        | nil => rw [hcs] at hdigit; cases hdigit
        | cons d l =>
            rw [hcs] at hdigit hwhole
            have hd : isDigitPart d = true := by
              rw [isDigitPart, Bool.or_eq_true]
              exact .inl hdigit
            rw [prefixLength_cons hd] at hwhole
            cases hwhole
  case again =>
    rw [List.append_assoc, List.length_append]
    refine fractionLength_append hw he (hrest.starts fun c hc => ⟨?_, ?_, ?_⟩)
    · exact eq_false_of_continues continues_of_isDigitPart hc
    · exact ne_of_continues (by decide) hc
    · exact ne_of_continues (by decide) hc

theorem slash_kind (before : Option Token) (cs : List Char) :
    (slash before cs).1 ∈ [.gap, .token .stray, .token .regex, .token .operator] := by
  unfold slash
  split
  · simp
  · split <;> simp
  · split <;> simp

theorem quoted_kind (kind : Token.Kind) (delimiter : Char) (cs : List Char) :
    (quoted kind delimiter cs).1 ∈ [.token kind, .token .stray] := by
  unfold quoted
  split <;> simp

theorem mark?_kind {kind : Token.Kind} (h : mark? c = some kind) :
    kind ≠ .word ∧ kind ≠ .number := by
  unfold mark? at h
  split at h <;> cases h <;> decide

theorem lexeme_hash (before : Option Token) (cs : List Char) : lexeme before '#' cs =
    if cs.head?.any isWordStart then (.token .word, prefixLength isWordPart cs)
    else (.token .stray, 0) := by
  cases cs <;> rfl

theorem lexeme_point (before : Option Token) (cs : List Char) : lexeme before '.' cs =
    if ['.', '.'] <+: cs then (.token .ellipsis, 2)
    else if cs.head?.any Char.isDigit then (.token .number, fractionLength cs)
    else (.token .dot, 0) := by
  have hplain : isBlank '.' = false ∧ isWordStart '.' = false ∧ '.'.isDigit = false := by decide
  unfold lexeme
  simp only [hplain, Bool.false_eq_true, if_false]
  split
  next r => rw [if_pos ⟨r, rfl⟩]
  next d r hnot =>
    have hprefix : ¬ ['.', '.'] <+: d :: r := by
      rintro ⟨rest, hrest⟩
      cases hrest
      exact hnot rest rfl rfl
    rw [if_neg hprefix]
    rfl
  · rfl

/-- What starts with no letter, digit, hash or point is neither a word nor a number. -/
theorem lexeme_other (hstart : isWordStart c = false) (hdigit : c.isDigit = false) (hhash : c ≠ '#')
    (hpoint : c ≠ '.') (before : Option Token) (cs : List Char) :
    (lexeme before c cs).1 ≠ .token .word ∧ (lexeme before c cs).1 ≠ .token .number := by
  unfold lexeme
  rw [hstart, hdigit]
  split
  · simp
  · simp only [Bool.false_eq_true, if_false]
    split
    · have hkind := slash_kind before cs
      constructor <;> intro h <;> simp [h] at hkind
    · have hkind := quoted_kind .string '"' cs
      constructor <;> intro h <;> simp [h] at hkind
    · have hkind := quoted_kind .string '\'' cs
      constructor <;> intro h <;> simp [h] at hkind
    · have hkind := quoted_kind .template '`' cs
      constructor <;> intro h <;> simp [h] at hkind
    · exact absurd rfl hhash
    · exact absurd rfl hpoint
    · split <;> simp
    · split
      next hmark => simpa using mark?_kind hmark
      · simp

theorem not_isBlank (hp : [' ', '\t', '\r', '\n', '\x0c'].any p = false) (hc : p c = true) :
    isBlank c = false := by
  have hne : ∀ d ∈ [' ', '\t', '\r', '\n', '\x0c'], c ≠ d := by
    rintro d hd rfl
    exact List.any_eq_false.1 hp c hd hc
  simp only [List.forall_mem_cons] at hne
  simp [isBlank, hne]

theorem lexeme_wordStart (h : isWordStart c = true) (before : Option Token) (cs : List Char) :
    lexeme before c cs = (.token .word, prefixLength isWordPart cs) := by
  unfold lexeme
  rw [not_isBlank (by decide) h, h]
  rfl

theorem isWordStart_digit (h : c.isDigit = true) : isWordStart c = false := by
  have hne : c ≠ '_' ∧ c ≠ '$' := by
    constructor <;> rintro rfl <;> cases h
  have halpha : c.isAlpha = false := by
    simp only [Char.isDigit, isAlpha_eq, isUpper_eq, isLower_eq, Bool.and_eq_true,
      decide_eq_true_eq, UInt32.le_iff_toNat_le] at h ⊢
    grind
  simp [isWordStart, hne, halpha]

theorem lexeme_digit (h : c.isDigit = true) (before : Option Token) (cs : List Char) :
    lexeme before c cs = (.token .number, numberLength c cs) := by
  unfold lexeme
  rw [not_isBlank (by decide) h, isWordStart_digit h, h]
  rfl

end Lexer

theorem isIdentifier_ofList :
    Text.isIdentifier (String.ofList (c :: cs)) = (isWordStart c && cs.all isWordPart) := by
  rw [Text.isIdentifier, String.toList_ofList]
  rfl

/-- What a word or a number looks like. -/
structure Token.Sound (t : Token) : Prop where
  word : t.kind = .word → IsWord t.text
  number : t.kind = .number → IsNumeral t.text

theorem isWordPart_of_isWordStart (h : isWordStart c = true) : isWordPart c = true := by
  simp only [isWordStart, isWordPart, Char.isAlphanum, Bool.or_eq_true] at h ⊢
  grind

namespace Lexer

theorem exists_word (hc : isWordStart c = true) (cs : List Char) :
    Text.isIdentifier (String.ofList (c :: cs.take (prefixLength isWordPart cs))) = true := by
  obtain ⟨run, rest, rfl, hrun, hlength⟩ := exists_prefix isWordPart cs
  rw [hlength, List.take_left, isIdentifier_ofList, hc, Bool.true_and]
  exact List.all_eq_true.2 hrun

/-- A token that is recognised as a word or a number looks like one. -/
theorem lexeme_sound {kind : Token.Kind} {n : Nat}
    (h : lexeme before c cs = (.token kind, n)) :
    (kind = .word → IsWord (String.ofList (c :: cs.take n))) ∧
      (kind = .number → IsNumeral (String.ofList (c :: cs.take n))) := by
  by_cases hstart : isWordStart c = true
  · rw [lexeme_wordStart hstart] at h
    cases h
    exact ⟨fun _ => .inl (exists_word hstart cs), nofun⟩
  by_cases hdigit : c.isDigit = true
  · rw [lexeme_digit hdigit] at h
    cases h
    refine ⟨nofun, fun _ => ?_⟩
    obtain ⟨number, r, rfl, hlength, hagain⟩ := exists_number c cs
    rw [← hlength, List.take_left]
    refine ⟨c, number, String.toList_ofList, fun before rest hrest => ?_⟩
    rw [lexeme_digit hdigit, hagain rest hrest]
  by_cases hhash : c = '#'
  · subst hhash
    rw [lexeme_hash] at h
    split at h
    next hhead =>
      cases h
      refine ⟨fun _ => ?_, nofun⟩
      cases cs with
      | nil => cases hhead
      | cons d ds =>
          have hd : isWordStart d = true := hhead
          rw [prefixLength_cons (isWordPart_of_isWordStart hd), List.take_succ_cons]
          exact .inr ⟨_, exists_word hd ds, String.ofList_cons⟩
    · cases h
      exact ⟨nofun, nofun⟩
  by_cases hpoint : c = '.'
  · subst hpoint
    rw [lexeme_point] at h
    split at h
    · cases h
      exact ⟨nofun, nofun⟩
    · split at h
      next hhead =>
        cases h
        refine ⟨nofun, fun _ => ?_⟩
        obtain ⟨number, r, rfl, hlength, hfirst, hagain⟩ := exists_pointed cs
        rw [← hlength, List.take_left]
        refine ⟨'.', number, String.toList_ofList, fun before rest hrest => ?_⟩
        have hdigit : (number ++ rest).head?.any Char.isDigit = true := by
          have := hfirst hhead
          cases number with
          | nil => cases this
          | cons d ds => exact this
        rw [lexeme_point, if_neg, if_pos hdigit, hagain rest hrest]
        rintro ⟨r, hr⟩
        rw [← hr] at hdigit
        cases hdigit
      · cases h
        exact ⟨nofun, nofun⟩
  have hother := lexeme_other (Bool.eq_false_iff.2 hstart) (Bool.eq_false_iff.2 hdigit) hhash
    hpoint before cs
  rw [h] at hother
  exact ⟨fun hkind => absurd (congrArg Lexeme.token hkind) hother.1,
    fun hkind => absurd (congrArg Lexeme.token hkind) hother.2⟩

theorem scan_sound (cs : List Char) (before : Option Token) (gap : List Char)
    (offset skip : Nat) : ∀ t ∈ scan before gap offset skip cs, t.Sound := by
  induction cs generalizing before gap offset skip with
  | nil =>
      intro t ht
      rw [scan, List.mem_singleton] at ht
      subst ht
      exact ⟨nofun, nofun⟩
  | cons c cs ih =>
      cases skip with
      | succ skip => exact ih _ _ _ _
      | zero =>
          rw [scan]
          cases hlexeme : lexeme before c cs with
          | mk found n =>
              cases found with
              | gap => exact ih _ _ _ _
              | token kind =>
                  refine List.forall_mem_cons.2 ⟨?_, ih _ _ _ _⟩
                  obtain ⟨hword, hnumber⟩ := lexeme_sound hlexeme
                  exact ⟨hword, hnumber⟩

theorem exists_identifier {v : String} (hv : Text.isIdentifier v = true) :
    ∃ d ds, v.toList = d :: ds ∧ isWordStart d = true ∧ ∀ c ∈ ds, isWordPart c = true := by
  rw [Text.isIdentifier] at hv
  cases hlist : v.toList with
  | nil => rw [hlist] at hv; cases hv
  | cons d ds =>
      rw [hlist] at hv
      obtain ⟨hd, hds⟩ := Bool.and_eq_true_iff.1 hv
      exact ⟨d, ds, rfl, hd, List.all_eq_true.1 hds⟩

/-- A word is read as one again in front of anything that is no part of one. -/
theorem lexeme_of_isWord {w : String} (hw : IsWord w) : ∃ c cs, w.toList = c :: cs ∧
    ∀ before rest, Starts (isWordPart · = false) rest →
      lexeme before c (cs ++ rest) = (.token .word, cs.length) := by
  obtain hw | ⟨v, hv, rfl⟩ := hw
  · obtain ⟨d, ds, hlist, hd, hds⟩ := exists_identifier hw
    refine ⟨d, ds, hlist, fun before rest hrest => ?_⟩
    rw [lexeme_wordStart hd, prefixLength_append hds hrest]
  · obtain ⟨d, ds, hlist, hd, hds⟩ := exists_identifier hv
    refine ⟨'#', d :: ds, ?_, fun before rest hrest => ?_⟩
    · rw [String.toList_append, hlist]
      rfl
    · have hhead : (d :: ds ++ rest).head?.any isWordStart = true := hd
      rw [lexeme_hash, if_pos hhead, List.cons_append,
        prefixLength_cons (isWordPart_of_isWordStart hd), prefixLength_append hds hrest,
        List.length_cons]

end Lexer

theorem lex_sound (source : String) : ∀ t ∈ lex source, t.Sound := Lexer.scan_sound _ _ _ _ _

end HandlerWeave.Source
