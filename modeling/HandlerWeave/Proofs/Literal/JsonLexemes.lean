import HandlerWeave.Proofs.Literal.JsonText
import HandlerWeave.Proofs.Source.Spelling
import HandlerWeave.Literal.Evaluate

/-!
Strings and numerals of JSON are tokens of the language, and have the values there that they have
in JSON.
-/
namespace HandlerWeave.JsonText

open Source Source.Lexer Text

variable {c : Char} {cs rest text : List Char}

theorem unsignedValue?_eq {radix : Nat} {digits : List (Char × Nat)}
    (h : ∀ d ∈ digits, digitValue? radix d.1 = some d.2) (hne : digits ≠ []) :
    unsignedValue? radix (digits.map Prod.fst) =
      some (digits.foldl (fun n d => radix * n + d.2) 0) := by
  have hvalues : (digits.map Prod.fst).mapM (digitValue? radix) = some (digits.map Prod.snd) := by
    clear hne
    induction digits with
    | nil => rfl
    | cons d digits ih =>
        obtain ⟨hd, hdigits⟩ := List.forall_mem_cons.1 h
        rw [List.map_cons, List.mapM_cons, hd, ih hdigits]
        rfl
  have hnonempty : ¬ (digits.map Prod.fst).isEmpty = true := by simpa using hne
  rw [unsignedValue?, if_neg hnonempty, hvalues, Option.map_some, List.foldl_map]
  simp only [Nat.mul_comm radix]

theorem digitValue?_decimal (h : c.isDigit = true) :
    digitValue? 10 c = some (c.toNat - '0'.toNat) := by
  have hlt : c.toNat - '0'.toNat < 10 := by
    simp only [Char.isDigit, Bool.and_eq_true, decide_eq_true_eq, UInt32.le_iff_toNat_le] at h
    have hnine : '9'.val.toNat = 57 := rfl
    have hzero : '0'.toNat = 48 := rfl
    have hvalue : c.toNat = c.val.toNat := rfl
    omega
  rw [digitValue?]
  simp only [h, if_true, hlt]

theorem unsignedValue?_decimal (h : Digits cs) (hne : cs ≠ []) :
    unsignedValue? 10 cs = some (Nat.ofDigitChars 10 cs 0) := by
  have heq : unsignedValue? 10 ((cs.map fun c => (c, c.toNat - '0'.toNat)).map Prod.fst) = _ :=
    unsignedValue?_eq (List.forall_mem_map.2 fun c hc => digitValue?_decimal (h c hc))
      (by simpa using hne)
  rw [List.map_map, List.foldl_map] at heq
  rw [Nat.ofDigitChars_eq_foldl]
  simpa [Function.comp_def] using heq

theorem hexDigits_sound : ∀ d ∈ hexDigits, digitValue? 16 d.1 = some d.2 ∧ d.2 < 16 ∧
    d.1 ∉ ['"', '\\', '\n', '+', '\x7b', '\x7d'] := by decide

theorem exists_four {digits : List (Char × Nat)} (h : digits.length = 4) :
    ∃ d₁ d₂ d₃ d₄, digits = [d₁, d₂, d₃, d₄] := by
  match digits, h with
  | [d₁, d₂, d₃, d₄], _ => exact ⟨d₁, d₂, d₃, d₄, rfl⟩

theorem hexValue_lt {digits : List (Char × Nat)} (hdigits : ∀ d ∈ digits, d ∈ hexDigits)
    (hlength : digits.length = 4) : hexValue digits < 0x10000 := by
  obtain ⟨d₁, d₂, d₃, d₄, rfl⟩ := exists_four hlength
  have hlt : ∀ d ∈ [d₁, d₂, d₃, d₄], d.2 < 16 := fun d hd => (hexDigits_sound d (hdigits d hd)).2.1
  simp only [List.forall_mem_cons] at hlt
  simp only [hexValue, List.foldl_cons, List.foldl_nil]
  omega

theorem naturalValue?_hex {digits : List (Char × Nat)} (hdigits : ∀ d ∈ digits, d ∈ hexDigits)
    (hne : digits ≠ []) : naturalValue? 16 (digits.map Prod.fst) = some (hexValue digits) := by
  have hplus : ∀ cs, digits.map Prod.fst ≠ '+' :: cs := by
    intro cs hcs
    have hmem : '+' ∈ digits.map Prod.fst := by simp [hcs]
    obtain ⟨d, hd, heq⟩ := List.mem_map.1 hmem
    exact (hexDigits_sound d (hdigits d hd)).2.2 (by simp [heq])
  rw [naturalValue?]
  · exact unsignedValue?_eq (fun d hd => (hexDigits_sound d (hdigits d hd)).1) hne
  · exact hplus

theorem charOfHex_eq {digits : List (Char × Nat)} (hdigits : ∀ d ∈ digits, d ∈ hexDigits)
    (hlength : digits.length = 4)
    (hsurrogate : ¬ (0xd800 ≤ hexValue digits ∧ hexValue digits < 0xe000)) :
    Quoted.charOfHex (digits.map Prod.fst) = [Char.ofNat (hexValue digits)] := by
  have hlt := hexValue_lt hdigits hlength
  have hne : digits ≠ [] := by rintro rfl; cases hlength
  have hvalid : (hexValue digits).isValidChar := by
    rw [Nat.isValidChar]
    omega
  rw [Quoted.charOfHex, naturalValue?_hex hdigits hne]
  exact if_pos hvalid

/-- Four digits are no number in braces. -/
theorem escape_code {digits : List (Char × Nat)} (hdigits : ∀ d ∈ digits, d ∈ hexDigits)
    (hlength : digits.length = 4) (rest : List Char) :
    Quoted.escape ('u' :: (digits.map Prod.fst ++ rest)) =
      (Quoted.charOfHex (digits.map Prod.fst), 5) := by
  obtain ⟨d₁, d₂, d₃, d₄, rfl⟩ := exists_four hlength
  have hbrace : d₁.1 ≠ '\x7b' := fun heq =>
    (hexDigits_sound d₁ (hdigits d₁ List.mem_cons_self)).2.2 (by simp [heq])
  simp only [List.map_cons, List.map_nil, List.cons_append, List.nil_append, Quoted.escape]
  split
  next heq => exact absurd (List.cons.inj heq).1 hbrace
  · rfl

theorem body_run (h : ∀ c ∈ cs, c ∉ ['"', '\\', '\n']) :
    body '"' (cs ++ rest) = (body '"' rest).grow cs.length := by
  induction cs with
  | nil =>
      rw [List.nil_append]
      cases body '"' rest <;> rfl
  | cons c cs ih =>
      obtain ⟨hc, hcs⟩ := List.forall_mem_cons.1 h
      simp only [List.mem_cons, List.not_mem_nil, or_false, not_or] at hc
      rw [List.cons_append, body_plain hc.2.1 hc.1 hc.2.2, ih hcs, Body.grow_grow]
      rfl

theorem shortEscapes_sound : ∀ e ∈ shortEscapes, e.1 ≠ '\n' ∧
    ∀ rest, Quoted.escape (e.1 :: rest) = ([e.2], 1) := by
  simp only [shortEscapes, List.forall_mem_cons]
  refine ⟨?_, ?_, ?_, ?_, ?_, ?_, ?_, ?_, by simp⟩ <;> exact ⟨by decide, fun _ => rfl⟩

/-- One character, however it is written, is passed as a whole. -/
theorem WritesChar.body (h : WritesChar cs c) (rest : List Char) :
    body '"' (cs ++ rest) = (body '"' rest).grow cs.length := by
  cases h with
  | plain hcontrol hquote hback =>
      have hbreak : c ≠ '\n' := by
        rintro rfl
        exact absurd hcontrol (by decide)
      exact body_plain hback hquote hbreak rest
  | short h => exact body_escaped (shortEscapes_sound _ h).1 rest
  | @code digits hdigits hlength _ =>
      have hplain : ∀ d ∈ digits.map Prod.fst, d ∉ ['"', '\\', '\n'] := by
        refine List.forall_mem_map.2 fun d hd hmem => (hexDigits_sound d (hdigits d hd)).2.2 ?_
        exact List.mem_append_left ['+', '\x7b', '\x7d'] hmem
      rw [List.cons_append, List.cons_append, body_escaped (by decide), body_run hplain,
        Body.grow_grow]
      rfl

/-- One character, however it is written, is decoded to itself. -/
theorem WritesChar.decode (h : WritesChar cs c) (rest : List Char) :
    Quoted.decode 0 (cs ++ rest) = c :: Quoted.decode 0 rest := by
  cases h with
  | plain hcontrol hquote hback =>
      rw [List.singleton_append, Quoted.decode, if_neg hback]
  | short h => exact decode_escape ((shortEscapes_sound _ h).2 rest)
  | @code digits hdigits hlength hsurrogate =>
      have htext : (digits.map Prod.fst).length = 4 := by rw [List.length_map, hlength]
      rw [List.cons_append, List.cons_append, decode_escape (escape_code hdigits hlength rest),
        charOfHex_eq hdigits hlength hsurrogate, List.drop_succ_cons, List.drop_left' htext,
        List.singleton_append]

theorem WritesBody.body (h : WritesBody cs text) (rest : List Char) :
    body '"' (cs ++ '"' :: rest) = .closed (cs.length + 1) := by
  induction h with
  | nil => rfl
  | @cons cs more text c h _ ih =>
      rw [List.append_assoc, h.body, ih, Body.grow, List.length_append]
      congr 1
      omega

theorem WritesBody.decode (h : WritesBody cs text) : Quoted.decode 0 cs = text := by
  induction h with
  | nil => rfl
  | cons h _ ih => rw [h.decode, ih]

theorem WritesBody.unquote (h : WritesBody cs text) :
    unquote (String.ofList (quoted cs)) = String.ofList text := by
  rw [quoted, unquote_delimited, h.decode]

theorem WritesBody.spells (h : WritesBody cs text) (line : Bool) :
    Lexes line (quoted cs) [⟨.string, String.ofList (quoted cs), line⟩] false := by
  intro rest ns _ hns
  have htext : quoted cs ++ rest = '"' :: (cs ++ '"' :: rest) := by simp [quoted]
  rw [htext]
  exact .string (h.body rest) hns

theorem Digits.isDigitPart (h : Digits cs) : ∀ c ∈ cs, isDigitPart c = true := fun c hc => by
  rw [Lexer.isDigitPart, h c hc, Bool.true_or]

namespace Numeral

variable (n : Numeral)

theorem isFraction : IsFraction n.fractionText := by
  rw [fractionText]
  split
  · exact .inl rfl
  · exact .inr ⟨n.fraction, rfl, n.fraction_digits.isDigitPart⟩

theorem isExponent : IsExponent n.exponentText := by
  rw [exponentText]
  cases n.exponent with
  | none => exact .inl rfl
  | some e =>
      exact .inr ⟨e.mark, e.sign, e.digits, rfl, e.mark_mem, e.sign_mem, e.digits_ne_nil, e.decimal⟩

theorem isNumeral : IsNumeral (String.ofList n.size) := by
  obtain ⟨d, ds, hwhole⟩ := List.exists_cons_of_ne_nil n.whole_ne_nil
  obtain ⟨hd, hds⟩ : d.isDigit = true ∧ Digits ds := by
    have hall := n.whole_digits
    rw [hwhole] at hall
    exact List.forall_mem_cons.1 hall
  refine ⟨d, ds ++ (n.fractionText ++ n.exponentText), by simp [size, hwhole],
    fun before rest hrest => ?_⟩
  have hlength := numberLength_decimal d hds.isDigitPart n.isFraction n.isExponent (.inl rfl) hrest
  rw [List.nil_append] at hlength
  rw [lexeme_digit hd, List.append_assoc, List.append_assoc, hlength]
  simp [Nat.add_assoc]

/-- The characters that a numeral is made of. -/
theorem mem_size {c : Char} (hc : c ∈ n.size) :
    c.isDigit = true ∨ c ∈ ['.', 'e', 'E', '+', '-'] := by
  have hfraction : ∀ c ∈ n.fractionText, c.isDigit = true ∨ c ∈ ['.', 'e', 'E', '+', '-'] := by
    rw [fractionText]
    split
    · simp
    · exact List.forall_mem_cons.2 ⟨.inr (by simp), fun c hc => .inl (n.fraction_digits c hc)⟩
  have hexponent : ∀ c ∈ n.exponentText, c.isDigit = true ∨ c ∈ ['.', 'e', 'E', '+', '-'] := by
    rw [exponentText]
    cases n.exponent with
    | none => simp
    | some e =>
        refine List.forall_mem_cons.2 ⟨.inr ?_, List.forall_mem_append.2
          ⟨fun c hc => .inr ?_, fun c hc => .inl (e.decimal c hc)⟩⟩
        · obtain h | h := e.mark_mem <;> simp [h]
        · obtain h | h | h := e.sign_mem <;> rw [h] at hc <;> simp_all
  rw [size, List.mem_append, List.mem_append] at hc
  obtain hc | hc | hc := hc
  · exact .inl (n.whole_digits c hc)
  · exact hfraction c hc
  · exact hexponent c hc

theorem notMem_size {c : Char} (hdigit : c.isDigit = false)
    (hmark : c ∉ ['.', 'e', 'E', '+', '-']) : c ∉ n.size := by
  intro hc
  obtain h | h := n.mem_size hc
  · rw [hdigit] at h
    cases h
  · exact hmark h

end Numeral

/-- What has no mark of a base, no separator and no mark of a big integer is read as a decimal. -/
theorem numberValue?_decimal (h : ∀ c ∈ ['_', 'n', 'x', 'X', 'o', 'O', 'b', 'B'], c ∉ cs) :
    Literal.numberValue? (String.ofList cs) = Decimal.double? cs := by
  simp only [List.forall_mem_cons] at h
  have hfilter : cs.filter (· ≠ '_') = cs := by
    refine List.filter_eq_self.2 fun c hc => ?_
    have hne : c ≠ '_' := by
      rintro rfl
      exact h.1 hc
    simpa using hne
  have hlast : cs.getLast? ≠ some 'n' := fun hlast => h.2.1 (List.mem_of_getLast? hlast)
  simp only [Literal.numberValue?, String.toList_ofList, hfilter, if_neg hlast]
  split
  all_goals first | rfl | simp_all

theorem exponentValue?_text (e : Exponent) : Decimal.exponentValue? e.text = some e.value := by
  obtain ⟨mark, sign, digits, hmark, hsign, hne, hdigits⟩ := e
  have hvalue := unsignedValue?_decimal hdigits hne
  simp only [Exponent.text, Exponent.value]
  unfold Decimal.exponentValue?
  simp only [if_pos hmark]
  obtain rfl | rfl | rfl := hsign
  · obtain ⟨d, ds, rfl⟩ := List.exists_cons_of_ne_nil hne
    have hd : d.isDigit = true := hdigits d List.mem_cons_self
    rw [List.nil_append]
    split
    next heq => cases heq; cases hd
    next heq => cases heq; cases hd
    · simp [hvalue]
  · simp [hvalue]
  · simp [hvalue]

namespace Numeral

variable (n : Numeral)

theorem exponentValue?_exponentText : Decimal.exponentValue? n.exponentText =
    some ((n.exponent.map Exponent.value).getD 0) := by
  rw [exponentText]
  cases n.exponent with
  | none => rfl
  | some e => exact exponentValue?_text e

theorem unsignedDouble?_size : Decimal.unsignedDouble? n.size = some n.magnitude := by
  have hexponent : Starts (·.isDigit = false) n.exponentText := by
    rw [← List.append_nil n.exponentText]
    exact starts_exponent n.isExponent starts_nil rfl rfl
  have hpoint : ∀ r, n.exponentText ≠ '.' :: r := by
    intro r hr
    obtain h | ⟨mark, sign, digits, h, hmark, -⟩ := n.isExponent
    · rw [h] at hr
      cases hr
    · rw [h] at hr
      obtain rfl := (List.cons.inj hr).1
      exact absurd hmark (by decide)
  have hdigits : Digits (n.whole ++ n.fraction) :=
    List.forall_mem_append.2 ⟨n.whole_digits, n.fraction_digits⟩
  have hvalue := unsignedValue?_decimal hdigits (by simp [n.whole_ne_nil])
  have hrest : Starts (·.isDigit = false) (n.fractionText ++ n.exponentText) :=
    starts_fraction n.isFraction hexponent rfl
  rw [Decimal.unsignedDouble?]
  simp only [size, hrest.takeWhile_append n.whole_digits, List.drop_left]
  by_cases hempty : n.fraction = []
  · rw [hempty, List.append_nil] at hvalue
    simp [fractionText, hempty, hvalue, n.exponentValue?_exponentText, magnitude]
  · simp [fractionText, hempty, hexponent.takeWhile_append n.fraction_digits, hvalue,
      n.exponentValue?_exponentText, magnitude]

/-- The numeral without its sign has its magnitude as its value. -/
theorem numberValue?_size : Literal.numberValue? (String.ofList n.size) = some n.magnitude := by
  have hmarks : ∀ c ∈ ['_', 'n', 'x', 'X', 'o', 'O', 'b', 'B'],
      c.isDigit = false ∧ c ∉ ['.', 'e', 'E', '+', '-'] := by simp
  rw [numberValue?_decimal fun c hc => n.notMem_size (hmarks c hc).1 (hmarks c hc).2]
  obtain ⟨d, ds, hwhole⟩ := List.exists_cons_of_ne_nil n.whole_ne_nil
  have hd : d.isDigit = true := n.whole_digits d (by simp [hwhole])
  have hsize : n.size = d :: (ds ++ (n.fractionText ++ n.exponentText)) := by simp [size, hwhole]
  rw [← n.unsignedDouble?_size, hsize, Decimal.double?]
  · rintro cs heq
    cases heq
    cases hd
  · rintro cs heq
    cases heq
    cases hd

end Numeral

end HandlerWeave.JsonText
