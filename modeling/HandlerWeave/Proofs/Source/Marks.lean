import HandlerWeave.Proofs.Source.Lexemes

/-!
What the grammar sees of a token, and the marks of a text that is put together from words, numerals,
quoted strings and punctuation. Each part is read on its own as long as nothing behind it continues
it, so a text is read from its end to its front.
-/
namespace HandlerWeave.Source

open Lexer

structure Mark where
  kind : Token.Kind
  text : String
  /-- A line break separates it from the mark before. -/
  line : Bool
deriving DecidableEq, Repr

def Token.mark (t : Token) : Mark := ⟨t.kind, t.text, t.newlineBefore⟩

/-- The mark at the end of every text. -/
def Mark.final : Mark := ⟨.endOfFile, "", true⟩

/-- Wherever the text stands, behind a line break or not, it is read as these marks. -/
def Scans (line : Bool) (cs : List Char) (ms : List Mark) : Prop :=
  ∀ before gap offset, gap.contains '\n' = line →
    (scan before gap offset 0 cs).map Token.mark = ms

variable {line : Bool} {c : Char} {cs rest : List Char} {ms : List Mark} {kind : Token.Kind}
  {s w : String}

theorem scans_nil : Scans line [] [.final] := fun _ _ _ _ => rfl

theorem Scans.lex {source : String} (h : Scans false source.toList ms) :
    (lex source).map Token.mark = ms := h none [] 0 rfl

theorem scan_skip (before : Option Token) (gap : List Char) (offset : Nat) (n : Nat)
    (cs : List Char) : scan before gap offset n cs = scan before gap offset 0 (cs.drop n) := by
  induction n generalizing cs with
  | zero => rfl
  | succ n ih =>
      cases cs with
      | nil => rfl
      | cons c cs => rw [scan, ih, List.drop_succ_cons]

theorem lexeme_blank (hc : isBlank c = true) (before : Option Token) (cs : List Char) :
    lexeme before c cs = (.gap, prefixLength isBlank cs) := by
  unfold lexeme
  rw [if_pos hc]

/-- A blank is read like the rest of a run of blanks that it starts. -/
theorem scan_blank (hc : isBlank c = true) (before : Option Token) (gap : List Char)
    (offset : Nat) (cs : List Char) :
    scan before gap offset 0 (c :: cs) =
      scan before (gap ++ [c]) (offset + c.utf8Size) 0 cs := by
  rw [scan, lexeme_blank hc]
  cases cs with
  | nil => simp [prefixLength, Text.byteLength]
  | cons d ds =>
      cases hd : isBlank d with
      | false => simp [prefixLength, hd, Text.byteLength]
      | true =>
          rw [scan, lexeme_blank hd, prefixLength_cons hd]
          simp only [scan, List.take_succ_cons, Text.byteLength, List.append_assoc,
            List.singleton_append, Nat.add_assoc]

theorem Scans.space (h : Scans line cs ms) : Scans line (' ' :: cs) ms := by
  intro before gap offset hgap
  rw [scan_blank (by decide)]
  exact h _ _ _ (by simpa using hgap)

theorem Scans.newline (h : Scans true cs ms) : Scans line ('\n' :: cs) ms := by
  intro before gap offset hgap
  rw [scan_blank (by decide)]
  exact h _ _ _ (by simp)

/-- A token that is recognised here, and what follows it. -/
theorem scan_lexeme {before : Option Token} {cs : List Char}
    (hlexeme : lexeme before c (cs ++ rest) = (.token kind, cs.length)) (gap : List Char)
    (offset : Nat) :
    let token : Token := ⟨kind, String.ofList gap, String.ofList (c :: cs), offset⟩
    scan before gap offset 0 (c :: (cs ++ rest)) =
      token :: scan (some token) [] (offset + Text.byteLength (c :: cs)) 0 rest := by
  intro token
  rw [scan, hlexeme]
  simp only [List.take_left]
  rw [scan_skip, List.drop_left]

theorem Scans.token {cs : List Char} (hkind : kind ≠ .endOfFile)
    (hlexeme : ∀ before, lexeme before c (cs ++ rest) = (.token kind, cs.length))
    (h : Scans false rest ms) :
    Scans line (c :: (cs ++ rest)) (⟨kind, String.ofList (c :: cs), line⟩ :: ms) := by
  intro before gap offset hgap
  have hend : (kind == .endOfFile) = false := by simpa using hkind
  rw [scan_lexeme (hlexeme before), List.map_cons, h _ _ _ rfl]
  simp only [Token.mark, Token.newlineBefore, hend, String.toList_ofList, hgap, Bool.false_or]

/-- A word ends in front of everything that is no part of one, a point among it. -/
theorem Scans.part (hw : IsWord w) (hrest : Starts (isWordPart · = false) rest)
    (h : Scans false rest ms) : Scans line (w.toList ++ rest) (⟨.word, w, line⟩ :: ms) := by
  obtain ⟨c, cs, hlist, hlexeme⟩ := lexeme_of_isWord hw
  have htoken : Scans line (c :: (cs ++ rest)) (⟨.word, String.ofList (c :: cs), line⟩ :: ms) :=
    .token (by decide) (fun before => hlexeme before rest hrest) h
  rwa [← hlist, String.ofList_toList, ← List.cons_append, ← hlist] at htoken

theorem Scans.word (hw : IsWord w) (hrest : Edge rest) (h : Scans false rest ms) :
    Scans line (w.toList ++ rest) (⟨.word, w, line⟩ :: ms) := .part hw hrest.endsWord h

theorem Scans.numeral (hw : IsNumeral w) (hrest : Edge rest) (h : Scans false rest ms) :
    Scans line (w.toList ++ rest) (⟨.number, w, line⟩ :: ms) := by
  obtain ⟨c, cs, hlist, hlexeme⟩ := hw
  have htoken : Scans line (c :: (cs ++ rest)) (⟨.number, String.ofList (c :: cs), line⟩ :: ms) :=
    .token (by decide) (fun before => hlexeme before rest hrest) h
  rwa [← hlist, String.ofList_toList, ← List.cons_append, ← hlist] at htoken

theorem lexeme_mark (h : mark? c = some kind) (before : Option Token) (cs : List Char) :
    lexeme before c cs = (.token kind, 0) := by
  unfold mark? at h
  split at h <;> cases h <;> rfl

theorem Scans.mark (hkind : mark? c = some kind) (h : Scans false rest ms) :
    Scans line (c :: rest) (⟨kind, String.ofList [c], line⟩ :: ms) := by
  refine @Scans.token _ _ _ _ _ [] ?_ (fun before => lexeme_mark hkind before rest) h
  rintro rfl
  unfold mark? at hkind
  split at hkind <;> cases hkind

/-- A sign of equality that is not the front of an arrow. -/
theorem Scans.equals (hrest : Starts (· ≠ '>') rest) (h : Scans false rest ms) :
    Scans line ('=' :: rest) (⟨.equals, "=", line⟩ :: ms) := by
  refine @Scans.token _ _ _ _ _ [] (by decide) (fun before => ?_) h
  cases rest with
  | nil => rfl
  | cons c rest =>
      have hc : c ≠ '>' := hrest c rfl
      have hplain : isBlank '=' = false ∧ isWordStart '=' = false ∧ '='.isDigit = false := by
        decide
      unfold lexeme
      simp only [hplain, List.nil_append, Bool.false_eq_true, if_false]
      split
      next heq => cases heq; exact absurd rfl hc
      · rfl

theorem body_escaped {delimiter : Char} (hc : c ≠ '\n') (cs : List Char) :
    body delimiter ('\\' :: c :: cs) = (body delimiter cs).grow 2 := by
  rw [body, if_neg hc]

theorem body_plain {delimiter : Char} (hback : c ≠ '\\') (hc : c ≠ delimiter) (hbreak : c ≠ '\n')
    (cs : List Char) : body delimiter (c :: cs) = (body delimiter cs).grow 1 := by
  rw [body, if_neg hc]
  · simp [hbreak]
  · rintro rfl
    exact absurd rfl hback
  · rintro d r rfl
    exact absurd rfl hback

theorem Lexer.Body.grow_grow (b : Body) (m n : Nat) : (b.grow m).grow n = b.grow (m + n) := by
  cases b <;> simp [Body.grow, Nat.add_assoc]

open Text.Quoted in
/-- The closing quote is the first that no backslash stands before. -/
theorem body_encode (hs : '\n' ∉ cs) :
    body '\'' (encode cs ++ '\'' :: rest) = .closed ((encode cs).length + 1) := by
  induction cs with
  | nil => rfl
  | cons c cs ih =>
      simp only [List.mem_cons, not_or] at hs
      have hc : c ≠ '\n' := fun h => hs.1 h.symm
      by_cases hspecial : c = '\\' ∨ c = '\''
      · rw [encode, if_pos hspecial, List.cons_append, List.cons_append, body_escaped hc, ih hs.2]
        rfl
      · simp only [not_or] at hspecial
        rw [encode, if_neg (not_or.2 hspecial), List.cons_append,
          body_plain hspecial.1 hspecial.2 hc, ih hs.2]
        rfl

open Text.Quoted in
theorem decode_skip (n : Nat) (cs : List Char) : decode n cs = decode 0 (cs.drop n) := by
  induction n generalizing cs with
  | zero => rfl
  | succ n ih =>
      cases cs with
      | nil => rfl
      | cons c cs => rw [decode, ih, List.drop_succ_cons]

open Text.Quoted in
theorem decode_escape {text : List Char} {n : Nat} (h : escape cs = (text, n)) :
    decode 0 ('\\' :: cs) = text ++ decode 0 (cs.drop n) := by
  rw [decode, if_pos rfl, h]
  exact congrArg (text ++ ·) (decode_skip n cs)

open Text.Quoted in
theorem decode_encode (cs : List Char) : decode 0 (encode cs) = cs := by
  induction cs with
  | nil => rfl
  | cons c cs ih =>
      by_cases hc : c = '\\' ∨ c = '\''
      · rw [encode, if_pos hc]
        obtain rfl | rfl := hc <;> simp [decode, escape, ih]
      · have hback : c ≠ '\\' := fun h => hc (.inl h)
        rw [encode, if_neg hc, decode, if_neg hback, ih]

theorem toList_quote (s : String) :
    (Text.quote s).toList = '\'' :: (Text.Quoted.encode s.toList ++ ['\'']) := by
  simp [Text.quote, String.toList_append]

/-- What is read of a literal is what is read of its body. -/
theorem unquote_delimited (delimiter : Char) (body : List Char) :
    Text.unquote (String.ofList (delimiter :: (body ++ [delimiter]))) =
      String.ofList (Text.Quoted.decode 0 body) := by
  have htext : String.ofList (delimiter :: (body ++ [delimiter])) =
      String.singleton delimiter ++ String.ofList body ++ String.singleton delimiter := by
    rw [← String.toList_inj]
    simp [String.toList_append]
  have hsize : ¬ (String.ofList (delimiter :: (body ++ [delimiter]))).utf8ByteSize < 2 := by
    have hdelimiter := delimiter.utf8Size_pos
    rw [htext, String.utf8ByteSize_append, String.utf8ByteSize_append,
      String.utf8ByteSize_singleton]
    omega
  simp only [Text.unquote, if_neg hsize, String.toList_ofList, List.drop_succ_cons, List.drop_zero,
    List.dropLast_concat]

theorem unquote_quote (s : String) : Text.unquote (Text.quote s) = s := by
  rw [← String.ofList_toList (s := Text.quote s), toList_quote, unquote_delimited, decode_encode,
    String.ofList_toList]

theorem Scans.quoted (hs : '\n' ∉ s.toList) (h : Scans false rest ms) :
    Scans line ((Text.quote s).toList ++ rest) (⟨.string, Text.quote s, line⟩ :: ms) := by
  have hlexeme : ∀ before, lexeme before '\'' (Text.Quoted.encode s.toList ++ ['\''] ++ rest) =
      (.token Token.Kind.string, (Text.Quoted.encode s.toList ++ ['\'']).length) := by
    intro before
    have hdef : ∀ cs, lexeme before '\'' cs = Lexer.quoted .string '\'' cs := fun _ => rfl
    rw [hdef, List.append_assoc, List.singleton_append, Lexer.quoted, body_encode hs,
      List.length_append]
    rfl
  have htoken : Scans line _ (_ :: ms) := .token (by decide) hlexeme h
  rwa [← toList_quote, String.ofList_toList, ← List.cons_append, ← toList_quote] at htoken

end HandlerWeave.Source
