import HandlerWeave.Proofs.Source.Marks
import HandlerWeave.Proofs.Source.Size

/-!
Literals between delimiters. What is read of a body takes any character behind a backslash, a line
break among them, but no token takes a line break there. So a literal is one token exactly if its
body has none behind a backslash; otherwise the literal falls to pieces in front of the first one.
-/
namespace HandlerWeave.Source

open Lexer

inductive Delimiter
  | single | double | backtick
deriving DecidableEq, Repr

namespace Delimiter

def char : Delimiter → Char
  | single => '\''
  | double => '"'
  | backtick => '`'

def kind : Delimiter → Token.Kind
  | single | double => .string
  | backtick => .template

theorem lexeme_char (d : Delimiter) (before : Option Token) (cs : List Char) :
    lexeme before d.char cs = quoted d.kind d.char cs := by
  cases d <;> rfl

theorem kind_ne_stray (d : Delimiter) : d.kind ≠ .stray := by
  cases d <;> decide

end Delimiter

/-- A part of a body: a character as it is, or one behind a backslash. -/
inductive BodyPart
  | plain (c : Char)
  | escaped (c : Char)
deriving DecidableEq, Repr

namespace BodyPart

def text : BodyPart → List Char
  | plain c => [c]
  | escaped c => ['\\', c]

/-- Only between backticks a line break can stand as it is. -/
def Fits (d : Delimiter) : BodyPart → Prop
  | plain c => c ≠ d.char ∧ c ≠ '\\' ∧ (c = '\n' → d = .backtick)
  | escaped _ => True

instance (d : Delimiter) : (part : BodyPart) → Decidable (part.Fits d)
  | plain c => inferInstanceAs (Decidable (c ≠ d.char ∧ c ≠ '\\' ∧ (c = '\n' → d = .backtick)))
  | escaped _ => inferInstanceAs (Decidable True)

variable {d : Delimiter} {part : BodyPart} {parts : List BodyPart}

/-- A part that is no line break behind a backslash is passed as a whole. -/
theorem body_text (h : part.Fits d) (hpart : part ≠ .escaped '\n') (cs : List Char) :
    body d.char (part.text ++ cs) = (body d.char cs).grow part.text.length := by
  cases part with
  | plain c =>
      obtain ⟨hdelimiter, hback, hbreak⟩ := h
      by_cases hc : c = '\n'
      · obtain rfl := hbreak hc
        subst hc
        rfl
      · exact body_plain hback hdelimiter hc cs
  | escaped c =>
      refine body_escaped ?_ cs
      rintro rfl
      exact hpart rfl

theorem body_flatMap (h : ∀ part ∈ parts, part.Fits d) (hparts : .escaped '\n' ∉ parts)
    (cs : List Char) : body d.char (parts.flatMap text ++ cs) =
      (body d.char cs).grow (parts.flatMap text).length := by
  induction parts with
  | nil =>
      rw [List.flatMap_nil, List.nil_append]
      cases body d.char cs <;> rfl
  | cons part parts ih =>
      obtain ⟨hpart, hrest⟩ := List.forall_mem_cons.1 h
      have hne : part ≠ .escaped '\n' := fun h => hparts (h ▸ List.mem_cons_self)
      have hnone : .escaped '\n' ∉ parts := fun h => hparts (List.mem_cons_of_mem _ h)
      rw [List.flatMap_cons, List.append_assoc, body_text hpart hne, ih hrest hnone,
        Body.grow_grow, List.length_append, Nat.add_comm]

end BodyPart

structure Delimited where
  delimiter : Delimiter
  parts : List BodyPart
  fits : ∀ part ∈ parts, part.Fits delimiter

namespace Delimited

variable (l : Delimited)

def body : List Char := l.parts.flatMap BodyPart.text

def text : String := String.ofList (l.delimiter.char :: (l.body ++ [l.delimiter.char]))

theorem lexeme_text (h : .escaped '\n' ∉ l.parts) (before : Option Token) (rest : List Char) :
    lexeme before l.delimiter.char (l.body ++ [l.delimiter.char] ++ rest) =
      (.token l.delimiter.kind, (l.body ++ [l.delimiter.char]).length) := by
  have hclosed : Lexer.body l.delimiter.char (l.delimiter.char :: rest) = .closed 1 := by
    cases l.delimiter <;> rfl
  rw [l.delimiter.lexeme_char, quoted, List.append_assoc, List.singleton_append, body,
    BodyPart.body_flatMap l.fits h, hclosed, List.length_append, List.length_singleton,
    Nat.add_comm]
  rfl

/-- Without a line break behind a backslash, the literal is the next token wherever it stands. -/
theorem scan_text (h : .escaped '\n' ∉ l.parts) (before : Option Token) (gap : List Char)
    (offset : Nat) (rest : List Char) :
    let token : Token := ⟨l.delimiter.kind, String.ofList gap, l.text, offset⟩
    scan before gap offset 0 (l.text.toList ++ rest) =
      token :: scan (some token) [] token.stop 0 rest := by
  have hlist : l.text.toList ++ rest =
      l.delimiter.char :: (l.body ++ [l.delimiter.char] ++ rest) := by simp [text]
  rw [hlist, scan_lexeme (l.lexeme_text h before rest), Text.byteLength_eq]
  rfl

/-- The first line break behind a backslash ends a stray token in front of the backslash. -/
theorem scan_text_stray {front back : List BodyPart} (h : l.parts = front ++ .escaped '\n' :: back)
    (hfront : .escaped '\n' ∉ front) (before : Option Token) (gap : List Char) (offset : Nat)
    (rest : List Char) :
    let stray : Token := ⟨.stray, String.ofList gap,
      String.ofList (l.delimiter.char :: front.flatMap BodyPart.text), offset⟩
    scan before gap offset 0 (l.text.toList ++ rest) =
      stray :: scan (some stray) [] stray.stop 0
        ('\\' :: '\n' :: (back.flatMap BodyPart.text ++ l.delimiter.char :: rest)) := by
  have hfits : ∀ part ∈ front, part.Fits l.delimiter := fun part hpart =>
    l.fits part (h ▸ List.mem_append_left _ hpart)
  have hlexeme : lexeme before l.delimiter.char (front.flatMap BodyPart.text ++
      '\\' :: '\n' :: (back.flatMap BodyPart.text ++ l.delimiter.char :: rest)) =
        (.token .stray, (front.flatMap BodyPart.text).length) := by
    have hstuck : Lexer.body l.delimiter.char
        ('\\' :: '\n' :: (back.flatMap BodyPart.text ++ l.delimiter.char :: rest)) = .stuck 0 := by
      rw [Lexer.body, if_pos rfl]
    rw [l.delimiter.lexeme_char, quoted, BodyPart.body_flatMap hfits hfront, hstuck]
    simp [Body.grow]
  have hlist : l.text.toList ++ rest = l.delimiter.char :: (front.flatMap BodyPart.text ++
      '\\' :: '\n' :: (back.flatMap BodyPart.text ++ l.delimiter.char :: rest)) := by
    simp [text, body, h, BodyPart.text]
  rw [hlist, scan_lexeme hlexeme, Text.byteLength_eq]
  rfl

/-- The literal is the next token wherever it stands exactly if none of the line breaks in it stands
behind a backslash. -/
theorem scan_text_iff (before : Option Token) (gap : List Char) (offset : Nat) (rest : List Char) :
    scan before gap offset 0 (l.text.toList ++ rest) =
        (let token : Token := ⟨l.delimiter.kind, String.ofList gap, l.text, offset⟩
        token :: scan (some token) [] token.stop 0 rest) ↔
      .escaped '\n' ∉ l.parts := by
  refine ⟨fun h hmem => ?_, fun h => l.scan_text h before gap offset rest⟩
  obtain ⟨front, back, hparts, hfront⟩ := List.eq_append_cons_of_mem hmem
  rw [l.scan_text_stray hparts hfront] at h
  have hkind : Token.Kind.stray = l.delimiter.kind := congrArg Token.kind (List.cons.inj h).1
  exact l.delimiter.kind_ne_stray hkind.symm

end Delimited

/-- A literal, whatever its body holds behind backslashes, is one token up to its closing delimiter,
alone or within a text, exactly if that is no line break; at the first line break there, a stray
token ends in front of its backslash. -/
theorem delimited_token_iff (l : Delimited) :
    (lex l.text = [⟨l.delimiter.kind, "", l.text, 0⟩,
        ⟨.endOfFile, "", "", l.text.utf8ByteSize⟩] ↔ .escaped '\n' ∉ l.parts) ∧
    (∀ before gap offset rest,
      scan before gap offset 0 (l.text.toList ++ rest) =
          (let token : Token := ⟨l.delimiter.kind, String.ofList gap, l.text, offset⟩
          token :: scan (some token) [] token.stop 0 rest) ↔
        .escaped '\n' ∉ l.parts) ∧
    ∀ front back, l.parts = front ++ .escaped '\n' :: back → .escaped '\n' ∉ front →
      ∀ before gap offset rest,
        let stray : Token := ⟨.stray, String.ofList gap,
          String.ofList (l.delimiter.char :: front.flatMap BodyPart.text), offset⟩
        scan before gap offset 0 (l.text.toList ++ rest) =
          stray :: scan (some stray) [] stray.stop 0
            ('\\' :: '\n' :: (back.flatMap BodyPart.text ++ l.delimiter.char :: rest)) := by
  refine ⟨?_, l.scan_text_iff, fun front back h hfront => l.scan_text_stray h hfront⟩
  have halone := l.scan_text_iff none [] 0 []
  rw [List.append_nil] at halone
  rw [← halone]
  simp [lex, scan, Token.stop]

/-- A line break between backticks, and one behind a backslash between single quotes. -/
theorem delimited_token_iff_lineBreaks :
    lex "`a\n\\``" = [⟨.template, "", "`a\n\\``", 0⟩, ⟨.endOfFile, "", "", 6⟩] ∧
      ∀ before gap offset rest,
        let stray : Token := ⟨.stray, String.ofList gap, "'a", offset⟩
        scan before gap offset 0 ("'a\\\nb'".toList ++ rest) =
          stray :: scan (some stray) [] (offset + 2) 0 ('\\' :: '\n' :: 'b' :: '\'' :: rest) :=
  ⟨(delimited_token_iff ⟨.backtick, [.plain 'a', .plain '\n', .escaped '`'], by decide⟩).1.2
      (by decide),
    (delimited_token_iff ⟨.single, [.plain 'a', .escaped '\n', .plain 'b'], by decide⟩).2.2
      [.plain 'a'] [.plain 'b'] rfl (by decide)⟩

/-- A line break that a backslash takes out of a string leaves two stray tokens around a word. -/
theorem continuation_not_token :
    lex "'a\\\nb'" =
        [⟨.stray, "", "'a", 0⟩, ⟨.stray, "", "\\", 2⟩, ⟨.word, "\n", "b", 4⟩,
          ⟨.stray, "", "'", 5⟩, ⟨.endOfFile, "", "", 6⟩] ∧
      lex "'a\\\nb'" ≠ [⟨.string, "", "'a\\\nb'", 0⟩, ⟨.endOfFile, "", "", 6⟩] := by
  decide +kernel

end HandlerWeave.Source
