import HandlerWeave.Artifact.Service
import HandlerWeave.Proofs.Source.Size
import HandlerWeave.Proofs.Source.TypeMarks

/-!
Quoted text in the generated files. Quoting and reading undo each other for every string, but a line
break is printed as it is, and no string token goes over one. So what is quoted is one token exactly
if it holds no line break.
-/
namespace HandlerWeave.Source

open Lexer

variable {cs rest : List Char} {s : String} {line : Bool} {ms : List Mark}

open Text.Quoted in
/-- A quoted body gets stuck at the first line break: the character in front of it is never a
backslash on its own, since backslashes come in pairs. -/
theorem body_encode_stuck (hs : '\n' ∈ cs) (rest : List Char) :
    ∃ n, body '\'' (encode cs ++ rest) = .stuck n := by
  induction cs with
  | nil => cases hs
  | cons c cs ih =>
      by_cases hc : c = '\n'
      · subst hc
        exact ⟨0, rfl⟩
      · obtain ⟨n, hn⟩ := ih ((List.mem_cons.1 hs).resolve_left fun h => hc h.symm)
        by_cases hspecial : c = '\\' ∨ c = '\''
        · refine ⟨n + 2, ?_⟩
          rw [encode, if_pos hspecial, List.cons_append, List.cons_append, body_escaped hc, hn]
          rfl
        · refine ⟨n + 1, ?_⟩
          simp only [not_or] at hspecial
          rw [encode, if_neg (not_or.2 hspecial), List.cons_append,
            body_plain hspecial.1 hspecial.2 hc, hn]
          rfl

theorem lexeme_quote (hs : '\n' ∉ cs) (before : Option Token) (rest : List Char) :
    lexeme before '\'' (Text.Quoted.encode cs ++ '\'' :: rest) =
      (.token .string, (Text.Quoted.encode cs).length + 1) := by
  change Lexer.quoted .string '\'' _ = _
  rw [Lexer.quoted, body_encode hs]

theorem lexeme_quote_stray (hs : '\n' ∈ cs) (before : Option Token) (rest : List Char) :
    ∃ n, lexeme before '\'' (Text.Quoted.encode cs ++ '\'' :: rest) = (.token .stray, n) := by
  obtain ⟨n, hn⟩ := body_encode_stuck hs ('\'' :: rest)
  refine ⟨n, ?_⟩
  change Lexer.quoted .string '\'' _ = _
  rw [Lexer.quoted, hn]

/-- Wherever a quoted string stands, and whatever follows it, it is the next token exactly if it
goes over no line break. -/
theorem scan_quote_iff (s : String) (before : Option Token) (gap : List Char) (offset : Nat)
    (rest : List Char) :
    scan before gap offset 0 ((Text.quote s).toList ++ rest) =
        (let token : Token := ⟨.string, String.ofList gap, Text.quote s, offset⟩
        token :: scan (some token) [] token.stop 0 rest) ↔
      '\n' ∉ s.toList := by
  rw [toList_quote, List.cons_append]
  constructor
  · intro h hs
    obtain ⟨n, hn⟩ := lexeme_quote_stray hs before rest
    rw [List.append_assoc, List.singleton_append, scan, hn] at h
    have hkind : Token.Kind.stray = .string := congrArg Token.kind (List.cons.inj h).1
    exact absurd hkind (by decide)
  · intro hs
    have hlexeme : lexeme before '\'' (Text.Quoted.encode s.toList ++ ['\''] ++ rest) =
        (.token .string, (Text.Quoted.encode s.toList ++ ['\'']).length) := by
      rw [List.append_assoc, List.singleton_append, lexeme_quote hs before rest, List.length_append]
      rfl
    rw [scan_lexeme hlexeme, Text.byteLength_eq, ← toList_quote, String.ofList_toList]
    rfl

/-- The string that a word or a quoted string stands for where a name or a value is read. -/
def Mark.value? (m : Mark) : Option String :=
  match m.kind with
  | .word => some m.text
  | .string => some (Text.unquote m.text)
  | _ => none

/-- What the words and the quoted strings of a text stand for, in the order written. -/
def valuesIn (text : String) : List String := ((lex text).map Token.mark).filterMap Mark.value?

theorem Scans.valuesIn {text : String} (h : Scans false text.toList ms) :
    valuesIn text = ms.filterMap Mark.value? := by
  rw [Source.valuesIn, h.lex]

@[simp] theorem Mark.value?_string (s : String) (line : Bool) :
    Mark.value? ⟨.string, Text.quote s, line⟩ = some s := congrArg some (unquote_quote s)

@[simp] theorem Mark.value?_nameMark (name : String) (line : Bool) :
    ((nameMark name).onLine line).value? = some name := by
  rw [nameMark]
  cases Text.isIdentifier name with
  | true => rfl
  | false => exact Mark.value?_string name line

theorem valuesIn_quote (hs : '\n' ∉ s.toList) : valuesIn (Text.quote s) = [s] := by
  have hscan : Scans false ((Text.quote s).toList ++ []) _ := .quoted hs scans_nil
  rw [List.append_nil] at hscan
  rw [hscan.valuesIn]
  exact congrArg (fun value => [value]) (unquote_quote s)

theorem valuesIn_memberName (hs : '\n' ∉ s.toList) : valuesIn (Text.memberName s) = [s] := by
  have hscan : Scans false ((Text.memberName s).toList ++ []) _ := .memberName hs edge_nil scans_nil
  rw [List.append_nil] at hscan
  rw [hscan.valuesIn, List.filterMap_cons, Mark.value?_nameMark]
  rfl

theorem valuesIn_enumMember {name : String} (hname : '\n' ∉ name.toList) (hs : '\n' ∉ s.toList) :
    valuesIn (Declaration.enumMemberText ⟨name, some (.string s)⟩) = [name, s] := by
  have hvalue : Scans false ('=' :: ' ' :: ((Text.quote s).toList ++ [','])) _ :=
    .equals (by simp [Starts]) (.space (.quoted hs (.sign (by decide) scans_nil)))
  have hscan : Scans false ((Text.memberName name).toList ++
      ' ' :: '=' :: ' ' :: ((Text.quote s).toList ++ [','])) _ :=
    .memberName hname (edge_cons.2 (by decide)) (.space hvalue)
  have htext : (Declaration.enumMemberText ⟨name, some (.string s)⟩).toList =
      (Text.memberName name).toList ++ ' ' :: '=' :: ' ' :: ((Text.quote s).toList ++ [',']) := by
    simp [Declaration.enumMemberText, String.toList_append]
  rw [← htext] at hscan
  rw [hscan.valuesIn, List.filterMap_cons, Mark.value?_nameMark]
  exact congrArg (fun value => [name, value]) (unquote_quote s)

/-- A query entry names its key first, and behind it the parameter when that has another name. -/
theorem valuesIn_queryEntry {p : BoundParam} (hkey : '\n' ∉ p.key.toList) (hname : IsWord p.name) :
    valuesIn (Artifact.Service.queryEntry p) =
      if p.key = p.name then [p.key] else [p.key, p.name] := by
  have hlast : Scans false (p.name.toList ++ []) _ := .name hname edge_nil scans_nil
  rw [List.append_nil] at hlast
  by_cases h : p.key = p.name
  · rw [Artifact.Service.queryEntry, if_pos h, if_pos h, hlast.valuesIn, h]
    rfl
  · have hscan : Scans false ((Text.memberName p.key).toList ++ ':' :: ' ' :: p.name.toList) _ :=
      .memberName hkey (edge_cons.2 (by decide)) (.sign (by decide) (.space hlast))
    have htext : (Text.memberName p.key ++ ": " ++ p.name).toList =
        (Text.memberName p.key).toList ++ ':' :: ' ' :: p.name.toList := by
      simp [String.toList_append]
    rw [← htext] at hscan
    rw [Artifact.Service.queryEntry, if_neg h, if_neg h, hscan.valuesIn, List.filterMap_cons,
      Mark.value?_nameMark]
    rfl

/-- Reading undoes quoting for every string. What is quoted is one string token, alone or within a
text, exactly if the string holds no line break, and then literal types, member names, enum values
and query keys stand for the string they were made from. -/
theorem quote_readable (s : String) :
    Text.unquote (Text.quote s) = s ∧
    (lex (Text.quote s) =
        [⟨.string, "", Text.quote s, 0⟩, ⟨.endOfFile, "", "", (Text.quote s).utf8ByteSize⟩] ↔
      '\n' ∉ s.toList) ∧
    (∀ before gap offset rest,
      scan before gap offset 0 ((Text.quote s).toList ++ rest) =
          (let token : Token := ⟨.string, String.ofList gap, Text.quote s, offset⟩
          token :: scan (some token) [] token.stop 0 rest) ↔
        '\n' ∉ s.toList) ∧
    ('\n' ∉ s.toList →
      (∀ scope, valuesIn ((TypeNode.literal (.string s)).text scope) = [s]) ∧
      valuesIn (Text.memberName s) = [s] ∧
      (∀ name, '\n' ∉ name.toList →
        valuesIn (Declaration.enumMemberText ⟨name, some (.string s)⟩) = [name, s]) ∧
      ∀ p : BoundParam, p.key = s → IsWord p.name →
        valuesIn (Artifact.Service.queryEntry p) = if s = p.name then [s] else [s, p.name]) := by
  refine ⟨unquote_quote s, ?_, scan_quote_iff s, fun hs => ⟨fun scope => ?_, valuesIn_memberName hs,
    fun name hname => valuesIn_enumMember hname hs, ?_⟩⟩
  · have halone := scan_quote_iff s none [] 0 []
    rw [List.append_nil] at halone
    rw [← halone]
    simp [lex, scan, Token.stop]
  · have htext : (TypeNode.literal (.string s)).text scope = Text.quote s := by
      simp [TypeNode.text, TypeNode.pieces, Piece.print, Piece.text, LiteralType.text]
    rw [htext, valuesIn_quote hs]
  · rintro p rfl hname
    exact valuesIn_queryEntry hs hname

/-- A quote and a backslash take nothing from the string. -/
theorem quote_readable_escapes :
    '\n' ∉ "it's \\".toList ∧ valuesIn (Text.memberName "it's \\") = ["it's \\"] := by
  have hs : '\n' ∉ "it's \\".toList := by decide
  exact ⟨hs, ((quote_readable "it's \\").2.2.2 hs).2.1⟩

/-- Two strings that never close, and a word between them. -/
theorem quote_lineBreak_unreadable :
    lex (Text.quote "a\nb") =
        [⟨.stray, "", "'a", 0⟩, ⟨.word, "\n", "b", 3⟩, ⟨.stray, "", "'", 4⟩,
          ⟨.endOfFile, "", "", 5⟩] ∧
      lex (Text.quote "a\nb") ≠
        [⟨.string, "", Text.quote "a\nb", 0⟩, ⟨.endOfFile, "", "", 5⟩] := by
  decide +kernel

end HandlerWeave.Source
