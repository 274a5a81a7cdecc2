import HandlerWeave.Proofs.Analysis.Run
import HandlerWeave.Proofs.Source.Items
import HandlerWeave.Proofs.Source.Tiling
import HandlerWeave.Proofs.Text.Lines

/-!
Where a text is wrong. A syntax error is at the start of a token, and the line and the column that an
analysis reports for it tell exactly where that is.
-/
namespace HandlerWeave

open Source
open Text (byteLength)

variable {source : String} {e : SyntaxError}

theorem Source.offset_of_error (h : parse source = .error e) :
    ∃ t ∈ lex source, e.offset = t.start := by
  have hregular := parse_regular source
  rw [h] at hregular
  exact hregular

theorem Analysis.addSource_error (h : parse source = .error e) (tree : FileTree) (a : Analysis)
    {path : String} (hpath : a.module? path = none) :
    addSource path source tree a = (.error (.invalid path (e.position source) e), a) := by
  simp only [addSource, AnalysisM.bind_run, AnalysisM.get_run, hpath, h]
  rfl

/-- A token does not start at a line break. -/
theorem Source.Place.lineBreak_behind {t : Token} {front gap text behind : List Char}
    (h : Place 0 source.toList t front gap text behind) (hkind : t.kind ≠ .endOfFile) :
    0 < byteLength ((text ++ behind).takeWhile (· != '\n')) := by
  obtain ⟨c, inner, rfl, hblank⟩ := h.head hkind
  have hc : c ≠ '\n' := by
    rintro rfl
    cases hblank
  rw [List.cons_append, List.takeWhile_cons_of_pos (by simpa using hc), byteLength]
  exact Nat.lt_of_lt_of_le c.utf8Size_pos (Nat.le_add_right _ _)

/-- A text that is not parsed has an error at the start of one of its tokens. What is reported of it
is a line and a column: the lines above, with their line breaks, and the columns in front of it add
up to the offset, and the line reaches beyond it, or to it where the text ends there. -/
theorem Analysis.addSource_error_position (h : parse source = .error e) :
    (∃ t ∈ lex source, e.offset = t.start ∧
      (t.kind = .endOfFile → e.offset = source.utf8ByteSize)) ∧
    (⟨e.offset⟩ : String.Pos.Raw).IsValid source ∧
    let p := e.position source
    (∀ path tree a, Analysis.module? a path = none →
      addSource path source tree a = (.error (.invalid path p e), a)) ∧
    1 ≤ p.line ∧ 1 ≤ p.column ∧
    byteLength (Text.ended ((Text.lines source).take (p.line - 1))) + (p.column - 1) = e.offset ∧
    ∃ line, (Text.lines source)[p.line - 1]? = some line ∧
      (p.column - 1 < byteLength line ∨
        p.column - 1 = byteLength line ∧ e.offset = source.utf8ByteSize) := by
  obtain ⟨t, ht, hoffset⟩ := offset_of_error h
  obtain ⟨front, gap, text, behind, hplace⟩ := exists_place ht
  have hsplit : source.toList = (front ++ gap) ++ (text ++ behind) := by
    rw [hplace.split, List.append_assoc]
  have hstart : e.offset = byteLength (front ++ gap) := by
    rw [hoffset, hplace.stands.start_eq, Lexer.byteLength_append, Nat.zero_add]
  obtain ⟨hline, hcolumn, hsum, line, hfound, hlength⟩ := Text.ofOffset_lines hsplit
  rw [← hstart] at hline hcolumn hsum hfound hlength
  refine ⟨⟨t, ht, hoffset, fun hkind => hoffset.trans (hplace.start_eq_size hkind)⟩,
    hoffset ▸ hplace.start_isValid, fun path tree a hpath => addSource_error h tree a hpath, hline,
    hcolumn, hsum, line, hfound, ?_⟩
  by_cases hkind : t.kind = .endOfFile
  · refine .inr ⟨?_, hoffset.trans (hplace.start_eq_size hkind)⟩
    rw [← hlength, hplace.last hkind]
    rfl
  · have hbehind := hplace.lineBreak_behind hkind
    rw [← hlength]
    exact .inl (Nat.lt_add_of_pos_right hbehind)

/-- A bracket on the third line, with characters of two bytes on lines above and in front of it. -/
theorem Analysis.addSource_error_position_bracket :
    let source := "// Grüße\nclass A \x7b\n  name = 'ß' + (1];\n\x7d"
    let e : SyntaxError := ⟨.mismatchedBracket (.token "]"), 39⟩
    parse source = .error e ∧ (⟨39⟩ : String.Pos.Raw).IsValid source ∧
      addSource "a.ts" source .empty {} = (.error (.invalid "a.ts" ⟨3, 19⟩ e), {}) ∧
      byteLength (Text.ended ((Text.lines source).take 2)) + 18 = 39 := by
  intro source e
  have h : parse source = .error e := by subst source e; rfl
  have hposition : e.position source = ⟨3, 19⟩ := by decide +kernel
  obtain ⟨-, hvalid, hreported, -, -, hsum, -⟩ := addSource_error_position h
  rw [hposition] at hreported hsum
  exact ⟨h, hvalid, hreported "a.ts" .empty {} rfl, hsum⟩

end HandlerWeave
