import HandlerWeave.Proofs.Source.Splitting

/-!
The tokens of a text lie in it one behind the other, each at its place, and nothing but blanks and
complete comments stands in front of a token, between two of them or behind the last one.
-/
namespace HandlerWeave.Source

/-- Blanks and complete comments, in front of the rest of the text. A comment on a line reaches to
the end of the line, any other one to the first star and slash behind its opening. -/
inductive IsGap (rest : List Char) : List Char → Prop
  | nil : IsGap rest []
  | blank {c cs} (hblank : c ∈ [' ', '\t', '\r', '\n', '\x0c']) (h : IsGap rest cs) :
    IsGap rest (c :: cs)
  | lineComment {body cs} (hbody : '\n' ∉ body) (hend : Starts (· = '\n') (cs ++ rest))
    (h : IsGap rest cs) : IsGap rest ('/' :: '/' :: (body ++ cs))
  | blockComment {body cs} (hbody : ¬ ['*', '/'] <:+: body ++ ['*']) (h : IsGap rest cs) :
    IsGap rest ('/' :: '*' :: (body ++ '*' :: '/' :: cs))

/-- The token has the gap, which starts at the offset, and behind it the text. -/
structure Token.Stands (t : Token) (offset : Nat) (gap text : List Char) : Prop where
  gap_eq : t.gap = String.ofList gap
  text_eq : t.text = String.ofList text
  start_eq : t.start = offset + Text.byteLength gap

/-- The gaps and the texts of the tokens make up the characters, the first of which stands at the
offset. Only the last token ends the file. -/
inductive Tiles : Nat → List Char → List Token → Prop
  | file {offset gap t} (hkind : t.kind = .endOfFile) (hstands : t.Stands offset gap [])
    (hgap : IsGap [] gap) : Tiles offset gap [t]
  | token {offset gap c text rest t ts} (hkind : t.kind ≠ .endOfFile)
    (hstands : t.Stands offset gap (c :: text)) (hblank : isBlank c = false)
    (hgap : IsGap (c :: text ++ rest) gap) (h : Tiles t.stop rest ts) :
    Tiles offset (gap ++ (c :: text ++ rest)) (t :: ts)

/-- Where the token stands among the characters, the first of which stands at the offset. -/
structure Place (offset : Nat) (cs : List Char) (t : Token) (front gap text behind : List Char) :
    Prop where
  split : cs = front ++ gap ++ text ++ behind
  stands : t.Stands (offset + Text.byteLength front) gap text
  isGap : IsGap (text ++ behind) gap
  last : t.kind = .endOfFile → text ++ behind = []
  head : t.kind ≠ .endOfFile → ∃ c inner, text = c :: inner ∧ isBlank c = false

variable {c : Char} {cs front gap text behind piece rest : List Char} {before : Option Token}
  {t u : Token} {passed ts ahead : List Token} {offset n : Nat} {source : String}

theorem mem_blanks (h : isBlank c = true) : c ∈ [' ', '\t', '\r', '\n', '\x0c'] := by
  simpa [isBlank, or_assoc] using h

namespace IsGap

theorem append (h : IsGap (piece ++ rest) gap) (h' : IsGap rest piece) :
    IsGap rest (gap ++ piece) := by
  induction h with
  | nil => exact h'
  | blank hblank _ ih => exact .blank hblank ih
  | lineComment hbody hend _ ih =>
      rw [List.cons_append, List.cons_append, List.append_assoc]
      exact .lineComment hbody (by rwa [List.append_assoc]) ih
  | blockComment hbody _ ih =>
      simpa using IsGap.blockComment hbody ih

theorem blanks (h : ∀ c ∈ cs, isBlank c = true) : IsGap rest cs := by
  induction cs with
  | nil => exact .nil
  | cons c cs ih =>
      obtain ⟨hc, hcs⟩ := List.forall_mem_cons.1 h
      exact .blank (mem_blanks hc) (ih hcs)

end IsGap

namespace Lexer

theorem commentLength?_eq_some (h : commentLength? cs = some n) :
    ∃ body rest, cs = body ++ '*' :: '/' :: rest ∧ n = body.length + 2 ∧
      ¬ ['*', '/'] <:+: body ++ ['*'] := by
  induction cs using commentLength?.induct generalizing n with
  | case1 rest =>
      cases h
      exact ⟨[], rest, rfl, rfl, by decide⟩
  | case2 c cs hopen ih =>
      rw [commentLength?] at h
      · obtain ⟨m, hm, rfl⟩ := Option.map_eq_some_iff.1 h
        obtain ⟨body, rest, rfl, rfl, hbody⟩ := ih hm
        refine ⟨c :: body, rest, rfl, rfl, fun hinfix => ?_⟩
        obtain hprefix | hinfix := List.infix_cons_iff.1 hinfix
        · -- the comment would end here
          obtain ⟨rfl, hslash⟩ := List.cons_prefix_cons.1 hprefix
          cases body with
          | nil => cases hslash.eq_of_length rfl
          | cons d body =>
              obtain ⟨rfl, -⟩ := List.cons_prefix_cons.1 hslash
              exact hopen _ rfl rfl
        · exact hbody hinfix
      · exact hopen
  | case3 => cases h

theorem take_prefixLength (p : Char → Bool) (cs : List Char) :
    cs.take (prefixLength p cs) = cs.takeWhile p :=
  (List.prefix_iff_eq_take.1 (List.takeWhile_prefix p)).symm

theorem drop_prefixLength (p : Char → Bool) (cs : List Char) :
    cs.drop (prefixLength p cs) = cs.dropWhile p := by
  calc cs.drop (prefixLength p cs)
      = (cs.takeWhile p ++ cs.dropWhile p).drop (cs.takeWhile p).length := by
        rw [List.takeWhile_append_dropWhile, prefixLength]
    _ = cs.dropWhile p := List.drop_left

theorem slash_gap (h : slash before cs = (.gap, n)) :
    IsGap (cs.drop n) ('/' :: cs.take n) := by
  unfold slash at h
  split at h
  next r =>
    cases h
    rw [Nat.add_comm, List.take_succ_cons, List.drop_succ_cons, take_prefixLength,
      drop_prefixLength]
    have hbody : '\n' ∉ r.takeWhile (· != '\n') := fun hmem => by
      simpa using List.all_eq_true.1 List.all_takeWhile '\n' hmem
    have hend : Starts (· = '\n') (r.dropWhile (· != '\n')) := fun c hc => by
      simpa using starts_dropWhile (· != '\n') r c hc
    simpa using IsGap.lineComment hbody hend .nil
  next r =>
    split at h
    next m hm =>
      cases h
      obtain ⟨body, rest, rfl, rfl, hbody⟩ := commentLength?_eq_some hm
      have hsplit : body ++ '*' :: '/' :: rest = (body ++ ['*', '/']) ++ rest := by simp
      rw [Nat.add_comm, List.take_succ_cons, List.drop_succ_cons, hsplit, List.take_left' (by simp),
        List.drop_left' (by simp)]
      exact .blockComment hbody .nil
    · cases h
  · split at h <;> cases h

theorem lexeme_gap (h : lexeme before c cs = (.gap, n)) : IsGap (cs.drop n) (c :: cs.take n) := by
  obtain ⟨hblank, -⟩ | ⟨rfl, hslash⟩ | ⟨kind, hkind, -⟩ := lexeme_cases before c cs
  · rw [lexeme_blank hblank] at h
    cases h
    rw [take_prefixLength]
    exact .blank (mem_blanks hblank) (.blanks (List.all_eq_true.1 List.all_takeWhile))
  · exact slash_gap (hslash.symm.trans h)
  · rw [h] at hkind
    cases hkind

theorem lexeme_token {kind : Token.Kind} (h : lexeme before c cs = (.token kind, n)) :
    kind ≠ .endOfFile ∧ isBlank c = false := by
  constructor
  · rintro rfl
    exact lexeme_kind before c cs (congrArg Prod.fst h)
  · refine Bool.eq_false_iff.2 fun hblank => ?_
    rw [lexeme_blank hblank] at h
    cases h

/-- The scan keeps to texts whose gap so far is one in front of what is left to read. -/
theorem scan_tiles (cs : List Char) (before : Option Token) (gap : List Char) (offset skip : Nat)
    (hgap : IsGap (cs.drop skip) gap) :
    Tiles offset (gap ++ cs.drop skip)
      (scan before gap (offset + Text.byteLength gap) skip cs) := by
  induction cs generalizing before gap offset skip with
  | nil =>
      rw [List.drop_nil] at hgap ⊢
      rw [List.append_nil, scan]
      exact .file rfl ⟨rfl, rfl, rfl⟩ hgap
  | cons c cs ih =>
      cases skip with
      | succ skip => exact ih before gap offset skip hgap
      | zero =>
          have hsplit (n : Nat) : c :: cs = c :: cs.take n ++ cs.drop n := by simp
          rw [scan, List.drop_zero]
          rw [List.drop_zero] at hgap
          cases hlexeme : lexeme before c cs with
          | mk found n =>
              rw [hsplit n] at hgap ⊢
              cases found with
              | gap =>
                  have htiles := ih before (gap ++ c :: cs.take n) offset n
                    (hgap.append (lexeme_gap hlexeme))
                  rw [byteLength_append, ← Nat.add_assoc] at htiles
                  simpa using htiles
              | token kind =>
                  obtain ⟨hkind, hblank⟩ := lexeme_token hlexeme
                  have htiles := ih
                    (some ⟨kind, String.ofList gap, String.ofList (c :: cs.take n),
                      offset + Text.byteLength gap⟩)
                    [] (offset + Text.byteLength gap + Text.byteLength (c :: cs.take n)) n .nil
                  refine .token hkind ⟨rfl, rfl, rfl⟩ hblank hgap ?_
                  rw [Token.stop, ← Text.byteLength_eq]
                  exact htiles

end Lexer

theorem lex_tiling (source : String) : Tiles 0 source.toList (lex source) :=
  Lexer.scan_tiles source.toList none [] 0 0 .nil

namespace Tiles

theorem offset_le (h : Tiles offset cs ts) (ht : t ∈ ts) : offset ≤ t.start := by
  induction h with
  | file _ hstands _ =>
      obtain rfl := List.mem_singleton.1 ht
      exact hstands.start_eq ▸ Nat.le_add_right _ _
  | @token offset gap _ _ _ u ts _ hstands _ _ _ ih =>
      have hu : offset ≤ u.start := hstands.start_eq ▸ Nat.le_add_right _ _
      obtain rfl | ht := List.mem_cons.1 ht
      · exact hu
      · exact Nat.le_trans hu (Nat.le_trans (Nat.le_add_right _ _) (ih ht))

theorem pairwise (h : Tiles offset cs ts) : ts.Pairwise fun t u => t.stop ≤ u.start := by
  induction h with
  | file => exact List.pairwise_singleton _ _
  | token _ _ _ _ h ih => exact List.pairwise_cons.2 ⟨fun u hu => h.offset_le hu, ih⟩

theorem place (h : Tiles offset cs (passed ++ t :: ahead)) :
    ∃ front gap text behind, Place offset cs t front gap text behind ∧
      offset + Text.byteLength front = passed.getLast?.elim offset Token.stop := by
  induction passed generalizing offset cs with
  | nil =>
      cases h with
      | file hkind hstands hgap =>
          have hplace : Place offset cs t [] cs [] [] :=
            ⟨by simp, hstands, hgap, fun _ => rfl, fun h => absurd hkind h⟩
          exact ⟨_, _, _, _, hplace, rfl⟩
      | @token _ gap c text rest _ _ hkind hstands hblank hgap h =>
          have hplace : Place offset (gap ++ (c :: text ++ rest)) t [] gap (c :: text) rest :=
            ⟨by simp, hstands, hgap, fun h => absurd h hkind, fun _ => ⟨c, text, rfl, hblank⟩⟩
          exact ⟨_, _, _, _, hplace, rfl⟩
  | cons p passed ih =>
      generalize hts : (p :: passed) ++ t :: ahead = ts at h
      cases h with
      | file => simp at hts
      | @token _ gap c text rest _ _ hkind hstands hblank hgap h =>
          obtain ⟨rfl, rfl⟩ := List.cons.inj hts
          obtain ⟨front, gap', text', behind, hplace, hfront⟩ := ih h
          have hstop : p.stop = offset + Text.byteLength (gap ++ c :: text) := by
            rw [Token.stop, hstands.start_eq, hstands.text_eq, ← Text.byteLength_eq,
              Lexer.byteLength_append, Nat.add_assoc]
          have hoffset : offset + Text.byteLength (gap ++ c :: text ++ front) =
              p.stop + Text.byteLength front := by
            rw [hstop, Lexer.byteLength_append (gap ++ c :: text), Nat.add_assoc]
          refine ⟨gap ++ c :: text ++ front, gap', text', behind,
            ⟨?_, hoffset ▸ hplace.stands, hplace.isGap, hplace.last, hplace.head⟩, ?_⟩
          · rw [hplace.split]
            simp
          · rw [hoffset, hfront, List.getLast?_cons]
            cases passed.getLast? <;> rfl

end Tiles

theorem newlineBefore_iff (h : t.kind ≠ .endOfFile) :
    t.newlineBefore = true ↔ '\n' ∈ t.gap.toList := by
  simp [Token.newlineBefore, h]

namespace Place

theorem source_eq (h : Place 0 source.toList t front gap text behind) :
    source = String.ofList front ++ t.gap ++ t.text ++ String.ofList behind := by
  rw [h.stands.gap_eq, h.stands.text_eq]
  apply String.toList_injective
  simpa using h.split

theorem start_eq (h : Place 0 source.toList t front gap text behind) :
    t.start = (String.ofList front ++ t.gap).utf8ByteSize := by
  rw [h.stands.start_eq, h.stands.gap_eq, String.utf8ByteSize_append, ← Text.byteLength_eq,
    ← Text.byteLength_eq, Nat.zero_add]

theorem stop_eq (h : Place 0 source.toList t front gap text behind) :
    t.stop = (String.ofList front ++ t.gap ++ t.text).utf8ByteSize := by
  rw [Token.stop, h.start_eq, ← String.utf8ByteSize_append]

theorem start_isValid (h : Place 0 source.toList t front gap text behind) :
    (⟨t.start⟩ : String.Pos.Raw).IsValid source :=
  String.Pos.Raw.isValid_iff_exists_append.2 ⟨_, t.text ++ String.ofList behind,
    h.source_eq.trans String.append_assoc, congrArg String.Pos.Raw.mk h.start_eq⟩

theorem stop_isValid (h : Place 0 source.toList t front gap text behind) :
    (⟨t.stop⟩ : String.Pos.Raw).IsValid source :=
  String.Pos.Raw.isValid_iff_exists_append.2 ⟨_, _, h.source_eq,
    congrArg String.Pos.Raw.mk h.stop_eq⟩

theorem start_lt_stop (h : Place offset cs t front gap text behind)
    (hkind : t.kind ≠ .endOfFile) : t.start < t.stop := by
  obtain ⟨c, inner, rfl, -⟩ := h.head hkind
  have hpos := c.utf8Size_pos
  rw [Token.stop, h.stands.text_eq, ← Text.byteLength_eq, Text.byteLength]
  omega

theorem start_eq_size (h : Place 0 source.toList t front gap text behind)
    (hkind : t.kind = .endOfFile) : t.start = source.utf8ByteSize := by
  obtain ⟨rfl, rfl⟩ := List.append_eq_nil_iff.1 (h.last hkind)
  have hsource : source = String.ofList front ++ t.gap := by
    simpa [h.stands.text_eq] using h.source_eq
  rw [h.start_eq, ← hsource]

theorem stop_eq_start (h : Place offset cs t front gap text behind)
    (hkind : t.kind = .endOfFile) : t.stop = t.start := by
  obtain ⟨rfl, -⟩ := List.append_eq_nil_iff.1 (h.last hkind)
  rw [Token.stop, h.stands.text_eq]
  rfl

end Place

theorem lex_place (h : lex source = passed ++ t :: ahead) :
    ∃ front gap text behind, Place 0 source.toList t front gap text behind ∧
      (String.ofList front).utf8ByteSize = passed.getLast?.elim 0 Token.stop := by
  obtain ⟨front, gap, text, behind, hplace, hfront⟩ := Tiles.place (h ▸ lex_tiling source)
  rw [Nat.zero_add, Text.byteLength_eq] at hfront
  exact ⟨front, gap, text, behind, hplace, hfront⟩

theorem exists_place (h : t ∈ lex source) :
    ∃ front gap text behind, Place 0 source.toList t front gap text behind := by
  obtain ⟨passed, ahead, hsplit⟩ := List.append_of_mem h
  obtain ⟨front, gap, text, behind, hplace, -⟩ := lex_place hsplit
  exact ⟨front, gap, text, behind, hplace⟩

/-- The tokens tile the text. Each one but the last takes up a part of it, behind the tokens in
front of it, and the last one ends the file where the text ends. What stands between a token and the
one before, or the start of the text, is the gap of the token. -/
theorem lex_tiles (source : String) :
    ∃ front file, lex source = front ++ [file] ∧
      (file.kind = .endOfFile ∧ file.start = source.utf8ByteSize ∧
        file.stop = source.utf8ByteSize) ∧
      (∀ t ∈ front, t.kind ≠ .endOfFile ∧ t.start < t.stop ∧ t.stop ≤ source.utf8ByteSize ∧
        (⟨t.start⟩ : String.Pos.Raw).IsValid source ∧
        (⟨t.stop⟩ : String.Pos.Raw).IsValid source) ∧
      (lex source).Pairwise (fun t u => t.stop ≤ u.start) ∧
      ∀ passed t ahead, lex source = passed ++ t :: ahead →
        ∃ before gap behind, source = before ++ gap ++ t.text ++ behind ∧
          before.utf8ByteSize = passed.getLast?.elim 0 Token.stop ∧
          (before ++ gap).utf8ByteSize = t.start ∧
          IsGap (t.text ++ behind).toList gap.toList ∧
          (t.kind ≠ .endOfFile → (t.newlineBefore = true ↔ '\n' ∈ gap.toList)) := by
  obtain ⟨⟨front, file, hfile, hfront⟩, hlex, hstart⟩ := lex_listing source
  have hlex : lex source = front ++ [file] := hlex
  refine ⟨front, file, hlex, ⟨hfile, hstart, ?_⟩, fun t ht => ?_, (lex_tiling source).pairwise,
    fun passed t ahead hsplit => ?_⟩
  · have hmem : file ∈ lex source := hlex ▸ List.mem_append_right _ (.head _)
    obtain ⟨_, _, _, _, hplace⟩ := exists_place hmem
    exact (hplace.stop_eq_start hfile).trans hstart
  · have hmem : t ∈ lex source := hlex ▸ List.mem_append_left _ ht
    obtain ⟨_, _, _, _, hplace⟩ := exists_place hmem
    exact ⟨hfront t ht, hplace.start_lt_stop (hfront t ht), hplace.stop_isValid.le_utf8ByteSize,
      hplace.start_isValid, hplace.stop_isValid⟩
  · obtain ⟨front, gap, text, behind, hplace, hpassed⟩ := lex_place hsplit
    refine ⟨String.ofList front, t.gap, String.ofList behind, hplace.source_eq, hpassed,
      hplace.start_eq.symm, ?_, newlineBefore_iff⟩
    simpa [hplace.stands.gap_eq, hplace.stands.text_eq] using hplace.isGap

end HandlerWeave.Source
