import HandlerWeave.Proofs.Source.Marks
import HandlerWeave.Proofs.Source.Size

/-!
How a text splits into tokens. The last token ends the file, and no other does. A line break ends
every lexeme that the end of the text ends, other than a blank, an open comment and an open
template, so the tokens of a text stay what they are when more lines follow. A semicolon or a space
ends what a line break does, but for a comment that goes on to the end of its line and for a slash
that a later one turns into a pattern.
-/
namespace HandlerWeave.Source

/-- The tokens of a text: the last one ends the file, and no other does. -/
structure Listing where
  front : List Token
  file : Token
  file_kind : file.kind = .endOfFile
  front_kind : ∀ t ∈ front, t.kind ≠ .endOfFile

def Listing.tokens (l : Listing) : List Token := l.front ++ [l.file]

variable {c stop : Char} {cs rest more gap : List Char} {before : Option Token}
    {offset skip n : Nat}
  {p : Char → Bool}

namespace Lexer

theorem byteLength_append (cs ds : List Char) :
    Text.byteLength (cs ++ ds) = Text.byteLength cs + Text.byteLength ds := by
  simp only [Text.byteLength_eq, String.ofList_append, String.utf8ByteSize_append]

/-- What starts at a character: a gap at a blank, one of several things at a slash, and else a
token. -/
theorem lexeme_cases (before : Option Token) (c : Char) (cs : List Char) :
    (isBlank c = true ∧ (lexeme before c cs).1 = .gap) ∨
      (c = '/' ∧ lexeme before c cs = slash before cs) ∨
      ∃ kind, (lexeme before c cs).1 = .token kind ∧ kind ≠ .endOfFile := by
  have hquoted (kind : Token.Kind) (delimiter : Char) (hkind : kind ≠ .endOfFile) :
      ∃ found, (quoted kind delimiter cs).1 = .token found ∧ found ≠ .endOfFile := by
    unfold quoted
    split
    · exact ⟨kind, rfl, hkind⟩
    · exact ⟨.stray, rfl, nofun⟩
  unfold lexeme
  split
  next hblank => exact .inl ⟨hblank, rfl⟩
  split
  · exact .inr (.inr ⟨_, rfl, nofun⟩)
  split
  · exact .inr (.inr ⟨_, rfl, nofun⟩)
  split
  · exact .inr (.inl ⟨rfl, rfl⟩)
  iterate 3
    exact .inr (.inr (hquoted _ _ nofun))
  all_goals refine .inr (.inr ?_)
  · split
    · split <;> exact ⟨_, rfl, nofun⟩
    · exact ⟨_, rfl, nofun⟩
  · split
    · exact ⟨_, rfl, nofun⟩
    · split <;> exact ⟨_, rfl, nofun⟩
    · exact ⟨_, rfl, nofun⟩
  · split <;> exact ⟨_, rfl, nofun⟩
  · split
    next kind hmark =>
      refine ⟨kind, rfl, ?_⟩
      rintro rfl
      unfold mark? at hmark
      split at hmark <;> cases hmark
    · exact ⟨_, rfl, nofun⟩

theorem lexeme_kind (before : Option Token) (c : Char) (cs : List Char) :
    (lexeme before c cs).1 ≠ .token .endOfFile := by
  intro heq
  obtain ⟨-, h⟩ | ⟨-, h⟩ | ⟨kind, h, hkind⟩ := lexeme_cases before c cs
  · rw [h] at heq
    cases heq
  · have hslash := slash_kind before cs
    rw [h] at heq
    simp [heq] at hslash
  · rw [h] at heq
    cases heq
    exact hkind rfl

/-- The end of the file is told after all other tokens, at the end of the text. -/
theorem scan_listing (cs : List Char) (before : Option Token) (gap : List Char)
    (offset skip : Nat) :
    ∃ front end_gap, scan before gap offset skip cs =
        front ++ [⟨.endOfFile, end_gap, "", offset + Text.byteLength (cs.drop skip)⟩] ∧
      ∀ t ∈ front, t.kind ≠ .endOfFile := by
  induction cs generalizing before gap offset skip with
  | nil => exact ⟨[], String.ofList gap, by simp [scan, Text.byteLength], by simp⟩
  | cons c cs ih =>
      cases skip with
      | succ skip => exact ih before gap offset skip
      | zero =>
          have hend (n : Nat) : offset + Text.byteLength (c :: cs.take n) +
              Text.byteLength (cs.drop n) = offset + Text.byteLength (c :: cs) := by
            rw [Text.byteLength, Text.byteLength, Nat.add_assoc, Nat.add_assoc, ← byteLength_append,
              List.take_append_drop]
          rw [scan]
          cases hlexeme : lexeme before c cs with
          | mk found n =>
              cases found with
              | gap =>
                  have h := ih before (gap ++ c :: cs.take n)
                    (offset + Text.byteLength (c :: cs.take n)) n
                  rwa [hend] at h
              | token kind =>
                  obtain ⟨front, end_gap, heq, hfront⟩ := ih
                    (some ⟨kind, String.ofList gap, String.ofList (c :: cs.take n), offset⟩) []
                    (offset + Text.byteLength (c :: cs.take n)) n
                  rw [hend] at heq
                  refine ⟨_ :: front, end_gap, congrArg (List.cons _) heq,
                    List.forall_mem_cons.2 ⟨?_, hfront⟩⟩
                  rintro rfl
                  exact lexeme_kind before c cs (by rw [hlexeme])

def stops : List Char := ['\n', ';', ' ']

theorem eq_false_of_stops (hstop : stop ∈ stops) (hp : stops.any p = false) : p stop = false :=
  Bool.eq_false_iff.2 fun htrue => Bool.eq_false_iff.1 hp (List.any_eq_true.2 ⟨stop, hstop, htrue⟩)

theorem ne_of_stops (hstop : stop ∈ stops) (hc : c ∉ stops) : stop ≠ c := by
  rintro rfl
  exact hc hstop

theorem drop_append (h : n ≤ cs.length) (rest : List Char) :
    (cs ++ rest).drop n = cs.drop n ++ rest := by
  rw [List.drop_append, Nat.sub_eq_zero_of_le h, List.drop_zero]

theorem prefixLength_stop (hp : p stop = false) :
    prefixLength p (cs ++ stop :: more) = prefixLength p cs := by
  induction cs with
  | nil => simp [prefixLength, hp]
  | cons c cs ih =>
      cases hc : p c with
      | true => rw [List.cons_append, prefixLength_cons hc, prefixLength_cons hc, ih]
      | false => simp [prefixLength, hc]

theorem prefixLength_le (p : Char → Bool) (cs : List Char) : prefixLength p cs ≤ cs.length :=
  (List.takeWhile_sublist p).length_le

/-- A run that ends in the text ends there whatever follows the text. -/
theorem prefixLength_of_lt (h : prefixLength p cs < cs.length) (rest : List Char) :
    prefixLength p (cs ++ rest) = prefixLength p cs := by
  induction cs with
  | nil => cases h
  | cons c cs ih =>
      cases hc : p c with
      | true =>
          rw [prefixLength_cons hc, List.length_cons] at h
          rw [List.cons_append, prefixLength_cons hc, prefixLength_cons hc, ih (by omega)]
      | false => simp [prefixLength, hc]

theorem prefixLength_drop (hp : p stop = false) (h : n ≤ cs.length) :
    prefixLength p ((cs ++ stop :: more).drop n) = prefixLength p (cs.drop n) := by
  rw [drop_append h, prefixLength_stop hp]

theorem bigMarkLength_stop (hstop : stop ∈ stops) :
    bigMarkLength (cs ++ stop :: more) = bigMarkLength cs := by
  unfold bigMarkLength
  cases cs with
  | nil =>
      have hne := ne_of_stops hstop (c := 'n') (by decide)
      split <;> simp_all
  | cons c cs => split <;> simp_all

theorem signLength_stop (hstop : stop ∈ stops) :
    signLength (cs ++ stop :: more) = signLength cs := by
  unfold signLength
  cases cs with
  | nil =>
      have hplus := ne_of_stops hstop (c := '+') (by decide)
      have hminus := ne_of_stops hstop (c := '-') (by decide)
      split <;> simp_all
  | cons c cs => split <;> simp_all

theorem signLength_le (cs : List Char) : signLength cs ≤ cs.length := by
  unfold signLength
  cases cs with
  | nil => exact Nat.le_refl _
  | cons c cs => split <;> simp_all

theorem exponentLength_stop (hstop : stop ∈ stops) :
    exponentLength (cs ++ stop :: more) = exponentLength cs := by
  cases cs with
  | nil =>
      exact exponentLength_eq_zero (starts_cons.2 ⟨ne_of_stops hstop (by decide),
        ne_of_stops hstop (by decide)⟩)
  | cons c cs =>
      by_cases hc : c = 'e' ∨ c = 'E'
      · rw [List.cons_append, exponentLength_cons hc, exponentLength_cons hc, signLength_stop hstop,
          prefixLength_drop (eq_false_of_stops hstop (by decide)) (signLength_le cs)]
      · rw [List.cons_append, exponentLength_eq_zero, exponentLength_eq_zero] <;>
          exact starts_cons.2 (not_or.1 hc)

theorem pointLength_stop (hstop : stop ∈ stops) :
    pointLength (cs ++ stop :: more) = pointLength cs := by
  unfold pointLength
  cases cs with
  | nil =>
      have hne := ne_of_stops hstop (c := '.') (by decide)
      split <;> simp_all
  | cons c cs =>
      by_cases hc : c = '.'
      · subst hc
        exact congrArg (1 + ·) (prefixLength_stop (eq_false_of_stops hstop (by decide)))
      · split <;> simp_all

theorem decimalLength_stop (hstop : stop ∈ stops) :
    decimalLength (cs ++ stop :: more) = decimalLength cs := by
  obtain ⟨w, r, rfl, hw, hwhole⟩ := exists_prefix isDigitPart cs
  obtain ⟨f, r, rfl, hf, hpoint⟩ := exists_fraction r
  obtain ⟨e, r, rfl, he, hmark⟩ := exists_exponent r
  obtain ⟨b, r, rfl, hb, hbig⟩ := exists_bigMark r
  have hline (xs ys : List Char) : xs ++ ys ++ stop :: more = xs ++ (ys ++ stop :: more) :=
    List.append_assoc xs ys _
  rw [decimalLength_parts hwhole hpoint hmark hbig]
  rw [hline, hline, hline, hline]
  refine decimalLength_parts ?_ ?_ ?_ ?_ <;> simp only [← hline]
  · rw [prefixLength_stop (eq_false_of_stops hstop (by decide)), hwhole]
  · rw [pointLength_stop hstop, hpoint]
  · rw [exponentLength_stop hstop, hmark]
  · rw [bigMarkLength_stop hstop, hbig]

theorem basedLength?_stop (hstop : stop ∈ stops) :
    basedLength? (cs ++ stop :: more) = basedLength? cs := by
  cases cs with
  | nil =>
      refine basedLength?_eq_none (starts_cons.2 ?_)
      simp only [stops, List.mem_cons, List.not_mem_nil, or_false] at hstop
      obtain rfl | rfl | rfl := hstop <;> rfl
  | cons mark cs =>
      rw [List.cons_append, basedLength?_cons, basedLength?_cons]
      cases hpart : basedPart? mark with
      | none => rfl
      | some part =>
          have hp : stops.any part = false := by
            unfold basedPart? at hpart
            split at hpart
            · cases hpart; decide
            · split at hpart
              · cases hpart; decide
              · split at hpart <;> cases hpart
                decide
          simp only [Option.bind_some, digitsLength?,
            prefixLength_stop (eq_false_of_stops hstop hp),
            drop_append (prefixLength_le part cs), bigMarkLength_stop hstop]

theorem numberLength_stop (hstop : stop ∈ stops) :
    numberLength c (cs ++ stop :: more) = numberLength c cs := by
  rw [numberLength, numberLength, basedLength?_stop hstop, decimalLength_stop hstop]

theorem numberLength_le (c : Char) (cs : List Char) : numberLength c cs ≤ cs.length := by
  obtain ⟨number, rest, rfl, hlength, -⟩ := exists_number c cs
  rw [← hlength, List.length_append]
  omega

theorem fractionLength_stop (hstop : stop ∈ stops) :
    fractionLength (cs ++ stop :: more) = fractionLength cs := by
  rw [fractionLength, fractionLength, prefixLength_stop (eq_false_of_stops hstop (by decide)),
    drop_append (prefixLength_le _ cs), exponentLength_stop hstop]

theorem fractionLength_le (cs : List Char) : fractionLength cs ≤ cs.length := by
  obtain ⟨number, rest, rfl, hlength, -, -⟩ := exists_pointed cs
  rw [← hlength, List.length_append]
  omega

theorem commentLength?_append {n : Nat} (rest : List Char) (h : commentLength? cs = some n) :
    commentLength? (cs ++ rest) = some n ∧ n ≤ cs.length := by
  fun_induction commentLength? cs generalizing n with
  | case1 r => cases h; exact ⟨rfl, by simp⟩
  | case2 c cs hne ih =>
      obtain ⟨m, hm, rfl⟩ := Option.map_eq_some_iff.1 h
      obtain ⟨hline, hle⟩ := ih hm
      refine ⟨?_, Nat.succ_le_succ hle⟩
      rw [List.cons_append, commentLength?, hline]
      · rfl
      · intro r hstar hslash
        cases cs with
        | nil => cases hm
        | cons d cs => exact hne cs hstar (by rw [(List.cons.inj hslash).1])
  | case3 => cases h

/-- A pattern that is open in front of this text is not closed on its line. -/
def ClosesNone (rest : List Char) : Prop :=
  ∀ inClass escaped, patternLength? inClass escaped rest = none

theorem closesNone_line (more : List Char) : ClosesNone ('\n' :: more) := fun _ _ => rfl

theorem closesNone_semicolon (more : List Char) : ClosesNone (';' :: '\n' :: more) :=
  fun inClass escaped => by cases escaped <;> rfl

theorem patternLength?_closesNone (hstop : stop ∈ stops) (hnone : ClosesNone (stop :: more))
    (inClass escaped : Bool) (cs : List Char) :
    patternLength? inClass escaped (cs ++ stop :: more) = patternLength? inClass escaped cs := by
  have halpha : Char.isAlpha stop = false := eq_false_of_stops hstop (by decide)
  induction cs generalizing inClass escaped with
  | nil => exact hnone inClass escaped
  | cons c cs ih =>
      simp only [List.cons_append, patternLength?, ih, prefixLength_stop halpha]

/-- What closes a pattern closes it in front of other text too. -/
theorem patternLength?_stop (hstop : stop ∈ stops) {inClass escaped : Bool}
    (h : patternLength? inClass escaped cs = some n) :
    patternLength? inClass escaped (cs ++ stop :: more) = some n := by
  have halpha : Char.isAlpha stop = false := eq_false_of_stops hstop (by decide)
  induction cs generalizing inClass escaped n with
  | nil => cases h
  | cons c cs ih =>
      have hmap {inClass escaped : Bool}
          (h : (patternLength? inClass escaped cs).map (· + 1) = some n) :
          (patternLength? inClass escaped (cs ++ stop :: more)).map (· + 1) = some n := by
        obtain ⟨m, hm, rfl⟩ := Option.map_eq_some_iff.1 h
        rw [ih hm]
        rfl
      rw [List.cons_append]
      unfold patternLength? at h ⊢
      rw [prefixLength_stop halpha]
      split at h
      · cases h
      next hbreak =>
        rw [if_neg hbreak]
        iterate 4
          split at h
          · exact (if_pos ‹_›).trans (hmap h)
          rw [if_neg ‹_›]
        split at h
        · exact (if_pos ‹_›).trans h
        · exact (if_neg ‹_›).trans (hmap h)

theorem patternLength?_le {inClass escaped : Bool}
    (h : patternLength? inClass escaped cs = some n) :
    n ≤ cs.length := by
  induction cs generalizing inClass escaped n with
  | nil => cases h
  | cons c cs ih =>
      have hmap {inClass escaped : Bool}
          (h : (patternLength? inClass escaped cs).map (· + 1) = some n) : n ≤ cs.length + 1 := by
        obtain ⟨m, hm, rfl⟩ := Option.map_eq_some_iff.1 h
        exact Nat.succ_le_succ (ih hm)
      unfold patternLength? at h
      split at h
      · cases h
      iterate 4
        split at h
        · exact hmap h
      split at h
      · cases h
        have := prefixLength_le Char.isAlpha cs
        rw [List.length_cons]
        omega
      · exact hmap h

theorem head?_stop {d : Char} (hstop : stop ≠ d) :
    (cs ++ stop :: more).head? = some d ↔ cs.head? = some d := by
  cases cs with
  | nil => simp [hstop]
  | cons c cs => rfl

/-- A slash that opens no pattern here may open one when other text follows. -/
theorem regexLength?_stop (hstop : stop ∈ stops)
    (hslash : ClosesNone (stop :: more) ∨ (regexLength? cs).isSome = true) :
    regexLength? (cs ++ stop :: more) = regexLength? cs := by
  simp only [regexLength?, head?_stop (ne_of_stops hstop (c := '/') (by decide))] at hslash ⊢
  split
  · rfl
  next hhead =>
    rw [if_neg hhead] at hslash
    obtain hnone | hsome := hslash
    · exact patternLength?_closesNone hstop hnone _ _ _
    · obtain ⟨n, hn⟩ := Option.isSome_iff_exists.1 hsome
      rw [hn, patternLength?_stop hstop hn]

theorem regexLength?_le (h : regexLength? cs = some n) : n ≤ cs.length := by
  unfold regexLength? at h
  split at h
  · cases h
  · exact patternLength?_le h

/-- Text behind a slash that starts no comment. -/
theorem slash_other (hline : cs.head? ≠ some '/') (hblock : cs.head? ≠ some '*') :
    slash before cs = match (if opensRegex before then regexLength? cs else none) with
      | some n => (.token .regex, n)
      | none => (.token .operator, 0) := by
  unfold slash
  split
  · exact absurd rfl hline
  · exact absurd rfl hblock
  · rfl

/-- A comment that reaches the end of the text goes on behind it, and so does a slash that finds
another one there. -/
theorem slash_stop (hstop : stop ∈ stops)
    (hslash : ClosesNone (stop :: more) ∨
      (slash before cs = (.token .operator, 0) → opensRegex before = false)) :
    (slash before (cs ++ stop :: more) = slash before cs ∧ (slash before cs).2 ≤ cs.length) ∨
      slash before cs = (.token .stray, cs.length) ∨
      (stop ≠ '\n' ∧ slash before cs = (.gap, cs.length)) := by
  by_cases hline : cs.head? = some '/'
  · obtain ⟨r, rfl⟩ := List.head?_eq_some_iff.1 hline
    have hle := prefixLength_le (· != '\n') r
    rw [List.cons_append, slash, slash]
    by_cases hbreak : stop = '\n'
    · rw [prefixLength_stop (by rw [hbreak]; decide)]
      exact .inl ⟨rfl, by rw [List.length_cons]; omega⟩
    by_cases hend : prefixLength (· != '\n') r = r.length
    · exact .inr (.inr ⟨hbreak, by rw [hend, List.length_cons, Nat.add_comm]⟩)
    · rw [prefixLength_of_lt (Nat.lt_of_le_of_ne hle hend)]
      exact .inl ⟨rfl, by rw [List.length_cons]; omega⟩
  by_cases hblock : cs.head? = some '*'
  · obtain ⟨r, rfl⟩ := List.head?_eq_some_iff.1 hblock
    cases hcomment : commentLength? r with
    | none => exact .inr (.inl (by rw [slash, hcomment]))
    | some n =>
        obtain ⟨hagain, hle⟩ := commentLength?_append (stop :: more) hcomment
        refine .inl ⟨?_, ?_⟩
        · rw [List.cons_append, slash, slash, hagain, hcomment]
        · rw [slash, hcomment, List.length_cons]
          show 1 + n ≤ r.length + 1
          omega
  have hhead {d : Char} (hd : d ∉ stops) (h : cs.head? ≠ some d) :
      (cs ++ stop :: more).head? ≠ some d := mt (head?_stop (ne_of_stops hstop hd)).1 h
  rw [slash_other (hhead (by decide) hline) (hhead (by decide) hblock)]
  rw [slash_other hline hblock] at hslash ⊢
  refine .inl ⟨?_, ?_⟩
  · cases hopens : opensRegex before with
    | false => rfl
    | true =>
        rw [hopens] at hslash
        rw [if_pos rfl, if_pos rfl, regexLength?_stop hstop]
        refine hslash.imp_right fun hdivides => Option.isSome_iff_ne_none.2 fun hnone => ?_
        exact absurd (hdivides (by rw [if_pos rfl, hnone])) (by decide)
  · split
    next n hregex => exact regexLength?_le (Option.ite_none_right_eq_some.1 hregex).2
    · exact Nat.zero_le _

def Body.length : Body → Nat
  | closed n => n
  | stuck n => n

theorem Body.length_grow (b : Body) (n : Nat) : (b.grow n).length = b.length + n := by
  cases b <;> rfl

theorem body_le (delimiter : Char) (cs : List Char) : (body delimiter cs).length ≤ cs.length := by
  fun_induction body delimiter cs with
  | case1 => exact Nat.le_refl _
  | case2 => exact Nat.zero_le _
  | case3 cs => exact Nat.zero_le _
  | case4 c cs hc ih =>
      rw [Body.length_grow]
      exact Nat.succ_le_succ (Nat.succ_le_succ ih)
  | case5 cs => exact Nat.succ_le_succ (Nat.zero_le _)
  | case6 c cs => exact Nat.zero_le _
  | case7 c cs _ _ _ _ ih =>
      rw [Body.length_grow]
      exact Nat.succ_le_succ ih

theorem body_other {delimiter : Char} (hback : c ≠ '\\') (cs : List Char) :
    body delimiter (c :: cs) =
      if c = delimiter then .closed 1
      else if c = '\n' && delimiter != '`' then .stuck 0
      else (body delimiter cs).grow 1 := by
  rw [body]
  · rintro rfl
    exact absurd rfl hback
  · rintro d r rfl
    exact absurd rfl hback

/-- A body that the text ends in is stuck at its end, or in front of its last backslash. -/
theorem body_append (delimiter : Char) (cs rest : List Char) :
    body delimiter (cs ++ rest) = body delimiter cs ∨
      ∃ n, body delimiter cs = .stuck n ∧ (cs.drop n = [] ∨ cs.drop n = ['\\']) := by
  have hgrow {cs' cs'' : List Char} (n : Nat) (ih : body delimiter (cs'' ++ rest) =
        body delimiter cs'' ∨
        ∃ n, body delimiter cs'' = .stuck n ∧ (cs''.drop n = [] ∨ cs''.drop n = ['\\']))
      (hdrop : ∀ m, cs'.drop (m + n) = cs''.drop m) :
      (body delimiter (cs'' ++ rest)).grow n = (body delimiter cs'').grow n ∨
      ∃ m, (body delimiter cs'').grow n = .stuck m ∧ (cs'.drop m = [] ∨ cs'.drop m = ['\\']) := by
    refine ih.imp (congrArg (Body.grow n)) fun ⟨m, hstuck, hend⟩ => ⟨m + n, ?_, ?_⟩
    · rw [hstuck]
      rfl
    · rwa [hdrop]
  match cs with
  | [] => exact .inr ⟨0, rfl, .inl rfl⟩
  | c :: cs =>
      by_cases hback : c = '\\'
      · subst hback
        match cs with
        | [] => exact .inr ⟨0, rfl, .inr rfl⟩
        | c :: cs =>
            by_cases hc : c = '\n'
            · subst hc
              exact .inl rfl
            · rw [List.cons_append, List.cons_append, body_escaped hc, body_escaped hc]
              exact hgrow 2 (body_append delimiter cs rest) fun m => rfl
      · rw [List.cons_append, body_other hback, body_other hback]
        split
        · exact .inl rfl
        · split
          · exact .inl rfl
          · exact hgrow 1 (body_append delimiter cs rest) fun m => rfl

/-- What is quoted here is quoted alike in front of other text, or it is text at the end that
starts no token, with a last backslash behind it perhaps. -/
theorem quoted_append {kind : Token.Kind} {delimiter : Char} :
    Lexer.quoted kind delimiter (cs ++ rest) = Lexer.quoted kind delimiter cs ∨
      ∃ n, Lexer.quoted kind delimiter cs = (.token .stray, n) ∧
        (cs.drop n = [] ∨ cs.drop n = ['\\']) := by
  obtain heq | ⟨n, hstuck, hend⟩ := body_append delimiter cs rest
  · exact .inl (by rw [Lexer.quoted, Lexer.quoted, heq])
  · exact .inr ⟨n, by rw [Lexer.quoted, hstuck], hend⟩

theorem quoted_le (kind : Token.Kind) (delimiter : Char) (cs : List Char) :
    (Lexer.quoted kind delimiter cs).2 ≤ cs.length := by
  have hle := body_le delimiter cs
  unfold Lexer.quoted
  split
  next n h => rwa [h] at hle
  next n h => rwa [h] at hle

theorem any_head?_stop (hp : p stop = false) :
    (cs ++ stop :: more).head?.any p = cs.head?.any p := by
  cases cs with
  | nil => exact hp
  | cons c cs => rfl

theorem lexeme_point_stop (hstop : stop ∈ stops) (before : Option Token) (cs more : List Char) :
    lexeme before '.' (cs ++ stop :: more) = lexeme before '.' cs ∧
      (lexeme before '.' cs).2 ≤ cs.length := by
  have hpoint := (ne_of_stops hstop (c := '.') (by decide)).symm
  have hdots : ['.', '.'] <+: cs ++ stop :: more ↔ ['.', '.'] <+: cs := by
    match cs with
    | [] | [d] | d :: e :: r => simp [hpoint]
  have hdigit : Char.isDigit stop = false := eq_false_of_stops hstop (by decide)
  simp only [lexeme_point, hdots, any_head?_stop hdigit, fractionLength_stop hstop, true_and]
  split
  next h => exact h.length_le
  · split
    · exact fractionLength_le cs
    · exact Nat.zero_le _

/-- A lexeme is read alike in front of a stop, or it is text at the end that starts no token, with a
last backslash behind it perhaps, or a comment that a line break would have to end. -/
theorem lexeme_stop (hblank : isBlank c = false) (hstop : stop ∈ stops)
    (hslash : ClosesNone (stop :: more) ∨
      (c = '/' → lexeme before c cs = (.token .operator, 0) → opensRegex before = false)) :
    (lexeme before c (cs ++ stop :: more) = lexeme before c cs ∧
        (lexeme before c cs).2 ≤ cs.length) ∨
      (∃ n, lexeme before c cs = (.token .stray, n) ∧ (cs.drop n = [] ∨ cs.drop n = ['\\'])) ∨
      (stop ≠ '\n' ∧ lexeme before c cs = (.gap, cs.length)) := by
  by_cases hstart : isWordStart c = true
  · rw [lexeme_wordStart hstart, lexeme_wordStart hstart,
      prefixLength_stop (eq_false_of_stops hstop (by decide))]
    exact .inl ⟨rfl, prefixLength_le _ _⟩
  by_cases hdigit : c.isDigit = true
  · rw [lexeme_digit hdigit, lexeme_digit hdigit, numberLength_stop hstop]
    exact .inl ⟨rfl, numberLength_le _ _⟩
  by_cases hhash : c = '#'
  · subst hhash
    rw [lexeme_hash, lexeme_hash, any_head?_stop (eq_false_of_stops hstop (by decide)),
      prefixLength_stop (eq_false_of_stops hstop (by decide))]
    refine .inl ⟨rfl, ?_⟩
    split
    · exact prefixLength_le _ _
    · exact Nat.zero_le _
  by_cases hpoint : c = '.'
  · subst hpoint
    exact .inl (lexeme_point_stop hstop before cs more)
  unfold lexeme at hslash ⊢
  simp only [hblank, hstart, hdigit, Bool.false_eq_true, if_false] at hslash ⊢
  split
  · obtain heq | hstray | hcomment := slash_stop hstop (hslash.imp_right fun h => h rfl)
    · exact .inl heq
    · exact .inr (.inl ⟨_, hstray, .inl List.drop_length⟩)
    · exact .inr (.inr hcomment)
  iterate 3
    exact quoted_append.imp (fun h => ⟨h, quoted_le _ _ _⟩) .inl
  · exact absurd rfl hhash
  · exact absurd rfl hpoint
  · refine .inl ?_
    cases cs with
    | nil =>
        refine ⟨?_, Nat.le_refl _⟩
        have hne := ne_of_stops hstop (c := '>') (by decide)
        split <;> simp_all
    | cons d cs =>
        by_cases hd : d = '>'
        · subst hd
          exact ⟨rfl, Nat.succ_le_succ (Nat.zero_le _)⟩
        · constructor <;> (split <;> simp_all)
  · split <;> exact .inl ⟨rfl, Nat.zero_le _⟩

end Lexer

/-- A slash of its own, which divides. -/
def Token.divides (t : Token) : Bool := t.kind == .operator && t.text == "/"

/-- No slash of its own stands among these tokens where one could open a pattern. -/
def Settled : Option Token → List Token → Prop
  | _, [] => True
  | before, t :: ts => (t.divides = true → Lexer.opensRegex before = false) ∧ Settled (some t) ts

namespace Lexer

/-- The tokens of a text that starts with one are that token and those of the text behind it. -/
theorem scan_token {kind : Token.Kind} {front : List Token} {file : Token}
    (hlexeme : lexeme before c cs = (.token kind, n))
    (h : scan before gap offset 0 (c :: cs) = front ++ [file]) :
    let first : Token := ⟨kind, String.ofList gap, String.ofList (c :: cs.take n), offset⟩
    ∃ ts, front = first :: ts ∧
      scan (some first) [] (offset + Text.byteLength (c :: cs.take n)) n cs = ts ++ [file] := by
  intro first
  obtain ⟨ts, gap, hscan, -⟩ := scan_listing cs (some first) []
    (offset + Text.byteLength (c :: cs.take n)) n
  rw [scan, hlexeme] at h
  have h : first :: scan (some first) [] _ n cs = front ++ [file] := h
  rw [hscan, ← List.cons_append] at h
  obtain ⟨rfl, hfile⟩ := List.append_inj' h rfl
  exact ⟨ts, rfl, by rw [hscan, hfile]⟩

/-- The tokens of a text that does not end in text that starts no token stay what they are in front
of a stop. -/
theorem scan_stop (hstop : stop ∈ stops) {front : List Token} {file : Token}
    (hskip : skip ≤ cs.length) (h : scan before gap offset skip cs = front ++ [file])
    (hstray : ∀ t ∈ front.getLast?, t.kind ≠ .stray) (hgap : stop = '\n' ∨ file.gap = "")
    (hslash : ClosesNone (stop :: more) ∨ Settled before front) :
    scan before gap offset skip (cs ++ stop :: more) =
      front ++ scan (front.getLast?.or before) file.gap.toList file.start 0 (stop :: more) := by
  induction cs generalizing before gap offset skip front with
  | nil =>
      obtain rfl : skip = 0 := Nat.le_zero.1 hskip
      obtain ⟨rfl, rfl⟩ : front = [] ∧ file = ⟨.endOfFile, String.ofList gap, "", offset⟩ := by
        rw [scan, ← List.nil_append [_]] at h
        obtain ⟨hfront, hfile⟩ := List.append_inj' h rfl
        exact ⟨hfront.symm, (List.cons.inj hfile).1.symm⟩
      simp
  | cons c cs ih =>
      cases skip with
      | succ skip => exact ih (Nat.le_of_succ_le_succ hskip) h hstray hslash
      | zero =>
          by_cases hblank : isBlank c = true
          · rw [List.cons_append, scan_blank hblank]
            rw [scan_blank hblank] at h
            exact ih (Nat.zero_le _) h hstray hslash
          have hdivides : c = '/' → lexeme before c cs = (.token .operator, 0) →
              Settled before front → opensRegex before = false := by
            rintro rfl hlexeme hsettled
            obtain ⟨ts, rfl, -⟩ := scan_token hlexeme h
            exact hsettled.1 rfl
          obtain ⟨heq, hle⟩ | ⟨n, hstuck, hend⟩ | ⟨hbreak, hcomment⟩ :=
            lexeme_stop (Bool.eq_false_iff.2 hblank) hstop
              (hslash.imp_right fun h hc hlexeme => hdivides hc hlexeme h)
          · rw [List.cons_append, scan, heq]
            cases hlexeme : lexeme before c cs with
            | mk found n =>
                rw [hlexeme] at hle
                have htake : (cs ++ stop :: more).take n = cs.take n :=
                  List.take_append_of_le_length hle
                simp only [htake]
                cases found with
                | gap =>
                    rw [scan, hlexeme] at h
                    exact ih hle h hstray hslash
                | token kind =>
                    obtain ⟨front, rfl, hscan⟩ := scan_token hlexeme h
                    rw [List.getLast?_cons] at hstray ⊢
                    dsimp only at hle ⊢
                    rw [ih hle hscan (fun t ht => hstray t (by simp [Option.mem_def.1 ht]))
                      (hslash.imp_right fun h => h.2)]
                    cases front.getLast? <;> rfl
          · rw [scan, hstuck] at h
            dsimp only at h
            rw [scan_skip] at h
            have hlast : ∃ t ∈ front.getLast?, t.kind = .stray := by
              obtain hend | hend := hend
              · rw [hend, scan, ← List.singleton_append] at h
                obtain ⟨rfl, -⟩ := List.append_inj' h rfl
                exact ⟨_, rfl, rfl⟩
              · have hback (before : Option Token) (offset : Nat) :
                    scan before [] offset 0 ['\\'] =
                      [⟨.stray, "", "\\", offset⟩, ⟨.endOfFile, "", "", offset + 1⟩] := rfl
                rw [hend, hback] at h
                obtain ⟨rfl, -⟩ :=
                  List.append_inj' (show [_, _] ++ [_] = front ++ [file] from h) rfl
                exact ⟨_, rfl, rfl⟩
            obtain ⟨t, ht, hkind⟩ := hlast
            exact absurd hkind (hstray t ht)
          · rw [scan, hcomment] at h
            dsimp only at h
            rw [scan_skip, List.drop_length, scan, ← List.nil_append [_]] at h
            obtain ⟨-, hfile⟩ := List.append_inj' h rfl
            obtain rfl := (List.cons.inj hfile).1
            exact absurd (hgap.resolve_left hbreak) (by simp)

/-- Only a slash looks at the token before. -/
theorem lexeme_before {before' : Option Token}
    (h : opensRegex before' = opensRegex before ∨
      ((lexeme before c cs).1 ≠ .token .regex ∧ (lexeme before c cs).1 ≠ .token .operator)) :
    lexeme before' c cs = lexeme before c cs := by
  by_cases hopens : opensRegex before' = opensRegex before
  · have hslash : slash before' cs = slash before cs := by
      unfold slash
      rw [hopens]
    unfold lexeme
    rw [hslash]
  have h := h.resolve_left hopens
  by_cases hc : c = '/'
  · subst hc
    have hlexeme (before : Option Token) : lexeme before '/' cs = slash before cs := rfl
    rw [hlexeme] at h
    rw [hlexeme, hlexeme]
    by_cases hline : cs.head? = some '/'
    · obtain ⟨r, rfl⟩ := List.head?_eq_some_iff.1 hline
      rfl
    by_cases hblock : cs.head? = some '*'
    · obtain ⟨r, rfl⟩ := List.head?_eq_some_iff.1 hblock
      rfl
    rw [slash_other hline hblock] at h
    exfalso
    split at h
    · exact h.1 rfl
    · exact h.2 rfl
  · unfold lexeme
    split
    · rfl
    split
    · rfl
    split
    · rfl
    split
    · exact absurd rfl hc
    all_goals rfl

end Lexer

/-- The token with that many bytes more in front of it. -/
def Token.shift (k : Nat) (t : Token) : Token := { t with start := k + t.start }

/-- The tokens with text in front of the first one. -/
def behind (front : String) : List Token → List Token
  | [] => []
  | t :: ts => { t with gap := front ++ t.gap } :: ts

theorem behind_append {ts : List Token} (hne : ts ≠ []) (front : String) (us : List Token) :
    behind front (ts ++ us) = behind front ts ++ us := by
  cases ts with
  | nil => exact absurd rfl hne
  | cons t ts => rfl

theorem behind_empty (ts : List Token) : behind "" ts = ts := by
  cases ts with
  | nil => rfl
  | cons t ts => simp [behind]

namespace Lexer

theorem scan_head {kind : Token.Kind} (h : (lexeme before c cs).1 = .token kind) (gap : List Char)
    (offset : Nat) : ∃ t ∈ (scan before gap offset 0 (c :: cs)).head?, t.kind = kind := by
  cases hlexeme : lexeme before c cs with
  | mk found n =>
      rw [hlexeme] at h
      rw [scan, hlexeme, show found = .token kind from h]
      exact ⟨_, rfl, rfl⟩

/-- A text is read alike behind blanks and comments, and behind any token that a pattern can follow,
or that a pattern cannot follow if the text starts with no pattern and no operator. -/
theorem scan_shift {before' : Option Token} (front : List Char) (k : Nat) (cs gap : List Char)
    (offset skip : Nat)
    (h : opensRegex before' = opensRegex before ∨
      ∀ t ∈ (scan before gap offset skip cs).head?, t.kind ≠ .regex ∧ t.kind ≠ .operator) :
    scan before' (front ++ gap) (k + offset) skip cs =
      behind (String.ofList front) ((scan before gap offset skip cs).map (Token.shift k)) := by
  induction cs generalizing before before' front gap offset skip with
  | nil => simp [scan, behind, Token.shift, String.ofList_append]
  | cons c cs ih =>
      cases skip with
      | succ skip => exact ih front gap offset skip h
      | zero =>
          have hbefore : lexeme before' c cs = lexeme before c cs := by
            refine lexeme_before (h.imp_right fun h => ⟨fun hregex => ?_, fun hoperator => ?_⟩)
            · obtain ⟨t, ht, hkind⟩ := scan_head hregex gap offset
              exact (h t ht).1 hkind
            · obtain ⟨t, ht, hkind⟩ := scan_head hoperator gap offset
              exact (h t ht).2 hkind
          rw [scan] at h
          rw [scan, scan, hbefore]
          cases hlexeme : lexeme before c cs with
          | mk found n =>
              rw [hlexeme] at h
              cases found with
              | gap => simpa only [List.append_assoc, Nat.add_assoc] using ih front _ _ n h
              | token kind =>
                  have htail :=
                    @ih (some ⟨kind, String.ofList gap, String.ofList (c :: cs.take n), offset⟩)
                    (some ⟨kind, String.ofList (front ++ gap), String.ofList (c :: cs.take n),
                      k + offset⟩)
                    [] [] (offset + Text.byteLength (c :: cs.take n)) n (.inl rfl)
                  rw [String.ofList_nil, behind_empty, ← Nat.add_assoc] at htail
                  dsimp only at htail ⊢
                  rw [List.append_nil] at htail
                  rw [htail]
                  simp [behind, Token.shift, String.ofList_append]

end Lexer

/-- The tokens of a text that other text stands in front of. -/
def placed (front : String) (k : Nat) (ts : List Token) : List Token :=
  behind front (ts.map (Token.shift k))

/-- What is the same of a token wherever it stands. -/
def Token.face (t : Token) : Token.Kind × String := (t.kind, t.text)

theorem placed_faces (front : String) (k : Nat) (ts : List Token) :
    (placed front k ts).map Token.face = ts.map Token.face := by
  cases ts with
  | nil => rfl
  | cons t ts => simp [placed, behind, Token.face, Token.shift]

theorem placed_length (front : String) (k : Nat) (ts : List Token) :
    (placed front k ts).length = ts.length := by
  simpa using congrArg List.length (placed_faces front k ts)

theorem Lexer.opensRegex_congr {before' : Option Token}
    (h : before'.map Token.face = before.map Token.face) :
    opensRegex before' = opensRegex before := by
  cases before with
  | none =>
      rw [Option.map_none, Option.map_eq_none_iff] at h
      rw [h]
  | some t =>
      obtain ⟨u, rfl, hface⟩ := Option.map_eq_some_iff.1 h
      obtain ⟨hkind, htext⟩ := Prod.mk.inj hface
      simp only [opensRegex, hkind, htext]

/-- A text that no blank and no comment ends is read in front of a stop as it is read alone,
wherever it stands. -/
theorem Lexer.scan_placed {text : String} {front : List Token} {file : Token}
    (hlex : lex text = front ++ [file]) (hne : front ≠ []) (hgap : file.gap = "")
    (hstray : ∀ t ∈ front.getLast?, t.kind ≠ .stray) (hstop : stop ∈ stops)
    (hslash : ClosesNone (stop :: more) ∨ Settled none front)
    (hbefore : opensRegex before = opensRegex none ∨
      ∀ t ∈ front.head?, t.kind ≠ .regex ∧ t.kind ≠ .operator) :
    scan before gap offset 0 (text.toList ++ stop :: more) =
      placed (String.ofList gap) offset front ++
        scan (placed (String.ofList gap) offset front).getLast? [] (offset + file.start) 0
          (stop :: more) := by
  have hscan : scan none [] 0 0 (text.toList ++ stop :: more) = _ :=
    scan_stop hstop (Nat.zero_le _) hlex hstray (.inr hgap) hslash
  obtain ⟨t, ts, rfl⟩ := List.exists_cons_of_ne_nil hne
  have hfirst : opensRegex before = opensRegex none ∨
      ∀ u ∈ (scan none [] 0 0 (text.toList ++ stop :: more)).head?, u.kind ≠ .regex ∧
        u.kind ≠ .operator := by
    rw [hscan]
    exact hbefore
  have hshift := scan_shift gap offset (text.toList ++ stop :: more) [] 0 0 hfirst
  have hlast : opensRegex (placed (String.ofList gap) offset (t :: ts)).getLast? =
      opensRegex ((t :: ts).getLast?.or none) :=
    opensRegex_congr (by
      rw [Option.or_none, ← List.getLast?_map, ← List.getLast?_map, placed_faces])
  have hrest := scan_shift [] offset (stop :: more) [] file.start 0 (.inl hlast)
  rw [List.append_nil, Nat.add_zero, hscan, List.map_append, behind_append (by simp),
    hgap] at hshift
  rw [List.append_nil, String.ofList_nil, behind_empty] at hrest
  rw [hshift, hrest]
  rfl

theorem lex_listing (source : String) : ∃ l : Listing, lex source = l.tokens ∧
    l.file.start = source.utf8ByteSize := by
  obtain ⟨front, gap, hscan, hfront⟩ := Lexer.scan_listing source.toList none [] 0 0
  refine ⟨⟨front, _, rfl, hfront⟩, hscan, ?_⟩
  simp [Text.byteLength_eq]

/-- The tokens of two texts on lines of their own are the tokens of both, when the first one ends in
a semicolon. -/
theorem lex_append {s₁ : String} {front : List Token} {file semicolon : Token}
    (h : lex s₁ = front ++ [semicolon] ++ [file]) (hkind : semicolon.kind = .semicolon)
    (s₂ : String) :
    lex (s₁ ++ "\n" ++ s₂) = front ++ [semicolon] ++
      behind (file.gap ++ "\n") ((lex s₂).map (Token.shift (s₁.utf8ByteSize + 1))) := by
  have hstart : file.start = s₁.utf8ByteSize := by
    obtain ⟨l, hl, hfile⟩ := lex_listing s₁
    rw [h, Listing.tokens] at hl
    obtain ⟨-, hl⟩ := List.append_inj' hl rfl
    rw [(List.cons.inj hl).1, hfile]
  have hsplit : (s₁ ++ "\n" ++ s₂).toList = s₁.toList ++ '\n' :: s₂.toList := by
    simp [String.toList_append]
  have hopens : Lexer.opensRegex (some semicolon) = Lexer.opensRegex none := by
    simp [Lexer.opensRegex, hkind]
  rw [lex, hsplit, Lexer.scan_stop (by decide) (Nat.zero_le _) h (by simp [hkind]) (.inl rfl)
    (.inl (Lexer.closesNone_line _)), scan_blank (by decide)]
  simp only [List.getLast?_concat, Option.some_or, hstart]
  have hshift := Lexer.scan_shift (file.gap.toList ++ ['\n']) (s₁.utf8ByteSize + 1) s₂.toList
    [] 0 0 (.inl hopens)
  rw [List.append_nil, String.ofList_append, String.ofList_toList] at hshift
  exact congrArg _ hshift

end HandlerWeave.Source
