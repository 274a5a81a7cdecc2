import HandlerWeave.Proofs.Seam.Texts

/-!
A text behind a statement. Where it starts with a word, nothing that stands in front of it has a say
in how it is read.
-/
namespace HandlerWeave.Source

open Source.Parser

/-- Both places have the same tokens ahead, the first of which is a word. Only what stands in front
of them differs. -/
structure Cursor.Alike (c c' : Cursor) : Prop where
  ahead : c.ahead = c'.ahead
  final : c.final = c'.final
  kind : c.kind = .word

section

variable {α β : Type} {g : Grammar} {c c' : Cursor} {p p' q q' : Parser α} {f f' : α → Parser β}
    {a : α}

namespace Cursor.Alike

theorem tokenAt_eq (h : Alike c c') (n : Nat) : c.tokenAt n = c'.tokenAt n := by
  rw [tokenAt, tokenAt, h.ahead, h.final]

theorem kindAhead_eq (h : Alike c c') (n : Nat) : c.kindAhead n = c'.kindAhead n :=
  congrArg Token.kind (h.tokenAt_eq n)

theorem check_eq (h : Alike c c') (kind : Token.Kind) : c.check kind = c'.check kind :=
  congrArg (· == kind) (h.kindAhead_eq 0)

theorem wordAt_eq (h : Alike c c') (n : Nat) (word : String) : c.wordAt n word = c'.wordAt n word :=
  congrArg (Token.isWord · word) (h.tokenAt_eq n)

theorem seesWord_eq (h : Alike c c') (word : String) : c.seesWord word = c'.seesWord word :=
  h.wordAt_eq 0 word

theorem seesAnyWord_eq (h : Alike c c') (words : List String) :
    c.seesAnyWord words = c'.seesAnyWord words := by
  rw [seesAnyWord, seesAnyWord, funext h.seesWord_eq]

theorem atReexport_eq (h : Alike c c') : Grammar.atReexport c = Grammar.atReexport c' := by
  rw [Grammar.atReexport, Grammar.atReexport, h.seesWord_eq, h.kindAhead_eq, h.kindAhead_eq,
    h.wordAt_eq, h.wordAt_eq]

theorem check_false (h : Alike c c') (kind : Token.Kind) (hne : kind ≠ .word) :
    c.check kind = false ∧ c'.check kind = false := by
  have hcheck : c.check kind = false := by
    rw [Cursor.check, h.kind]
    exact beq_false_of_ne hne.symm
  exact ⟨hcheck, h.check_eq kind ▸ hcheck⟩

theorem ahead_ne (h : Alike c c') (hfile : c.final.kind ≠ .word) : c.ahead ≠ [] := fun hnil =>
  hfile (by
    have hkind := h.kind
    rwa [Cursor.kind, Cursor.kindAhead, Cursor.tokenAt, hnil] at hkind)

/-- Behind the word nothing differs. -/
theorem advance_eq (h : Alike c c') (hfile : c.final.kind ≠ .word) : c.advance = c'.advance := by
  obtain ⟨t, ts, hahead⟩ := List.exists_cons_of_ne_nil (h.ahead_ne hfile)
  rw [Cursor.advance, Cursor.advance, ← h.ahead, hahead, h.final]

end Cursor.Alike

theorem look_eq {f f' : Cursor → Parser β} (h : f c c = f' c' c') :
    (get >>= f) c = (get >>= f') c' := h

theorem cond_eq {b b' : Bool} (hb : b = b') (hp : b = true → p c = p' c')
    (hq : b = false → q c = q' c') :
    (if b = true then p else q) c = (if b' = true then p' else q') c' := by
  subst hb
  cases b with
  | true => exact hp rfl
  | false => exact hq rfl

theorem bind_congr_run (h : p c = p' c') : (p >>= f) c = (p' >>= f) c' := by
  show Except.bind (p c) _ = Except.bind (p' c') _
  rw [h]

theorem bind_stays (hp : p c = .ok (a, c)) (hp' : p' c' = .ok (a, c'))
    (h : f a c = f' a c') : (p >>= f) c = (p' >>= f') c' := by
  show Except.bind (p c) _ = Except.bind (p' c') _
  rw [hp, hp']
  exact h

/-- The parsers do the same, or both give `a` and take nothing. -/
def Steady (a : α) (p p' : Parser α) (c c' : Cursor) : Prop :=
  p c = p' c' ∨ (p c = .ok (a, c) ∧ p' c' = .ok (a, c'))

theorem Steady.stays : Steady a (pure a) (pure a) c c' := .inr ⟨rfl, rfl⟩

theorem Steady.cond {b b' : Bool} (hb : b = b') (hp : b = true → Steady a p p' c c')
    (hq : b = false → Steady a q q' c c') :
    Steady a (if b = true then p else q) (if b' = true then p' else q') c c' := by
  subst hb
  cases b with
  | true => exact hp rfl
  | false => exact hq rfl

namespace Cursor.Alike

variable (h : Alike c c') (hfile : c.final.kind ≠ .word)

include h hfile

theorem advance_run : Parser.advance c = Parser.advance c' :=
  congrArg (fun d => Except.ok ((), d)) (h.advance_eq hfile)

theorem takeWord_run {word : String} (hsees : c.seesWord word = true) :
    takeWord word c = takeWord word c' := by
  rw [takeWord, takeWord, if_pos hsees, if_pos (h.seesWord_eq word ▸ hsees), h.advance_eq hfile]

theorem requireWord_run {word : String} (hsees : c.seesWord word = true) :
    requireWord word c = requireWord word c' := bind_congr_run (h.takeWord_run hfile hsees)

theorem passStatement_run : Grammar.passStatement c = Grammar.passStatement c' := by
  rw [Grammar.passStatement_eq]
  refine bind_congr_run ?_
  rw [iterate, iterate, h.ahead]
  refine bind_congr_run (look_eq ?_)
  have hkind : c'.kind = .word := (h.kindAhead_eq 0).symm.trans h.kind
  rw [h.kind, hkind]
  exact bind_congr_run (h.advance_run hfile)

theorem enumDef_run
    (henum : (c.seesWord "enum" || (c.seesWord "const" && c.wordAt 1 "enum")) = true)
    (modifiers : Modifiers) : g.enumDef modifiers c = g.enumDef modifiers c' := by
  by_cases hconst : c.seesWord "const" = true
  · exact bind_congr_run (h.takeWord_run hfile hconst)
  · have hstays {c : Cursor} (hconst : ¬ c.seesWord "const" = true) :
        takeWord "const" c = .ok (false, c) := if_neg hconst
    refine bind_stays (hstays hconst) (hstays (h.seesWord_eq _ ▸ hconst)) (bind_congr_run
      (h.requireWord_run hfile ?_))
    rwa [Bool.eq_false_iff.2 hconst, Bool.false_and, Bool.or_false] at henum

theorem declaration_run (modifiers : Modifiers) (decorators : List Decorator) :
    g.declaration modifiers decorators c = g.declaration modifiers decorators c' := by
  have hsees := h.seesWord_eq
  refine look_eq (cond_eq (by rw [hsees, h.kindAhead_eq]) (fun hyes => ?_) fun _ =>
    cond_eq (hsees _) (fun hyes => ?_) fun _ =>
    cond_eq (by rw [hsees, h.kindAhead_eq]) (fun hyes => ?_) fun _ =>
    cond_eq (by rw [hsees, hsees, h.wordAt_eq]) (fun hyes => ?_) fun _ =>
    cond_eq (by rw [hsees, h.kindAhead_eq, h.kindAhead_eq]) (fun hyes => ?_) fun _ =>
    cond_eq (by rw [h.seesAnyWord_eq, h.kindAhead_eq]) (fun hyes => ?_) fun _ =>
    bind_congr_run (h.passStatement_run hfile))
  · exact bind_congr_run (bind_congr_run
      (h.requireWord_run hfile (Bool.and_eq_true_iff.1 (Bool.and_eq_true_iff.1 hyes).1).1))
  · exact bind_congr_run (bind_congr_run (h.requireWord_run hfile hyes))
  · exact bind_congr_run (bind_congr_run
      (h.requireWord_run hfile (Bool.and_eq_true_iff.1 hyes).1))
  · exact bind_congr_run (h.enumDef_run hfile hyes modifiers)
  · exact bind_congr_run (bind_congr_run (h.requireWord_run hfile
      (Bool.and_eq_true_iff.1 (Bool.and_eq_true_iff.1 hyes).1).1))
  · exact bind_congr_run (bind_congr_run (h.advance_run hfile))

/-- The words in front of a declaration are read alike, or there are none. -/
theorem modifiers_run : Steady {} Grammar.modifiers Grammar.modifiers c c' := by
  have htaken (m : Modifiers) : Steady none (do Parser.advance; return some m)
      (do Parser.advance; return some m) c c' := .inl (bind_congr_run (h.advance_run hfile))
  have hround : Steady none (Grammar.modifierRound {}) (Grammar.modifierRound {}) c c' :=
    .cond (h.seesWord_eq _)
      (fun _ => .cond (h.atReexport_eq) (fun _ => .stays) fun _ => htaken _) fun _ =>
    .cond rfl (fun _ => .inl (bind_congr_run (h.advance_run hfile))) fun _ =>
    .cond (by rw [h.seesWord_eq, h.kindAhead_eq]) (fun _ => htaken _) fun _ =>
    .cond (by rw [h.seesWord_eq, h.wordAt_eq]) (fun _ => htaken _) fun _ => .stays
  rw [Grammar.modifiers_eq]
  obtain hround | ⟨hnone, hnone'⟩ := hround
  · refine .inl ?_
    rw [iterate, iterate, h.ahead]
    exact bind_congr_run hround
  · exact .inr ⟨bind_eq_ok.2 ⟨none, c, hnone, rfl⟩, bind_eq_ok.2 ⟨none, c', hnone', rfl⟩⟩

theorem decorators_none : g.decorators c = .ok ([], c) ∧ g.decorators c' = .ok ([], c') := by
  obtain ⟨t, ts, hahead⟩ := List.exists_cons_of_ne_nil (h.ahead_ne hfile)
  have hkind : t.kind ≠ .atSign := by
    have hword := h.kind
    rw [Cursor.kind, Cursor.kindAhead, Cursor.tokenAt, hahead] at hword
    have hword : t.kind = .word := hword
    rw [hword]
    decide
  exact ⟨Reads.decorators_none hkind c hahead,
    Reads.decorators_none hkind c' (h.ahead.symm.trans hahead)⟩

theorem statement_run : g.statement c = g.statement c' := by
  obtain ⟨hnone, hnone'⟩ := h.decorators_none (g := g) hfile
  refine bind_stays hnone hnone' ?_
  obtain hmodifiers | ⟨hstays, hstays'⟩ := h.modifiers_run hfile
  · exact bind_congr_run hmodifiers
  exact bind_stays hstays hstays' (look_eq (cond_eq h.atReexport_eq
    (fun _ => bind_congr_run (h.passStatement_run hfile))
    fun _ => bind_stays hnone hnone' (h.declaration_run hfile _ _)))

/-- A statement that starts with a word is read alike behind whatever token. -/
theorem statementRound_run : g.statementRound c = g.statementRound c' := by
  obtain ⟨hend, hend'⟩ := h.check_false Token.Kind.endOfFile (by decide)
  obtain ⟨hsemicolon, hsemicolon'⟩ := h.check_false Token.Kind.semicolon (by decide)
  have hstays {c : Cursor} (hcheck : c.check .semicolon = false) :
      takeKind .semicolon c = .ok (false, c) := if_neg (by simp [hcheck])
  refine look_eq (cond_eq (hend.trans hend'.symm) (fun hyes => ?_) fun _ =>
    bind_stays (hstays hsemicolon) (hstays hsemicolon') (bind_congr_run (h.statement_run hfile)))
  rw [hend] at hyes
  cases hyes

end Cursor.Alike

end

/-- Behind a statement a text that starts with a word is read as it is read alone. -/
theorem parse_behind {source text front : String} {items : List Item} {item : Item} {k : Nat}
    {ts : List Token} {first : Token} (hparse : parse text = .ok items)
    (hfirst : (lex text).head? = some first) (hword : first.kind = .word) (hne : ts ≠ [])
    (hlex : lex source = ts ++ behind front ((lex text).map (Token.shift k)))
    (hreads : ∀ levels next more, ts.length ≤ levels → next.face = first.face →
      next.gap = front ++ first.gap →
      Reads (Grammar.withLevels (levels + 1)).statementRound ts (next :: more) (some (some item))) :
    parse source = .ok (item :: items) := by
  obtain ⟨l₂, hl₂, -⟩ := lex_listing text
  obtain ⟨l, hl, -⟩ := lex_listing source
  obtain ⟨rest, last, hbehind, htwins⟩ := l₂.twins_fresh front k [] (by simp)
  have htokens : l.front ++ [l.file] = ts ++ rest ++ [last] := by
    rw [List.append_assoc, ← hbehind, ← hl₂, ← hlex, hl]
    rfl
  obtain ⟨hfront, hfile⟩ := List.append_inj' htokens rfl
  obtain rfl := (List.cons.inj hfile).1
  have hlength : l.front.length = ts.length + rest.length := by rw [hfront, List.length_append]
  have hpos := List.length_pos_iff.2 hne
  obtain ⟨next, more, rfl, hface, hgap⟩ : ∃ next more, rest = next :: more ∧
      next.face = first.face ∧ next.gap = front ++ first.gap := by
    obtain ⟨more, hmore⟩ := List.head?_eq_some_iff.1 hfirst
    rw [← hl₂, hmore, List.map_cons, behind] at hbehind
    cases rest with
    | nil =>
        obtain ⟨hlast, -⟩ := List.cons.inj hbehind
        have hkind : l.file.kind = .word := hlast ▸ hword
        rw [l.file_kind] at hkind
        cases hkind
    | cons next more =>
        obtain ⟨rfl, -⟩ := List.cons.inj hbehind
        exact ⟨_, _, rfl, rfl, rfl⟩
  have hround := hreads (l.front.length + 1) next more (by omega) hface hgap
    (.between [] l.front l.file) hfront
  have hplace := Cursor.between_advanceBy [] ts (next :: more) l.file
  rw [← hfront, List.nil_append] at hplace
  rw [hplace] at hround
  have halike :
    Cursor.Alike (.between ts (next :: more) l.file) (.between [] (next :: more) l.file) :=
    ⟨rfl, rfl, (Prod.mk.inj hface).1.trans hword⟩
  have hmany : manyWithin (Grammar.withLevels (l.front.length + 2)).statementRound l.front.length
      (.between ts (next :: more) l.file) =
        manyWithin (Grammar.withLevels (l.front.length + 2)).statementRound l.front.length
          (.between [] (next :: more) l.file) := by
    obtain ⟨rounds, hrounds⟩ := Nat.exists_eq_add_one_of_ne_zero
      (Nat.ne_zero_of_lt (by omega : 0 < l.front.length))
    generalize l.front.length + 2 = levels
    rw [hrounds]
    exact bind_congr_run (halike.statementRound_run (by
      rw [show (Cursor.between ts (next :: more) l.file).final = l.file from rfl, l.file_kind]
      decide))
  have hagree := htwins.rounds_agree (Nat.le_add_right l₂.front.length 2)
    (by rw [htwins.left, Cursor.between_left]; omega : _ ≤ l.front.length + 2)
    (Nat.lt_succ_self l₂.front.length) (by rw [Cursor.between_left]; omega : _ < l.front.length)
  rw [parse_eq_rounds l₂ hl₂] at hparse
  rw [parse_eq_rounds l hl, manyWithin_cons hround, hmany]
  unfold Agree at hagree
  split at hagree
  next h h' =>
    rw [h] at hparse
    cases hparse
    rw [h', hagree]
    rfl
  next h h' =>
    rw [h] at hparse
    cases hparse
  · exact hagree.elim

end HandlerWeave.Source
