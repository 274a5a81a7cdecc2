import HandlerWeave.Proofs.Lockstep.Twins
import HandlerWeave.Proofs.Lockstep.Wall

/-!
Statements are independent. What stands behind a semicolon that ends a text is read as it is read
alone, and the text in front of it is read as if nothing followed.
-/
namespace HandlerWeave.Source

open Source.Parser Source.Group

namespace Grammar

/-- The statements of a text end where the text does. -/
theorem kind_of_statementRounds {g : Grammar} {rounds : Nat} {c d : Cursor}
    {items : List (Option Item)}
    (h : manyWithin g.statementRound rounds c = .ok (items, d)) : d.kind = .endOfFile := by
  induction rounds generalizing c items with
  | zero => cases h
  | succ rounds ih =>
      obtain ⟨o, e, hround, hrest⟩ := bind_eq_ok.1 h
      cases o with
      | some item =>
          obtain ⟨more, e', hmore, hpure⟩ := bind_eq_ok.1 hrest
          cases hpure
          exact ih hmore
      | none =>
          cases hrest
          unfold statementRound at hround
          obtain ⟨_, _, hget, hround⟩ := bind_eq_ok.1 hround
          cases hget
          split at hround
          next heof =>
            cases hround
            exact Cursor.kind_of_check heof
          obtain ⟨taken, _, -, hround⟩ := bind_eq_ok.1 hround
          cases taken with
          | true => cases hround
          | false =>
              obtain ⟨_, _, -, hpure⟩ := bind_eq_ok.1 hround
              cases hpure

end Grammar

namespace Wall

variable {W : Wall} {n : Nat} {g g' : Grammar} {c c' d : Cursor} {items : List (Option Item)}

/-- A wall at the end of a text whose last token is a semicolon. -/
def atEnd {l : Listing} {front : List Token} {semicolon : Token}
    (hfront : l.front = front ++ [semicolon]) (hkind : semicolon.kind = .semicolon)
    (hbodied : Bodied l.front) (hnested : Nested l.front) (rest : List Token) (last : Token) :
    Wall where
  front := front
  semicolon := semicolon
  file := l.file
  rest := rest
  last := last
  semicolon_kind := hkind
  file_kind := l.file_kind
  front_kind t ht := l.front_kind t (by simp [hfront, ht])
  nested := by
    rw [hfront, Nested, open?_append] at hnested
    obtain ⟨w, hw, hsemicolon⟩ := Option.bind_eq_some_iff.1 hnested
    obtain ⟨u, hu, hnil⟩ := open?_cons_eq_some.1 hsemicolon
    rw [open1?_semicolon hkind] at hu
    cases hu
    cases hnil
    exact hw
  bodied := hfront ▸ hbodied

/-- Where the second run stands once it has taken the semicolon. -/
def beyond (W : Wall) : Cursor := .between (W.front ++ [W.semicolon]) W.rest W.last

theorem Near.rest_lt {σ : List Token.Kind} (h : W.Near σ c c') : W.rest.length < c'.left := by
  obtain ⟨passed, ahead, -, -, rfl, -⟩ := h
  rw [there, Cursor.between_left, List.length_append, List.length_cons]
  omega

/-- A statement in front of the semicolon. -/
theorem statementRound_agrees (hg : W.pairing.Kin n g g') (h : W.Near [] c c') (hn : c.left ≤ n) :
    Agree (fun _ _ => True) g.statementRound g'.statementRound c c' fun o o' d d' =>
      W.pairing.Done c.left o o' d d' ∧ o.isSome = true ∧ o'.isSome = true := by
  obtain ⟨hole, hyes, -⟩ | hround := Grammar.statementRound_follows (P := W.pairing) hg
    (fun _ hyes => hyes.elim) trivial h hn h.kind_ne
  · exact hyes.elim
  · exact hround

/-- What the first run accepts, the second one reads alike, up to the place behind the
semicolon. -/
theorem statements_compose (hg : W.pairing.Kin n g g') (h : W.Near [] c c') (hn : c.left ≤ n)
    {rounds rounds' : Nat} (hrun : manyWithin g.statementRound rounds c = .ok (items, d))
    (hrounds : c'.left < rounds') :
    ∃ more, W.rest.length < more ∧ manyWithin g'.statementRound rounds' c' =
      (manyWithin g'.statementRound more W.beyond).map (Prod.map (items ++ ·) id) := by
  induction rounds generalizing c c' items rounds' with
  | zero => cases hrun
  | succ rounds ih =>
      obtain ⟨rounds', rfl⟩ := Nat.exists_eq_add_one_of_ne_zero (Nat.ne_zero_of_lt hrounds)
      obtain ⟨o, e, hround, hrest⟩ := bind_eq_ok.1 hrun
      have hagree := statementRound_agrees hg h hn
      rw [Agree, hround] at hagree
      cases hround' : g'.statementRound c' with
      | error fault =>
          rw [hround'] at hagree
          exact hagree.elim
      | ok out =>
          obtain ⟨o', e'⟩ := out
          rw [hround'] at hagree
          obtain ⟨⟨hended, hlt, heq⟩, hsome, hsome'⟩ := hagree
          obtain rfl := heq (Nat.zero_le _)
          obtain ⟨item, rfl⟩ := Option.isSome_iff_exists.1 hsome
          obtain ⟨later, _, hlater, hpure⟩ := bind_eq_ok.1 hrest
          cases hpure
          rw [manyWithin_cons hround']
          obtain hnear | ⟨rfl, rfl⟩ := hended
          · have hlt' := h.left_lt hnear hlt
            obtain ⟨more, hmore, hmany⟩ :=
              ih hnear (by omega) hlater (show e'.left < rounds' by omega)
            refine ⟨more, hmore, ?_⟩
            rw [hmany]
            cases manyWithin g'.statementRound more W.beyond <;> rfl
          · have hfile : (Cursor.between (W.front ++ [W.semicolon]) [] W.file).kind = .endOfFile :=
              W.file_kind
            have hnil : later = [] := by
              cases rounds with
              | zero => cases hlater
              | succ rounds =>
                  obtain ⟨_, _, hnone, hlater⟩ := bind_eq_ok.1 hlater
                  rw [Grammar.statementRound_file hfile] at hnone
                  cases hnone
                  cases hlater
                  rfl
            have hlt' : W.rest.length < c'.left := h.rest_lt
            exact ⟨rounds', by omega, by rw [hnil]; rfl⟩

end Wall

/-- What is accepted is well nested, if its functions and classes have their bodies. -/
theorem Listing.nested_of_rounds {l : Listing} (hbodied : Bodied l.front) {levels rounds : Nat}
    {items : List (Option Item)} {d : Cursor} (hlevels : l.front.length ≤ levels)
    (hrounds : l.front.length < rounds)
    (hrun : manyWithin (Grammar.withLevels levels).statementRound rounds
      (.between [] l.front l.file) = .ok (items, d)) : Nested l.front := by
  have hnear : (Trail.brackets l fun _ => hbodied).Near [] (.between [] l.front l.file)
      (.between [] l.front l.file) := ⟨rfl, [], l.front, rfl, rfl, rfl⟩
  have hagree :=
    manyWithin_agrees (P := (Trail.brackets l fun _ => hbodied).diagonal) (m := l.front.length)
    (fun _ _ hd hle => Trail.statementRound_agrees
      (Grammar.withLevels_kin _ hlevels hlevels) hbodied hd hle)
    rounds rounds hnear (Nat.le_refl _) hrounds hrounds
  rw [Agree, hrun] at hagree
  obtain ⟨⟨-, passed, ahead, hfront, rfl, hopen⟩, -, -⟩ := hagree
  have hfile := Grammar.kind_of_statementRounds hrun
  cases ahead with
  | cons t ahead => exact absurd hfile (l.front_kind t (by simp [hfront]))
  | nil =>
      rw [List.append_nil] at hfront
      rw [Nested, hfront]
      exact hopen

/-- Behind other text the tokens are the same but for where they start and for what stands in front
of the first one. -/
theorem tokenAt_behind (front : String) (k : Nat) (ts : List Token) (file : Token)
    (passed : List Token) :
    ∃ rest last, behind front ((ts ++ [file]).map (Token.shift k)) = rest ++ [last] ∧
      rest.length = ts.length ∧ ∀ n, ∃ gap, (Cursor.between passed rest last).tokenAt n =
        { ((Cursor.between [] ts file).tokenAt n).shift k with gap } ∧
        (0 < n → n < ts.length → gap = ((Cursor.between [] ts file).tokenAt n).gap) := by
  cases ts with
  | nil => exact ⟨[], _, rfl, rfl, fun n => ⟨_, rfl, fun _ hn => absurd hn (Nat.not_lt_zero _)⟩⟩
  | cons t ts =>
      refine ⟨{ t.shift k with gap := front ++ t.gap } :: ts.map (Token.shift k), file.shift k,
        by simp [behind, Token.shift], by simp, fun n => ?_⟩
      cases n with
      | zero => exact ⟨_, rfl, fun hpos => absurd hpos (Nat.lt_irrefl 0)⟩
      | succ n =>
          refine ⟨_, ?_, fun _ _ => rfl⟩
          simp only [Cursor.tokenAt, Cursor.between, List.getElem?_cons_succ, List.getElem?_map,
            Option.getD_map]
          rfl

theorem Listing.kindAhead_file (l : Listing) (n : Nat) :
    (Cursor.between [] l.front l.file).kindAhead n = .endOfFile ↔ l.front.length ≤ n := by
  rw [Cursor.kindAhead, Cursor.tokenAt, Cursor.between_ahead]
  refine ⟨fun hkind => Nat.le_of_not_lt fun hlt => ?_, fun hle => ?_⟩
  · rw [List.getElem?_eq_getElem hlt] at hkind
    exact l.front_kind _ (List.getElem_mem hlt) hkind
  · rw [List.getElem?_eq_none hle]
    exact l.file_kind

/-- Where no operand ends in front of it a text looks as it does alone. -/
theorem Listing.twins_fresh (l : Listing) (front : String) (k : Nat) (passed : List Token)
    (hfresh : ∀ t ∈ passed.getLast?, Cursor.operandEnds.contains t.kind = false) :
    ∃ rest last, behind front (l.tokens.map (Token.shift k)) = rest ++ [last] ∧
      Cursor.Twins l.front.length (fun start start' => start' = start + k)
        (.between [] l.front l.file) (.between passed rest last) := by
  obtain ⟨rest, last, hbehind, hlength, hlook⟩ := tokenAt_behind front k l.front l.file passed
  refine ⟨rest, last, hbehind, hlength.symm, Nat.le_refl _, fun n => ?_, fun n => ?_, fun n => ?_,
    fun n hn hpos => ?_, l.kindAhead_file, .inr ⟨fun _ h => (by cases h), hfresh⟩⟩
  · obtain ⟨gap, heq, -⟩ := hlook n
    rw [Cursor.kindAhead, Cursor.kindAhead, heq]
    rfl
  · obtain ⟨gap, heq, -⟩ := hlook n
    rw [heq]
    rfl
  · obtain ⟨gap, heq, -⟩ := hlook n
    rw [heq]
    exact Nat.add_comm _ _
  · obtain ⟨gap, heq, hgap⟩ := hlook n
    rw [Cursor.between_left] at hn hpos
    rw [heq]
    exact (hgap (by omega) hn).symm

/-- Behind a semicolon a text looks as it does alone. -/
theorem Listing.twins (l : Listing) (front : String) (k : Nat) (passed : List Token)
    {semicolon : Token} (hkind : semicolon.kind = .semicolon) :
    ∃ rest last, behind front (l.tokens.map (Token.shift k)) = rest ++ [last] ∧
      Cursor.Twins l.front.length (fun start start' => start' = start + k)
        (.between [] l.front l.file) (.between (passed ++ [semicolon]) rest last) :=
  l.twins_fresh front k (passed ++ [semicolon]) (by simp [hkind, Cursor.operandEnds])

/-- Statements that look alike are read alike. -/
theorem Cursor.Twins.rounds_agree {top : Nat} {S : Nat → Nat → Prop} {c c' : Cursor}
    (h : c.Twins top S c') {levels levels' rounds rounds' : Nat} (hlevels : c.left ≤ levels)
    (hlevels' : c.left ≤ levels') (hrounds : c.left < rounds) (hrounds' : c'.left < rounds') :
    Agree (Fault S) (manyWithin (Grammar.withLevels levels).statementRound rounds)
      (manyWithin (Grammar.withLevels levels').statementRound rounds') c c'
      fun items items' _ _ => items = items' :=
  (manyWithin_agrees (P := pairing top S) (σ := []) (fun _ _ hd hle =>
    Grammar.statementRound_agrees (P := pairing top S) id id
      (Grammar.withLevels_kin (pairing top S) hlevels hlevels') trivial hd hle)
    rounds rounds' h (Nat.le_refl _) hrounds hrounds').mono fun _ _ _ _ hd => hd.eq (Nat.zero_le _)

/-- The statements of a text are what its rounds give. -/
theorem parse_eq_rounds (l : Listing) {source : String} (h : lex source = l.tokens) :
    parse source = (manyWithin (Grammar.withLevels (l.front.length + 2)).statementRound
      (l.front.length + 1) (.between [] l.front l.file)).map fun out => out.1.filterMap id := by
  have hlength : l.tokens.length = l.front.length + 1 := by simp [Listing.tokens]
  rw [parse, parseTokens, h, hlength, Listing.tokens, Cursor.ofTokens_append, Grammar.statements_eq]
  show Except.map Prod.fst (manyWithin _ _ _ >>= _) = _
  rw [Cursor.between_ahead]
  cases manyWithin _ _ _ <;> rfl

/-- A text behind one that is accepted and that ends in a semicolon is read as it is read alone, and
its items follow those of the other. -/
theorem parse_sequel {s₁ : String} {items : List Item} {semicolon : Token}
    (hparse : parse s₁ = .ok items) (hlast : (lex s₁).dropLast.getLast? = some semicolon)
    (hkind : semicolon.kind = .semicolon) (hbodied : Bodied (lex s₁).dropLast) (s₂ : String) :
    parse (s₁ ++ "\n" ++ s₂) = match parse s₂ with
      | .ok more => .ok (items ++ more)
      | .error e => .error { e with offset := e.offset + (s₁.utf8ByteSize + 1) } := by
  obtain ⟨l₁, hl₁, -⟩ := lex_listing s₁
  obtain ⟨l₂, hl₂, -⟩ := lex_listing s₂
  rw [hl₁, Listing.tokens, List.dropLast_concat] at hlast hbodied
  obtain ⟨front, hfront⟩ := List.getLast?_eq_some_iff.1 hlast
  rw [parse_eq_rounds l₁ hl₁] at hparse
  cases hrun : manyWithin (Grammar.withLevels (l₁.front.length + 2)).statementRound
      (l₁.front.length + 1) (.between [] l₁.front l₁.file) with
  | error e => rw [hrun] at hparse; cases hparse
  | ok out =>
      obtain ⟨rounds, d⟩ := out
      rw [hrun] at hparse
      obtain rfl := Except.ok.inj hparse
      have hnested := l₁.nested_of_rounds hbodied (Nat.le_add_right _ 2) (Nat.lt_succ_self _) hrun
      obtain ⟨rest, last, hbehind, htwins⟩ :=
        l₂.twins (l₁.file.gap ++ "\n") (s₁.utf8ByteSize + 1) front hkind
      obtain ⟨l, hl, -⟩ := lex_listing (s₁ ++ "\n" ++ s₂)
      have htokens : l.tokens = front ++ semicolon :: rest ++ [last] := by
        rw [← hl, lex_append (by rw [hl₁, Listing.tokens, hfront]) hkind, hl₂, hbehind]
        simp
      obtain ⟨hahead, hfile⟩ := List.append_inj' htokens rfl
      obtain rfl := (List.cons.inj hfile).1
      have hlength : l.front.length = front.length + (rest.length + 1) := by
        rw [hahead, List.length_append, List.length_cons]
      have hlength₁ : l₁.front.length = front.length + 1 := by
        rw [hfront, List.length_append, List.length_singleton]
      have hnear : (Wall.atEnd hfront hkind hbodied hnested rest l.file).Near []
          (.between [] l₁.front l₁.file) (.between [] l.front l.file) :=
        ⟨[], front, rfl, by rw [hfront]; rfl, by rw [hahead]; rfl, rfl⟩
      obtain ⟨more, hmore, hwhole⟩ := Wall.statements_compose
        (Grammar.withLevels_kin _ (Nat.le_succ (l₁.front.length + 1))
          (by omega : _ ≤ l.front.length + 2))
        hnear (Nat.le_succ _) hrun (Nat.lt_succ_self l.front.length)
      have hleft : l₂.front.length = rest.length := htwins.left
      have hagree := htwins.rounds_agree (Nat.le_add_right l₂.front.length 2)
        (by rw [Cursor.between_left]; omega : _ ≤ l.front.length + 2)
        (Nat.lt_succ_self l₂.front.length) hmore
      rw [parse_eq_rounds l hl, parse_eq_rounds l₂ hl₂, hwhole]
      unfold Agree at hagree
      split at hagree
      next h h' =>
        rw [h, Wall.beyond, Wall.atEnd, h', hagree]
        exact congrArg Except.ok List.filterMap_append
      next e e' h h' =>
        obtain ⟨hcause, hoffset⟩ := hagree
        have hoffset : e'.offset = e.offset + (s₁.utf8ByteSize + 1) := hoffset
        rw [h, Wall.beyond, Wall.atEnd, h']
        simp only [Except.map, hcause, ← hoffset]
      · exact hagree.elim

theorem parse_sequel_imports :
    let first : Item := .importStatement ⟨"a", none, .named [⟨"A", "B"⟩], false⟩
    let second : Item := .importStatement ⟨"b", none, .none, false⟩
    parse "import { A as B } from 'a';" = .ok [first] ∧ parse "import 'b'" = .ok [second] ∧
      parse "import { A as B } from 'a';\nimport 'b'" = .ok [first, second] := by
  intro first second
  have hfirst : parse "import { A as B } from 'a';" = .ok [first] := by rfl
  have hsecond : parse "import 'b'" = .ok [second] := by rfl
  refine ⟨hfirst, hsecond, ?_⟩
  have hlast : (lex "import { A as B } from 'a';").dropLast.getLast? =
      some ⟨.semicolon, "", ";", 26⟩ := by rfl
  have h := parse_sequel hfirst hlast rfl (by decide +kernel) "import 'b'"
  rw [hsecond] at h
  exact h

/-- A function without a body in a text finds one in the next text, and what follows that body
closes the brackets of the first text. -/
theorem parse_sequel_without_body :
    let first := "const a = b < (@d(function) x) => y ;"
    let second := "{ }) x) => z > ( 1 );"
    (parse first).isOk ∧ (lex first).dropLast.getLast?.map Token.kind = some .semicolon ∧
      parse second = .error ⟨.unexpectedBracket (.token ")"), 3⟩ ∧
      (parse (first ++ "\n" ++ second)).isOk := by
  exact ⟨by decide +kernel, by decide +kernel, by rfl, by decide +kernel⟩

end HandlerWeave.Source
