import HandlerWeave.Proofs.Seam.Types

/-!
Parsers that take known tokens, whatever stands behind the token they come to. Nothing is said of
the tokens in front of them.
-/
namespace HandlerWeave.Source

open Source.Parser

namespace Cursor

theorem advanceBy_add (c : Cursor) (m n : Nat) :
    c.advanceBy (m + n) = (c.advanceBy m).advanceBy n := by
  induction m generalizing c with
  | zero => rw [Nat.zero_add]; rfl
  | succ m ih => rw [Nat.add_right_comm]; exact ih _

/-- Behind some tokens nothing of what stands in front of them is seen. -/
theorem advanceBy_of_ahead {c : Cursor} {ts rest : List Token} (hc : c.ahead = ts ++ rest)
    (hne : ts ≠ []) : c.advanceBy ts.length = between ts rest c.final := by
  obtain ⟨before, ahead, final⟩ := c
  obtain rfl : ahead = ts ++ rest := hc
  have hbetween : (⟨before, ts ++ rest, final⟩ : Cursor) =
      between before.toList (ts ++ rest) final := by
    cases before <;> rfl
  have hlast : (before.toList ++ ts).getLast? = ts.getLast? := by
    rw [List.getLast?_append, List.getLast?_eq_some_getLast hne, Option.some_or]
  rw [hbetween, between_advanceBy, between, hlast]
  rfl

end Cursor

/-- Where the tokens `ts` and then `rest` are ahead, the parser gives `a` and takes just `ts`. -/
def Reads {α : Type} (p : Parser α) (ts rest : List Token) (a : α) : Prop :=
  ∀ c, c.ahead = ts ++ rest → p c = .ok (a, c.advanceBy ts.length)

variable {α β ρ : Type} {p q : Parser α} {f : α → Parser β} {t : Token} {ts us rest : List Token}
  {a : α} {b : β} {kind : Token.Kind} {w what : String}

namespace Reads

theorem pure : Reads (pure a) [] rest a := fun _ _ => rfl

theorem bind (hp : Reads p ts (us ++ rest) a) (hf : Reads (f a) us rest b) :
    Reads (p >>= f) (ts ++ us) rest b := by
  intro c hc
  rw [List.append_assoc] at hc
  refine bind_eq_ok.2 ⟨a, _, hp c hc, ?_⟩
  rw [List.length_append, Cursor.advanceBy_add]
  exact hf _ (by rw [Cursor.ahead_advanceBy, hc, List.drop_left])

/-- Behind a parser that takes nothing. -/
theorem bind_nil (hp : Reads p [] (us ++ rest) a) (hf : Reads (f a) us rest b) :
    Reads (p >>= f) us rest b := hp.bind hf

theorem bind_cons (hp : Reads p [t] (us ++ rest) a) (hf : Reads (f a) us rest b) :
    Reads (p >>= f) (t :: us) rest b := hp.bind hf

theorem then_pure {g : α → β} (hp : Reads p ts rest a) :
    Reads (do let x ← p; Pure.pure (g x)) ts rest (g a) :=
  fun c hc => bind_eq_ok.2 ⟨a, _, hp c hc, rfl⟩

theorem map {g : α → β} (hp : Reads p ts rest a) : Reads (g <$> p) ts rest (g a) := by
  rw [map_eq_pure_bind]
  exact hp.then_pure

theorem look {f : Cursor → Parser β} (h : ∀ c, c.ahead = ts ++ rest → Reads (f c) ts rest b) :
    Reads (get >>= f) ts rest b := fun c hc => h c hc c hc

theorem ite_pos {cond : Prop} [Decidable cond] (h : cond) (hp : Reads p ts rest a) :
    Reads (if cond then p else q) ts rest a := by
  rwa [if_pos h]

theorem ite_neg {cond : Prop} [Decidable cond] (h : ¬ cond) (hq : Reads q ts rest a) :
    Reads (if cond then p else q) ts rest a := by
  rwa [if_neg h]

theorem advance : Reads Parser.advance [t] rest () := fun _ _ => rfl

theorem takeText : Reads Parser.takeText [t] rest t.text := fun c hc => by
  rw [Parser.takeText, Cursor.text, Cursor.token, Cursor.tokenAt, hc]
  rfl

theorem takeKind_yes (h : t.kind = kind) : Reads (takeKind kind) [t] rest true := fun c hc =>
  if_pos (by simp [Cursor.check, Cursor.kind, Cursor.kindAhead, Cursor.tokenAt, hc, h])

theorem takeKind_no (h : t.kind ≠ kind) : Reads (takeKind kind) [] (t :: rest) false := fun c hc =>
  if_neg (by simp [Cursor.check, Cursor.kind, Cursor.kindAhead, Cursor.tokenAt, hc, h])

theorem takeWord_yes (h : t.isWord w = true) : Reads (takeWord w) [t] rest true := fun c hc =>
  if_pos (by simp [Cursor.seesWord, Cursor.wordAt, Cursor.tokenAt, hc, h])

theorem takeWord_no (h : t.isWord w = false) : Reads (takeWord w) [] (t :: rest) false :=
  fun c hc => if_neg (by simp [Cursor.seesWord, Cursor.wordAt, Cursor.tokenAt, hc, h])

theorem require (h : t.kind = kind) : Reads (Parser.require kind what) [t] rest () :=
  (takeKind_yes h).bind (.ite_neg (by decide) .pure)

theorem requireWord (h : t.isWord w = true) : Reads (Parser.requireWord w) [t] rest () :=
  (takeWord_yes h).bind (.ite_neg (by decide) .pure)

theorem word (h : t.kind = .word) : Reads (Parser.word what) [t] rest t.text :=
  .look fun c hc => .ite_pos
    (by simp [Cursor.check, Cursor.kind, Cursor.kindAhead, Cursor.tokenAt, hc, h]) takeText

theorem after_yes (h : t.kind = kind) (hp : Reads p ts rest a) :
    Reads (after kind p) (t :: ts) rest (some a) :=
  (takeKind_yes h).bind_cons (.ite_pos rfl hp.map)

theorem after_no (h : t.kind ≠ kind) : Reads (after kind p) [] (t :: rest) none :=
  bind_nil (takeKind_no h) (.ite_neg (by decide) .pure)

end Reads

/-- The loop takes these tokens, with as many rounds as there are tokens to take, or more. -/
def ReadsMany (step : Parser (Option α)) (ts rest : List Token) (as : List α) : Prop :=
  ∀ rounds, ts.length < rounds → Reads (manyWithin step rounds) ts rest as

namespace ReadsMany

variable {step : Parser (Option α)} {as : List α}

theorem nil (h : Reads step [] rest none) : ReadsMany step [] rest [] := by
  intro rounds hrounds
  obtain ⟨rounds, rfl⟩ := Nat.exists_eq_add_one_of_ne_zero (Nat.ne_zero_of_lt hrounds)
  exact h.bind_nil .pure

theorem cons (h : Reads step ts (us ++ rest) (some a)) (hne : ts ≠ [])
    (hrest : ReadsMany step us rest as) : ReadsMany step (ts ++ us) rest (a :: as) := by
  intro rounds hrounds
  obtain ⟨rounds, rfl⟩ := Nat.exists_eq_add_one_of_ne_zero (Nat.ne_zero_of_lt hrounds)
  have hpos := List.length_pos_iff.2 hne
  rw [List.length_append] at hrounds
  exact h.bind (hrest rounds (by omega)).map

theorem many (h : ReadsMany step ts rest as) : Reads (Parser.many step) ts rest as :=
  fun c hc => h _ (by rw [hc, List.length_append]; omega) c hc

end ReadsMany

theorem Reads.iterate_none {turn : ρ → Parser (Option ρ)} {s : ρ}
    (h : Reads (turn s) [] rest none) :
    Reads (iterate turn s) [] rest s := fun c hc => bind_eq_ok.2 ⟨none, c, h c hc, rfl⟩

theorem Token.isWord_ne {w' : String} (h : t.isWord w = true) (hne : w ≠ w') :
    t.isWord w' = false := by
  rw [isWord, Bool.and_eq_true, beq_iff_eq, beq_iff_eq] at h
  rw [isWord, h.2, beq_false_of_ne hne, Bool.and_false]

variable {g : Grammar} {o : Option Item}

theorem Reads.decorators_none (h : t.kind ≠ .atSign) : Reads g.decorators [] (t :: rest) [] := by
  refine ReadsMany.many (.nil ?_)
  exact bind_nil (takeKind_no h) (.ite_neg (by decide) .pure)

/-- The words that stand in front of declarations. -/
def modifierWords : List String := ["export", "declare", "abstract"]

theorem Reads.modifiers_none (h : ∀ word ∈ modifierWords, t.isWord word = false) :
    Reads Grammar.modifiers [] (t :: rest) {} := by
  refine .iterate_none (.look fun c hc => ?_)
  have hsees : ∀ word ∈ modifierWords, c.seesWord word = false := fun word hword => by
    simpa [Cursor.seesWord, Cursor.wordAt, Cursor.tokenAt, hc] using h word hword
  refine .ite_neg (by simp [hsees "export" (by decide)]) (.ite_neg (by simp) (.ite_neg ?_
    (.ite_neg ?_ .pure)))
  · simp [hsees "declare" (by decide)]
  · simp [hsees "abstract" (by decide)]

/-- A statement without decorators and modifiers is a declaration. -/
theorem Reads.statement (hkind : t.kind = .word) (h : ∀ word ∈ modifierWords, t.isWord word = false)
    (hread : Reads (g.declaration {} []) (t :: ts) rest o) :
        Reads g.statement (t :: ts) rest o := by
  have hdecorators : Reads g.decorators [] (t :: ts ++ rest) [] :=
    .decorators_none (by rw [hkind]; decide)
  refine hdecorators.bind_nil ((modifiers_none h).bind_nil (.look fun c hc => .ite_neg ?_
    (hdecorators.bind_nil hread)))
  have hsees : c.seesWord "export" = false := by
    simpa [Cursor.seesWord, Cursor.wordAt, Cursor.tokenAt, hc] using h "export" (by decide)
  simp [Grammar.atReexport, hsees]

theorem Reads.statementRound (hkind : t.kind = .word) (hread : Reads g.statement (t :: ts) rest o) :
    Reads g.statementRound (t :: ts) rest (some o) := by
  refine .look fun c hc => .ite_neg ?_ ((takeKind_no (by rw [hkind]; decide)).bind_nil
    (.ite_neg (by decide) hread.then_pure))
  simp [Cursor.check, Cursor.kind, Cursor.kindAhead, Cursor.tokenAt, hc, hkind]

end HandlerWeave.Source
