import HandlerWeave.Proofs.Source.Marks
import HandlerWeave.Source.Grammar.Basic

/-!
What a parser takes from the marks ahead: with which result it comes to which marks. Nothing else of
the tokens matters to the parsers that build trees. The texts read here hold no arrow, so that no
parenthesis in them opens the parameters of a function.
-/
namespace HandlerWeave.Source

/-- The mark at a place, which past the last one is the final mark. -/
def markAt (ms : List Mark) (n : Nat) : Mark := (ms[n]?).getD .final

@[simp] theorem markAt_nil (n : Nat) : markAt [] n = .final := rfl

@[simp] theorem markAt_zero (m : Mark) (ms : List Mark) : markAt (m :: ms) 0 = m := rfl

@[simp] theorem markAt_succ (m : Mark) (ms : List Mark) (n : Nat) :
    markAt (m :: ms) (n + 1) = markAt ms n := rfl

@[simp] theorem markAt_one (m : Mark) (ms : List Mark) : markAt (m :: ms) 1 = markAt ms 0 := rfl

@[simp] theorem markAt_two (m : Mark) (ms : List Mark) : markAt (m :: ms) 2 = markAt ms 1 := rfl

def Mark.isWord (m : Mark) (word : String) : Bool := m.kind == .word && m.text == word

/-- These marks stand ahead, then the end of the text, and none of them is an arrow. -/
structure Cursor.Shows (c : Cursor) (ms : List Mark) : Prop where
  ahead : c.ahead.map Token.mark = ms
  final : c.final.mark = .final
  plain : ∀ m ∈ ms, m.kind ≠ .arrow

/-- Where `ms` stands ahead, the parser gives `a` and comes to `rest`. -/
def Takes {α : Type} (p : Parser α) (ms : List Mark) (a : α) (rest : List Mark) : Prop :=
  ∀ c, c.Shows ms → ∃ d, p c = .ok (a, d) ∧ d.Shows rest

variable {α β σ : Type} {c d : Cursor} {p q : Parser α} {f : α → Parser β} {a : α} {b : β}
  {m : Mark} {ms mid rest : List Mark}

namespace Cursor.Shows

theorem tokenAt (h : c.Shows ms) (n : Nat) : (c.tokenAt n).mark = markAt ms n := by
  rw [Cursor.tokenAt, markAt, ← h.ahead, List.getElem?_map, ← h.final]
  cases c.ahead[n]? <;> rfl

theorem kindAhead (h : c.Shows ms) (n : Nat) : c.kindAhead n = (markAt ms n).kind := by
  rw [← h.tokenAt n]
  rfl

theorem kind (h : c.Shows ms) : c.kind = (markAt ms 0).kind := h.kindAhead 0

theorem check (h : c.Shows ms) (kind : Token.Kind) :
    c.check kind = ((markAt ms 0).kind == kind) := by
  rw [Cursor.check, h.kind]

theorem wordAt (h : c.Shows ms) (n : Nat) (word : String) :
    c.wordAt n word = (markAt ms n).isWord word := by
  rw [← h.tokenAt n]
  rfl

theorem seesWord (h : c.Shows ms) (word : String) : c.seesWord word = (markAt ms 0).isWord word :=
  h.wordAt 0 word

theorem seesAnyWord (h : c.Shows ms) (words : List String) :
    c.seesAnyWord words = words.any (markAt ms 0).isWord := by
  rw [Cursor.seesAnyWord]
  exact congrArg words.any (funext h.seesWord)

theorem text (h : c.Shows ms) : c.text = (markAt ms 0).text := by
  rw [← h.tokenAt 0]
  rfl

theorem newlineBefore (h : c.Shows ms) : c.newlineBefore = (markAt ms 0).line := by
  rw [← h.tokenAt 0]
  rfl

theorem kindAhead_ne_arrow (h : c.Shows ms) (n : Nat) : c.kindAhead n ≠ .arrow := by
  rw [h.kindAhead, markAt]
  cases hn : ms[n]? with
  | none => exact nofun
  | some m => exact h.plain m (List.mem_of_getElem? hn)

theorem advance (h : c.Shows (m :: ms)) : c.advance.Shows ms := by
  obtain ⟨hahead, hfinal, hplain⟩ := h
  rw [Cursor.advance]
  cases hc : c.ahead with
  | nil => rw [hc] at hahead; cases hahead
  | cons t rest =>
      rw [hc] at hahead
      cases hahead
      exact ⟨rfl, hfinal, fun m hm => hplain m (List.mem_cons_of_mem _ hm)⟩

theorem length (h : c.Shows ms) : c.ahead.length = ms.length := by
  rw [← h.ahead, List.length_map]

end Cursor.Shows

theorem shows_of_lex {source : String} (hplain : ∀ m ∈ ms, m.kind ≠ .arrow)
    (hlex : (lex source).map Token.mark = ms ++ [.final]) :
    (Cursor.ofTokens (lex source)).Shows ms := by
  obtain ⟨ts, last, hts, hms, hlast⟩ : ∃ ts last, lex source = ts ++ [last] ∧
      ts.map Token.mark = ms ∧ last.mark = .final := by
    obtain ⟨ts, tail, hts, hms, htail⟩ := List.map_eq_append_iff.1 hlex
    obtain ⟨last, rest, rfl, hlast, hrest⟩ := List.map_eq_cons_iff.1 htail
    rw [List.map_eq_nil_iff] at hrest
    subst hrest
    exact ⟨ts, last, hts, hms, hlast⟩
  refine ⟨?_, ?_, hplain⟩
  · rw [Cursor.ofTokens, hts, List.dropLast_concat, hms]
  · rw [Cursor.ofTokens, hts, List.getLastD_concat, hlast]

theorem shows_ofTokens {source : String} (hplain : ∀ m ∈ ms, m.kind ≠ .arrow)
    (h : Scans false source.toList (ms ++ [.final])) :
    (Cursor.ofTokens (lex source)).Shows ms := shows_of_lex hplain h.lex

namespace Takes

theorem pure : Takes (pure a) ms a ms := fun c hc => ⟨c, rfl, hc⟩

theorem bind (hp : Takes p ms a mid) (hf : Takes (f a) mid b rest) :
    Takes (p >>= f) ms b rest := by
  intro c hc
  obtain ⟨d, hpc, hd⟩ := hp c hc
  obtain ⟨e, hfd, he⟩ := hf d hd
  refine ⟨e, ?_, he⟩
  rw [show (p >>= f) c = p c >>= fun x => f x.1 x.2 from rfl, hpc]
  exact hfd

theorem map {g : α → β} (hp : Takes p ms a rest) : Takes (g <$> p) ms (g a) rest := by
  rw [map_eq_pure_bind]
  exact hp.bind pure

theorem look {f : Cursor → Parser β} (h : ∀ c, c.Shows ms → Takes (f c) ms b rest) :
    Takes (get >>= f) ms b rest := fun c hc => h c hc c hc

theorem ite_pos {cond : Prop} [Decidable cond] (h : cond) (hp : Takes p ms a rest) :
    Takes (if cond then p else q) ms a rest := by
  rwa [if_pos h]

theorem ite_neg {cond : Prop} [Decidable cond] (h : ¬ cond) (hq : Takes q ms a rest) :
    Takes (if cond then p else q) ms a rest := by
  rwa [if_neg h]

end Takes

namespace Parser

theorem advance_takes : Takes advance (m :: ms) () ms := fun c hc => ⟨c.advance, rfl, hc.advance⟩

theorem takeText_takes : Takes takeText (m :: ms) m.text ms := fun c hc =>
  ⟨c.advance, by rw [takeText, hc.text, markAt_zero], hc.advance⟩

theorem takeKind_takes {kind : Token.Kind} (h : m.kind = kind) :
    Takes (takeKind kind) (m :: ms) true ms := fun c hc =>
  ⟨c.advance, if_pos (by simp [hc.check, h]), hc.advance⟩

theorem takeKind_none {kind : Token.Kind} (h : (markAt ms 0).kind ≠ kind) :
    Takes (takeKind kind) ms false ms := fun c hc =>
  ⟨c, if_neg (by simpa [hc.check] using h), hc⟩

theorem takeKind_other {kind : Token.Kind} (h : m.kind ≠ kind) :
    Takes (takeKind kind) (m :: ms) false (m :: ms) := takeKind_none h

theorem takeWord_takes {word : String} (h : m.isWord word = true) :
    Takes (takeWord word) (m :: ms) true ms := fun c hc =>
  ⟨c.advance, if_pos (by rw [hc.seesWord, markAt_zero, h]), hc.advance⟩

theorem takeWord_none {word : String} (h : (markAt ms 0).isWord word = false) :
    Takes (takeWord word) ms false ms := fun c hc =>
  ⟨c, if_neg (by rw [hc.seesWord, h]; exact nofun), hc⟩

theorem require_takes {kind : Token.Kind} {what : String} (h : m.kind = kind) :
    Takes (require kind what) (m :: ms) () ms :=
  (takeKind_takes h).bind (.ite_neg (by decide) .pure)

theorem requireWord_takes {word : String} (h : m.isWord word = true) :
    Takes (requireWord word) (m :: ms) () ms :=
  (takeWord_takes h).bind (.ite_neg (by decide) .pure)

theorem word_takes {what : String} (h : m.kind = .word) :
    Takes (word what) (m :: ms) m.text ms :=
  .look fun c hc => .ite_pos (by simp [hc.check, h]) takeText_takes

theorem after_takes {kind : Token.Kind} (h : m.kind = kind) (hp : Takes p ms a rest) :
    Takes (after kind p) (m :: ms) (some a) rest :=
  (takeKind_takes h).bind (.ite_pos rfl (hp.bind .pure))

theorem after_none {kind : Token.Kind} (h : (markAt ms 0).kind ≠ kind) :
    Takes (after kind p) ms none ms :=
  (takeKind_none h).bind (.ite_neg (by decide) .pure)

/-- The loop that repeats a step collects these results, with as many rounds as there are marks, or
more. -/
def Collects (step : Parser (Option α)) (ms : List Mark) (as : List α) (rest : List Mark) : Prop :=
  ∀ rounds, ms.length < rounds → Takes (manyWithin step rounds) ms as rest

def Iterates (step : σ → Parser (Option σ)) (s : σ) (ms : List Mark) (s' : σ)
    (rest : List Mark) : Prop :=
  ∀ rounds, ms.length < rounds → Takes (iterateWithin step rounds s) ms s' rest

def Lists (closer : Token.Kind) (item : Parser α) (ms : List Mark) (as : List α)
    (rest : List Mark) : Prop :=
  ∀ rounds, ms.length < rounds → Takes (commaListWithin closer item rounds) ms as rest

def Separates (separator : Token.Kind) (item : Parser α) (ms : List Mark) (as : List α)
    (rest : List Mark) : Prop :=
  ∀ rounds, ms.length < rounds → Takes (separatedWithin separator item rounds) ms as rest

section

variable {once : Parser (Option α)} {as : List α} {turn : σ → Parser (Option σ)} {s u v : σ}
  {closer separator : Token.Kind}

/-- A loop with rounds for all marks has a first round. -/
theorem with_rounds {n : Nat} {P : Nat → Prop} (h : ∀ rounds, n ≤ rounds → P (rounds + 1))
    (rounds : Nat) (hrounds : n < rounds) : P rounds := by
  cases rounds with
  | zero => exact absurd hrounds (Nat.not_lt_zero _)
  | succ rounds => exact h rounds (Nat.le_of_lt_succ hrounds)

theorem Collects.nil (h : Takes once ms none rest) : Collects once ms [] rest := by
  exact with_rounds fun _ _ => h.bind .pure

theorem Collects.cons (h : Takes once ms (some a) mid) (hlt : mid.length < ms.length)
    (hrest : Collects once mid as rest) : Collects once ms (a :: as) rest := by
  refine with_rounds fun rounds hrounds => ?_
  exact h.bind ((hrest rounds (Nat.lt_of_lt_of_le hlt hrounds)).bind .pure)

theorem many_takes (h : Collects once ms as rest) : Takes (many once) ms as rest := by
  intro c hc
  exact h _ (by rw [hc.length]; exact Nat.lt_succ_self _) c hc

theorem Iterates.stop (h : Takes (turn s) ms none rest) : Iterates turn s ms s rest := by
  exact with_rounds fun _ _ => h.bind .pure

theorem Iterates.step (h : Takes (turn s) ms (some u) mid) (hlt : mid.length < ms.length)
    (hrest : Iterates turn u mid v rest) : Iterates turn s ms v rest := by
  refine with_rounds fun rounds hrounds => ?_
  exact h.bind (hrest rounds (Nat.lt_of_lt_of_le hlt hrounds))

theorem iterate_takes (h : Iterates turn s ms u rest) : Takes (iterate turn s) ms u rest := by
  intro c hc
  exact h _ (by rw [hc.length]; exact Nat.lt_succ_self _) c hc

theorem skipWhile_none {more : Parser Bool} (h : Takes more ms false rest) :
    Takes (skipWhile more) ms () rest :=
  iterate_takes (.stop (h.bind .pure))

theorem Lists.nil (h : (markAt ms 0).kind = closer) : Lists closer p ms [] ms := by
  refine with_rounds fun rounds hrounds => ?_
  exact .look fun c hc => .ite_pos (by simp [hc.check, h]) .pure

theorem Lists.one (hfirst : (markAt ms 0).kind ≠ closer) (h : Takes p ms a rest)
    (hlast : (markAt rest 0).kind ≠ .comma) : Lists closer p ms [a] rest := by
  refine with_rounds fun rounds hrounds => ?_
  exact .look fun c hc => .ite_neg (by simpa [hc.check] using hfirst)
    (h.bind ((takeKind_none hlast).bind (.ite_neg (by decide) .pure)))

theorem Lists.cons (hfirst : (markAt ms 0).kind ≠ closer) (h : Takes p ms a (m :: mid))
    (hm : m.kind = .comma) (hlt : mid.length < ms.length) (hrest : Lists closer p mid as rest) :
    Lists closer p ms (a :: as) rest := by
  refine with_rounds fun rounds hrounds => ?_
  have htail := hrest rounds (Nat.lt_of_lt_of_le hlt hrounds)
  exact .look fun c hc => .ite_neg (by simpa [hc.check] using hfirst)
    (h.bind ((takeKind_takes hm).bind (.ite_pos rfl (htail.bind .pure))))

theorem commaList_takes (h : Lists closer p ms as rest) :
    Takes (commaList closer p) ms as rest := by
  intro c hc
  exact h _ (by rw [hc.length]; exact Nat.lt_succ_self _) c hc

theorem Separates.one (h : Takes p ms a rest) (hlast : (markAt rest 0).kind ≠ separator) :
    Separates separator p ms [a] rest := by
  refine with_rounds fun rounds hrounds => ?_
  exact h.bind ((takeKind_none hlast).bind (.ite_neg (by decide) .pure))

theorem Separates.cons (h : Takes p ms a (m :: mid)) (hm : m.kind = separator)
    (hlt : mid.length < ms.length) (hrest : Separates separator p mid as rest) :
    Separates separator p ms (a :: as) rest := by
  refine with_rounds fun rounds hrounds => ?_
  have htail := hrest rounds (Nat.lt_of_lt_of_le hlt hrounds)
  exact h.bind ((takeKind_takes hm).bind (.ite_pos rfl (htail.bind .pure)))

theorem separated_takes (h : Separates separator p ms as rest) :
    Takes (separated separator p) ms as rest := by
  intro c hc
  exact h _ (by rw [hc.length]; exact Nat.lt_succ_self _) c hc

end

end Parser

end HandlerWeave.Source
