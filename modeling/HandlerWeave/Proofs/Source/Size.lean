import HandlerWeave.Source.Parse

/-!
How many items a text can hold: no more than it has tokens, and so no more than it has bytes.
-/
namespace HandlerWeave.Source

theorem Lexer.scan_length_le (cs : List Char) (before : Option Token) (gap : List Char)
    (offset skip : Nat) : (scan before gap offset skip cs).length ≤ cs.length + 1 := by
  induction cs generalizing before gap offset skip with
  | nil => simp [scan]
  | cons c cs ih =>
      cases skip with
      | succ skip =>
          have h := ih before gap offset skip
          simp only [scan, List.length_cons]
          omega
      | zero =>
          simp only [scan]
          split
          · exact Nat.le_succ_of_le (ih _ _ _ _)
          · exact Nat.succ_le_succ (ih _ _ _ _)

theorem lex_length_le (source : String) : (lex source).length ≤ source.toList.length + 1 :=
  Lexer.scan_length_le _ _ _ _ _

theorem Parser.bind_eq_ok {α β : Type} {x : Parser α} {f : α → Parser β} {c e : Cursor} {w : β} :
    (x >>= f) c = .ok (w, e) ↔ ∃ v d, x c = .ok (v, d) ∧ f v d = .ok (w, e) := by
  simp only [bind, StateT.bind, Except.bind]
  constructor
  · intro h
    split at h
    · cases h
    next v hv => exact ⟨v.1, v.2, hv, h⟩
  · rintro ⟨v, d, hx, hf⟩
    rw [hx]
    exact hf

/-- A loop runs at least once more than it gives results. -/
theorem Parser.manyWithin_length {α : Type} {step : Parser (Option α)} {rounds : Nat}
    {c d : Cursor} {xs : List α} (h : manyWithin step rounds c = .ok (xs, d)) :
    xs.length < rounds := by
  induction rounds generalizing c d xs with
  | zero => cases h
  | succ rounds ih =>
      rw [manyWithin, bind_eq_ok] at h
      obtain ⟨found, c', -, h⟩ := h
      cases found with
      | none =>
          cases h
          exact Nat.succ_pos _
      | some x =>
          obtain ⟨ys, d', hys, h⟩ := bind_eq_ok.1 h
          cases h
          exact Nat.succ_lt_succ (ih hys)

theorem Parser.many_length {α : Type} {step : Parser (Option α)} {c d : Cursor} {xs : List α}
    (h : many step c = .ok (xs, d)) : xs.length ≤ c.ahead.length :=
  Nat.le_of_lt_succ (manyWithin_length h)

theorem Grammar.statements_length {g : Grammar} {c d : Cursor} {items : List Item}
    (h : statements g c = .ok (items, d)) : items.length ≤ c.ahead.length := by
  obtain ⟨found, d', hfound, h⟩ := Parser.bind_eq_ok.1 h
  cases h
  exact Nat.le_trans (List.length_filterMap_le _ _) (Parser.many_length hfound)

theorem parse_length {source : String} {items : List Item} (h : parse source = .ok items) :
    items.length ≤ source.toList.length := by
  unfold parse parseTokens at h
  generalize hs : (Grammar.withLevels _).statements _ = outcome at h
  cases outcome with
  | error e => cases h
  | ok v =>
      cases h
      have hitems := Grammar.statements_length hs
      have htokens := lex_length_le source
      simp only [Cursor.ofTokens, List.length_dropLast] at hitems
      omega

end HandlerWeave.Source

namespace HandlerWeave.Text

theorem byteLength_eq (cs : List Char) : byteLength cs = (String.ofList cs).utf8ByteSize := by
  induction cs with
  | nil => simp [byteLength]
  | cons c cs ih => simp [byteLength, ih, String.ofList_cons]

theorem length_le_byteLength (cs : List Char) : cs.length ≤ byteLength cs := by
  induction cs with
  | nil => exact Nat.le_refl 0
  | cons c cs ih =>
      have hc := c.utf8Size_pos
      simp only [byteLength, List.length_cons]
      omega

theorem length_le_of_fromUTF8 {contents : ByteArray} {text : String}
    (h : String.fromUTF8? contents = some text) : text.toList.length ≤ contents.size := by
  unfold String.fromUTF8? at h
  split at h
  · cases h
    calc _ ≤ byteLength (String.fromUTF8 contents _).toList := length_le_byteLength _
      _ = (String.fromUTF8 contents _).utf8ByteSize := by rw [byteLength_eq, String.ofList_toList]
      _ = contents.size := rfl
  · cases h

end HandlerWeave.Text
