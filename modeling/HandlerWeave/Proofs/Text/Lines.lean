import HandlerWeave.Proofs.Source.Splitting

/-!
Lines and columns. What is in front of a place in a text is whole lines, each with its line break,
and a part of one more line. The line and the column of the place count the first and measure the
second, so the two tell how far it is to the place.
-/
namespace HandlerWeave.Text

open Position

/-- The lines of a text, without the line breaks between them. -/
def lines (text : String) : List (List Char) := text.toList.splitOn '\n'

/-- Lines, each with a line break behind it. -/
def ended (ls : List (List Char)) : List Char := ls.flatMap (· ++ ['\n'])

variable {c : Char} {cs part rest front : List Char} {ls : List (List Char)} {here : Position}
  {text : String} {k : Nat}

theorem ended_cons (l : List Char) (ls : List (List Char)) :
    ended (l :: ls) = l ++ '\n' :: ended ls := by
  simp [ended]

/-- What is in front of a place. -/
theorem exists_ended (cs : List Char) :
    ∃ ls part, cs = ended ls ++ part ∧ (∀ l ∈ ls, '\n' ∉ l) ∧ '\n' ∉ part := by
  induction cs with
  | nil => exact ⟨[], [], rfl, by simp, by simp⟩
  | cons c cs ih =>
      obtain ⟨ls, part, rfl, hls, hpart⟩ := ih
      by_cases hc : c = '\n'
      · subst hc
        exact ⟨[] :: ls, part, by simp [ended_cons], by simpa using hls, hpart⟩
      · cases ls with
        | nil => exact ⟨[], c :: part, rfl, hls, by simpa [Ne.symm hc] using hpart⟩
        | cons l ls =>
            obtain ⟨hl, hls⟩ := List.forall_mem_cons.1 hls
            refine ⟨(c :: l) :: ls, part, by simp [ended_cons], List.forall_mem_cons.2 ⟨?_, hls⟩,
              hpart⟩
            simpa [Ne.symm hc] using hl

theorem splitOn_ended (hls : ∀ l ∈ ls, '\n' ∉ l) (cs : List Char) :
    (ended ls ++ cs).splitOn '\n' = ls ++ cs.splitOn '\n' := by
  induction ls with
  | nil => rfl
  | cons l ls ih =>
      obtain ⟨hl, hls⟩ := List.forall_mem_cons.1 hls
      rw [ended_cons, List.append_assoc, List.cons_append,
        List.splitOn_append_cons_self_of_not_mem hl, ih hls, List.cons_append]

theorem splitOn_part (hpart : '\n' ∉ part) (rest : List Char) :
    ∃ below, (part ++ rest).splitOn '\n' = (part ++ rest.takeWhile (· != '\n')) :: below := by
  induction rest generalizing part with
  | nil => exact ⟨[], by simp [List.splitOn_eq_singleton hpart]⟩
  | cons c rest ih =>
      by_cases hc : c = '\n'
      · subst hc
        exact ⟨_, by simpa using List.splitOn_append_cons_self_of_not_mem hpart rest⟩
      · have hnext : '\n' ∉ part ++ [c] := by simpa [Ne.symm hc] using hpart
        obtain ⟨below, hbelow⟩ := ih hnext
        exact ⟨below, by simpa [hc] using hbelow⟩

theorem walk_zero (here : Position) (cs : List Char) : walk here cs 0 = here := by
  cases cs with
  | nil => rfl
  | cons c cs => rw [walk, if_pos c.utf8Size_pos, Nat.add_zero]

theorem walk_cons (here : Position) (c : Char) (cs : List Char) (k : Nat) :
    walk here (c :: cs) (c.utf8Size + k) =
      walk (if c = '\n' then ⟨here.line + 1, 1⟩
        else { here with column := here.column + c.utf8Size }) cs k := by
  rw [walk, if_neg (Nat.not_lt.2 (Nat.le_add_right _ _)), Nat.add_sub_cancel_left]
  split <;> rfl

theorem walk_part (hpart : '\n' ∉ part) (here : Position) (cs : List Char) (k : Nat) :
    walk here (part ++ cs) (byteLength part + k) =
      walk { here with column := here.column + byteLength part } cs k := by
  induction part generalizing here with
  | nil => simp [byteLength]
  | cons c part ih =>
      obtain ⟨hc, hpart⟩ := not_or.1 (mt List.mem_cons.2 hpart)
      rw [List.cons_append, byteLength, Nat.add_assoc, walk_cons, if_neg (Ne.symm hc), ih hpart]
      simp only [Nat.add_assoc]

theorem walk_ended (hls : ∀ l ∈ ls, '\n' ∉ l) (n : Nat) (cs : List Char) (k : Nat) :
    walk ⟨n, 1⟩ (ended ls ++ cs) (byteLength (ended ls) + k) = walk ⟨n + ls.length, 1⟩ cs k := by
  induction ls generalizing n with
  | nil => simp [ended, byteLength]
  | cons l ls ih =>
      obtain ⟨hl, hls⟩ := List.forall_mem_cons.1 hls
      rw [ended_cons, List.append_assoc, List.cons_append, Source.Lexer.byteLength_append,
        Nat.add_assoc, walk_part hl, byteLength, Nat.add_assoc, walk_cons, if_pos rfl, ih hls,
        List.length_cons, ← Nat.add_assoc, Nat.add_right_comm]

theorem ofOffset_ended (htext : text.toList = ended ls ++ part ++ rest) (hls : ∀ l ∈ ls, '\n' ∉ l)
    (hpart : '\n' ∉ part) :
    ofOffset text (byteLength (ended ls ++ part)) = ⟨ls.length + 1, byteLength part + 1⟩ := by
  have hend := walk_part hpart ⟨1 + ls.length, 1⟩ rest 0
  rw [ofOffset, htext, List.append_assoc, Source.Lexer.byteLength_append, walk_ended hls]
  rw [Nat.add_zero, walk_zero] at hend
  rw [hend, Nat.add_comm 1, Nat.add_comm 1]

/-- The lines above a place with their line breaks and what is in front of the place on its own line
add up to its offset, and its line goes on behind it up to the next line break. -/
theorem ofOffset_lines (htext : text.toList = front ++ rest) :
    let p := ofOffset text (byteLength front)
    1 ≤ p.line ∧ 1 ≤ p.column ∧
      byteLength (ended ((lines text).take (p.line - 1))) + (p.column - 1) = byteLength front ∧
      ∃ line, (lines text)[p.line - 1]? = some line ∧
        p.column - 1 + byteLength (rest.takeWhile (· != '\n')) = byteLength line := by
  intro p
  obtain ⟨ls, part, rfl, hls, hpart⟩ := exists_ended front
  have hp : p = ⟨ls.length + 1, byteLength part + 1⟩ := ofOffset_ended htext hls hpart
  obtain ⟨below, hbelow⟩ := splitOn_part hpart rest
  have hlines : lines text = ls ++ (part ++ rest.takeWhile (· != '\n')) :: below := by
    rw [lines, htext, List.append_assoc, splitOn_ended hls, hbelow]
  rw [hp, hlines]
  simp only [Nat.add_sub_cancel, List.take_left]
  exact ⟨Nat.succ_pos _, Nat.succ_pos _, (Source.Lexer.byteLength_append _ _).symm,
    part ++ rest.takeWhile (· != '\n'), by simp, (Source.Lexer.byteLength_append _ _).symm⟩

end HandlerWeave.Text
