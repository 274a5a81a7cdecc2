import HandlerWeave.Proofs.Lockstep.Diagonal
import HandlerWeave.Proofs.Lockstep.Twins

/-!
Two texts that differ inside one pair of braces only. The runs over them agree up to the opening
brace, and the braces are a hole: the runs come past them by skipping the group.
-/
namespace HandlerWeave.Source

open Source.Parser Source.Group

/-- The token without the place where it starts. -/
def Token.unplaced (t : Token) : Token := { t with start := 0 }

theorem Token.unplaced_eq {t t' : Token} (h : t.unplaced = t'.unplaced) :
    t.kind = t'.kind ∧ t.gap = t'.gap ∧ t.text = t'.text := by
  simpa [unplaced] using h

/-- The same tokens with the same gaps in front of them. -/
def Alike (ts ts' : List Token) : Prop := ts.map Token.unplaced = ts'.map Token.unplaced

instance {ts ts' : List Token} : Decidable (Alike ts ts') := inferInstanceAs (Decidable (_ = _))

namespace Alike

variable {ts ts' us us' : List Token} {t : Token} {α : Type}

theorem map (h : Alike ts ts') (f : Token → α) (hf : ∀ t, f t.unplaced = f t) :
    ts.map f = ts'.map f := by
  have hmap (us : List Token) : us.map f = (us.map Token.unplaced).map f := by
    rw [List.map_map]
    exact List.map_congr_left fun t _ => (hf t).symm
  rw [hmap ts, hmap ts', h]

theorem map_kind (h : Alike ts ts') : ts.map Token.kind = ts'.map Token.kind :=
  h.map _ fun _ => rfl

theorem map_spelled (h : Alike ts ts') : ts.map Token.spelled = ts'.map Token.spelled :=
  h.map _ fun _ => rfl

theorem length_eq (h : Alike ts ts') : ts.length = ts'.length := by
  simpa using congrArg List.length h

theorem cons {t' : Token} (ht : t.unplaced = t'.unplaced) (h : Alike ts ts') :
    Alike (t :: ts) (t' :: ts') := by
  rw [Alike, List.map_cons, List.map_cons, ht, h]

theorem append (h : Alike ts ts') (hus : Alike us us') : Alike (ts ++ us) (ts' ++ us') := by
  rw [Alike, List.map_append, List.map_append, h, hus]

theorem take (h : Alike ts ts') (n : Nat) : Alike (ts.take n) (ts'.take n) := by
  rw [Alike, List.map_take, List.map_take, h]

theorem drop (h : Alike ts ts') (n : Nat) : Alike (ts.drop n) (ts'.drop n) := by
  rw [Alike, List.map_drop, List.map_drop, h]

theorem cons_left (h : Alike (t :: ts) us) :
    ∃ t' ts', us = t' :: ts' ∧ t.unplaced = t'.unplaced ∧ Alike ts ts' := by
  obtain ⟨t', ts', rfl, ht, hts⟩ := List.map_eq_cons_iff.1 h.symm
  exact ⟨t', ts', rfl, ht.symm, hts.symm⟩

theorem nil_left (h : Alike [] us) : us = [] := List.map_eq_nil_iff.1 h.symm

theorem getLast_kind (h : Alike ts ts') :
    ts.getLast?.map Token.kind = ts'.getLast?.map Token.kind := by
  rw [← List.getLast?_map, ← List.getLast?_map, h.map_kind]

/-- Behind the last token both look at the one that ends the file. -/
theorem getD {file file' : Token} (h : Alike ts ts') (hfile : file.unplaced = file'.unplaced)
    (n : Nat) :
    ((ts[n]?).getD file).unplaced = ((ts'[n]?).getD file').unplaced := by
  have hmap (ts : List Token) (t : Token) :
      ((ts[n]?).getD t).unplaced = ((ts.map Token.unplaced)[n]?).getD t.unplaced := by
    rw [List.getElem?_map, Option.getD_map]
  rw [hmap, hmap, h, hfile]

end Alike

/-- The tokens of a text around a pair of braces. -/
structure Block where
  front : List Token
  opening : Token
  inside : List Token
  closing : Token
  back : List Token
  file : Token
  opening_kind : opening.kind = .leftBrace
  closing_kind : closing.kind = .rightBrace
  nested : Nested inside
  file_kind : file.kind = .endOfFile
  front_kind : ∀ t ∈ front, t.kind ≠ .endOfFile
  inside_kind : ∀ t ∈ inside, t.kind ≠ .endOfFile
  back_kind : ∀ t ∈ back, t.kind ≠ .endOfFile

namespace Block

/-- The braces and what stands in them. -/
def group (X : Block) : List Token := X.opening :: X.inside ++ [X.closing]

/-- The place in front of the opening brace. -/
def hole (X : Block) : Cursor := .between X.front (X.group ++ X.back) X.file

theorem nested_group (X : Block) : Nested X.group := by
  have hopens : X.opening.kind.closing? = some .rightBrace := by
    rw [X.opening_kind]
    rfl
  have hcloses : open1? [.rightBrace] X.closing = some [] := by
    have h := open1?_closes (t := X.closing) (w := []) (by rw [X.closing_kind]; rfl)
    rwa [X.closing_kind] at h
  rw [group, List.cons_append]
  refine open?_cons_eq_some.2 ⟨_, open1?_opens hopens, ?_⟩
  rw [open?_append, X.nested.open?]
  exact open?_cons_eq_some.2 ⟨_, hcloses, rfl⟩

theorem length_inside (X : Block) (rest : List Token) :
    Group.length [.rightBrace] (X.inside ++ [X.closing] ++ rest) = .ok (X.inside.length + 1) := by
  have hcloses := open1?_closes (t := X.closing) (w := []) (by rw [X.closing_kind]; rfl)
  rw [X.closing_kind] at hcloses
  rw [List.append_assoc, ← List.nil_append [Token.Kind.rightBrace],
    length_append_of_open X.nested (List.cons_ne_nil _ _), List.nil_append, List.singleton_append,
    length_cons (List.cons_ne_nil _ _), hcloses]
  simp only [length_nil_waiting]
  exact congrArg Except.ok (by omega)

/-- The hole is passed as a group. -/
theorem passGroup_hole (X : Block) :
    passGroup X.hole = .ok ((), .between (X.front ++ X.group) X.back X.file) := by
  have hopens : X.opening.kind.closing? = some .rightBrace := by
    rw [X.opening_kind]
    rfl
  have h : passGroup (.between X.front (X.opening :: (X.inside ++ [X.closing] ++ X.back)) X.file) =
      _ := passGroup_between hopens (X.length_inside X.back)
  have hcount : (X.inside ++ [X.closing]).length = X.inside.length + 1 := by simp
  rw [← hcount, List.take_left, List.drop_left] at h
  exact h

/-- A group around the hole is skipped with it. -/
theorem length_around (X : Block) {w : List Token.Kind} (hw : w ≠ []) :
    Group.length w (X.group ++ X.back) = shift X.group.length (Group.length w X.back) := by
  have h := length_append_of_open X.nested_group hw X.back
  exact h

theorem getLast?_group (X : Block) (passed skipped : List Token) :
    (passed ++ (X.group ++ skipped)).getLast?.map Token.kind =
      some ((skipped.getLast?.map Token.kind).getD .rightBrace) := by
  rw [List.getLast?_append, List.getLast?_append, group, List.getLast?_concat]
  cases skipped.getLast? with
  | none => simp [X.closing_kind]
  | some t => simp

end Block

/-- The texts agree outside the braces. -/
structure Exchange (X Y : Block) : Prop where
  front : Alike X.front Y.front
  opening : X.opening.unplaced = Y.opening.unplaced
  back : Alike X.back Y.back
  file : X.file.unplaced = Y.file.unplaced
  /-- No type and no expression starts at the opening brace. -/
  plain : X.front.getLast?.any Token.heads = false

namespace Exchange

variable {X Y : Block} {c c' d d' : Cursor} {passed passed' ahead ahead' : List Token}
  {σ τ : List Token.Kind}

/-- Both runs stand in front of the braces. -/
def Before (X Y : Block) (c c' : Cursor) : Prop :=
  ∃ passed ahead passed' ahead', X.front = passed ++ ahead ∧ Y.front = passed' ++ ahead' ∧
    Alike passed passed' ∧ Alike ahead ahead' ∧
    c = .between passed (ahead ++ (X.group ++ X.back)) X.file ∧
    c' = .between passed' (ahead' ++ (Y.group ++ Y.back)) Y.file

/-- Both runs have come past the braces. -/
def After (X : Block) (c c' : Cursor) : Prop :=
  c.Twins (X.back.length + 1) (fun _ _ => True) c' ∧ c.left ≤ X.back.length

def Near (X Y : Block) (c c' : Cursor) : Prop := Before X Y c c' ∨ After X c c'

/-- Behind the braces the tokens look alike. -/
theorem after_of_alike (hx : Exchange X Y) (hahead : Alike ahead ahead') {skipped : List Token}
    (hback : X.back = skipped ++ ahead)
    (hbefore : passed.getLast?.map Token.kind = passed'.getLast?.map Token.kind) :
    After X (.between passed ahead X.file) (.between passed' ahead' Y.file) := by
  have hle : ahead.length ≤ X.back.length := by
    rw [hback, List.length_append]
    exact Nat.le_add_left _ _
  have hlook (n : Nat) := Token.unplaced_eq (hahead.getD hx.file n)
  refine ⟨⟨hahead.length_eq, Nat.le_succ_of_le hle, fun n => ?_, fun n => ?_, fun _ => trivial,
    fun n _ _ => ?_, fun n => ?_, .inl ⟨Nat.lt_succ_of_le hle, hbefore⟩⟩, hle⟩
  · exact (hlook n).1
  · exact (hlook n).2.2
  · exact (hlook n).2.1
  · rw [Cursor.between_left, Cursor.kindAhead, Cursor.tokenAt, Cursor.between_ahead]
    refine ⟨fun hkind => Nat.le_of_not_lt fun hlt => ?_, fun hle => ?_⟩
    · rw [List.getElem?_eq_getElem hlt] at hkind
      exact X.back_kind _
        (by rw [hback]; exact List.mem_append_right _ (List.getElem_mem hlt)) hkind
    · rw [List.getElem?_eq_none hle]
      exact X.file_kind

theorem Before.token (hx : Exchange X Y) (h : Before X Y c c') :
    c.token.unplaced = c'.token.unplaced := by
  obtain ⟨passed, ahead, passed', ahead', -, -, -, hahead, rfl, rfl⟩ := h
  cases ahead with
  | nil =>
      obtain rfl := hahead.nil_left
      exact hx.opening
  | cons t ahead =>
      obtain ⟨t', ahead', rfl, ht, -⟩ := hahead.cons_left
      exact ht

theorem Before.left (h : Before X Y c c') : X.hole.left ≤ c.left ∧ Y.hole.left ≤ c'.left := by
  obtain ⟨passed, ahead, passed', ahead', -, -, -, hahead, rfl, rfl⟩ := h
  simp only [Block.hole, Cursor.between_left, List.length_append]
  omega

theorem hole_left : X.back.length < X.hole.left := by
  simp [Block.hole, Block.group]
  omega

theorem After.left (h : After X c c') : c.left < X.hole.left :=
  Nat.lt_of_le_of_lt h.2 hole_left

theorem Near.before (h : Near X Y c c') (hle : X.hole.left ≤ c.left) : Before X Y c c' :=
  h.resolve_right fun hafter => Nat.not_lt_of_le hle hafter.left

theorem Before.cases (h : Before X Y c c') : (c = X.hole ∧ c' = Y.hole) ∨
    ∃ passed t ahead passed' t' ahead', X.front = passed ++ t :: ahead ∧
      Y.front = passed' ++ t' :: ahead' ∧ Alike passed passed' ∧ t.unplaced = t'.unplaced ∧
      Alike ahead ahead' ∧ c = .between passed (t :: (ahead ++ (X.group ++ X.back))) X.file ∧
      c' = .between passed' (t' :: (ahead' ++ (Y.group ++ Y.back))) Y.file := by
  obtain ⟨passed, ahead, passed', ahead', hfront, hfront', hpassed, hahead, rfl, rfl⟩ := h
  cases ahead with
  | nil =>
      obtain rfl := hahead.nil_left
      rw [List.append_nil] at hfront hfront'
      exact .inl ⟨by rw [Block.hole, hfront]; rfl, by rw [Block.hole, hfront']; rfl⟩
  | cons t ahead =>
      obtain ⟨t', ahead', rfl, ht, hahead⟩ := hahead.cons_left
      exact .inr ⟨passed, t, ahead, passed', t', ahead', hfront, hfront', hpassed, ht, hahead, rfl,
        rfl⟩

theorem Before.before_kind (h : Before X Y c c') :
    c.before.map Token.kind = c'.before.map Token.kind := by
  obtain ⟨passed, ahead, passed', ahead', -, -, hpassed, -, rfl, rfl⟩ := h
  exact hpassed.getLast_kind

theorem Before.kind_ne (h : Before X Y c c') : c.kind ≠ .endOfFile ∧ c.ahead ≠ [] := by
  obtain ⟨rfl, -⟩ | ⟨passed, t, ahead, passed', t', ahead', hfront, -, -, -, -, rfl, rfl⟩ := h.cases
  · have hkind : X.hole.kind = .leftBrace := X.opening_kind
    exact ⟨by rw [hkind]; decide, List.cons_ne_nil _ _⟩
  · exact ⟨X.front_kind t (by simp [hfront]), List.cons_ne_nil _ _⟩

theorem Near.kind_eq (hx : Exchange X Y) (h : Near X Y c c') : c.kind = c'.kind := by
  obtain h | h := h
  · exact (Token.unplaced_eq (h.token hx)).1
  · exact h.1.kind 0

theorem Near.text_eq (hx : Exchange X Y) (h : Near X Y c c') : c.text = c'.text := by
  obtain h | h := h
  · exact (Token.unplaced_eq (h.token hx)).2.2
  · exact h.1.text 0

theorem Near.newline_eq (hx : Exchange X Y) (h : Near X Y c c') :
    c.newlineBefore = c'.newlineBefore := by
  obtain h | h := h
  · have hnewline := congrArg Token.newlineBefore (h.token hx)
    exact hnewline
  · exact h.1.newline_eq (Nat.lt_succ_of_le h.2)

theorem Near.any_before_eq (h : Near X Y c c') (p : Token.Kind → Bool)
    (hp : ∀ kind, Cursor.operandEnds.contains kind = false → p kind = false) :
    c.before.any (p ·.kind) = c'.before.any (p ·.kind) := by
  obtain h | h := h
  · have hany (c : Cursor) : c.before.any (p ·.kind) = (c.before.map Token.kind).any p := by
      cases c.before <;> rfl
    rw [hany, hany, h.before_kind]
  · exact h.1.any_before_eq p hp

theorem Near.break_eq (hx : Exchange X Y) (h : Near X Y c c') :
    c.atStatementBreak = c'.atStatementBreak := by
  rw [Cursor.Twins.atStatementBreak_eq, Cursor.Twins.atStatementBreak_eq, Cursor.check,
    Cursor.check, Cursor.check, Cursor.check, h.kind_eq hx, h.newline_eq hx,
    h.any_before_eq Cursor.operandEnds.contains fun _ hkind => hkind]

theorem Near.file_iff (h : Near X Y c c') : c.kind = .endOfFile ↔ c.ahead = [] := by
  obtain h | h := h
  · exact ⟨fun hkind => absurd hkind h.kind_ne.1, fun hnil => absurd hnil h.kind_ne.2⟩
  · exact h.1.ahead_iff

theorem Near.left_le (h : Near X Y c c') : c.left ≤ X.front.length + X.hole.left := by
  obtain h | h := h
  · obtain ⟨passed, ahead, passed', ahead', hfront, -, -, -, rfl, -⟩ := h
    simp only [hfront, Block.hole, Cursor.between_left, List.length_append]
    omega
  · exact Nat.le_of_lt (Nat.lt_of_lt_of_le h.left (Nat.le_add_left _ _))

theorem Near.left_lt (hx : Exchange X Y) (h : Near X Y c c') (hd : Near X Y d d')
    (hlt : d.left < c.left) : d'.left < c'.left := by
  obtain hd | hd := hd
  · have hle := hd.left.1
    obtain ⟨passed, ahead, passed', ahead', -, -, -, hahead, rfl, rfl⟩ := h.before (by omega)
    obtain ⟨passed₂, ahead₂, passed₂', ahead₂', -, -, -, hahead₂, rfl, rfl⟩ := hd
    have hlength := hahead.length_eq
    have hlength₂ := hahead₂.length_eq
    simp only [Cursor.between_left, List.length_append] at hlt ⊢
    omega
  · obtain h | h := h
    · have hback := hx.back.length_eq
      have hle := h.left.2
      have hsame := hd.1.left
      have hlast := hd.2
      have hhole : Y.back.length < Y.hole.left := hole_left
      omega
    · exact Cursor.Twins.left_lt h.1 hd.1 hlt

theorem Before.slice_eq (h : Before X Y c c') (hd : Before X Y d d') :
    c.textSince d = c'.textSince d' := by
  obtain ⟨passed, ahead, passed', ahead', -, -, -, hahead, rfl, rfl⟩ := h
  obtain ⟨passed₂, ahead₂, passed₂', ahead₂', -, -, -, hahead₂, rfl, rfl⟩ := hd
  have hcount {G : List Token} (ts us : List Token) :
      (ts ++ G).take ((ts ++ G).length - (us ++ G).length) = ts.take (ts.length - us.length) := by
    rw [List.length_append, List.length_append, Nat.add_sub_add_right,
      List.take_append_of_le_length (Nat.sub_le _ _)]
  rw [Cursor.textSince, Cursor.textSince]
  simp only [Cursor.between_ahead, hcount]
  have htaken := hahead.take (ahead.length - ahead₂.length)
  rw [← hahead.length_eq, ← hahead₂.length_eq]
  generalize ahead.take _ = ts, ahead'.take _ = ts' at htaken ⊢
  cases ts with
  | nil =>
      obtain rfl := htaken.nil_left
      rfl
  | cons t ts =>
      obtain ⟨t', ts', rfl, ht, hts⟩ := htaken.cons_left
      simp only [(Token.unplaced_eq ht).2.2, hts.map_spelled]

theorem Near.advance (h : Near X Y c c') (hkind : c.kind ≠ .endOfFile)
    (hhole : c ≠ X.hole) : Near X Y c.advance c'.advance ∧ c.advance.left < c.left := by
  have hlt := Cursor.advance_left (mt h.file_iff.2 hkind)
  refine ⟨?_, by omega⟩
  obtain h | h := h
  · obtain ⟨rfl, -⟩ | ⟨passed, t, ahead, passed', t', ahead', hfront, hfront', hpassed, ht, hahead,
      rfl, rfl⟩ := h.cases
    · exact absurd rfl hhole
    · refine .inl
        ⟨passed ++ [t], ahead, passed' ++ [t'], ahead', by simp [hfront], by simp [hfront'],
        hpassed.append ?_, hahead, Cursor.between_advance, Cursor.between_advance⟩
      exact .cons ht rfl
  · exact .inr ⟨h.1.advance, by have := h.2; omega⟩

theorem take_around (as bs cs : List Token) (m : Nat) :
    (as ++ (bs ++ cs)).take (m + bs.length + as.length) = as ++ (bs ++ cs.take m) := by
  rw [Nat.add_comm _ as.length, List.take_length_add_append, Nat.add_comm m,
    List.take_length_add_append]

theorem drop_around (as bs cs : List Token) (m : Nat) :
    (as ++ (bs ++ cs)).drop (m + bs.length + as.length) = cs.drop m := by
  rw [Nat.add_comm _ as.length, List.drop_length_add_append, Nat.add_comm m,
    List.drop_length_add_append]

/-- A group in front of the braces ends in front of them, or both runs skip the braces with it. -/
theorem passGroup_agrees (hx : Exchange X Y) {t t' : Token} {closer : Token.Kind}
    (hfront : X.front = passed ++ t :: ahead) (hfront' : Y.front = passed' ++ t' :: ahead')
    (hpassed : Alike passed passed') (ht : t.unplaced = t'.unplaced) (hahead : Alike ahead ahead')
    (hopens : t.kind.closing? = some closer) :
    Agree (fun _ _ => True) passGroup passGroup
      (.between passed (t :: (ahead ++ (X.group ++ X.back))) X.file)
      (.between passed' (t' :: (ahead' ++ (Y.group ++ Y.back))) Y.file)
      fun _ _ d d' => Near X Y d d' ∧ d.left ≤ (ahead ++ (X.group ++ X.back)).length := by
  have hopens' : t'.kind.closing? = some closer := by rw [← (Token.unplaced_eq ht).1, hopens]
  have hcongr (rest : List Token) :
      Group.length [closer] (ahead' ++ rest) = Group.length [closer] (ahead ++ rest) :=
    length_congr (by rw [List.map_append, List.map_append, hahead.map_kind])
  have hfails {fault fault' : Fault}
    (h : Group.length [closer] (ahead ++ (X.group ++ X.back)) = .error fault)
      (h' : Group.length [closer] (ahead' ++ (Y.group ++ Y.back)) = .error fault')
      {Q : Unit → Unit → Cursor → Cursor → Prop} : Agree (fun _ _ => True) passGroup passGroup
        (.between passed (t :: (ahead ++ (X.group ++ X.back))) X.file)
        (.between passed' (t' :: (ahead' ++ (Y.group ++ Y.back))) Y.file) Q := by
    obtain ⟨e, he⟩ := passGroup_fails passed X.file hopens h
    obtain ⟨e', he'⟩ := passGroup_fails passed' Y.file hopens' h'
    rw [Agree, he, he']
    trivial
  obtain ⟨n, hn, hok⟩ | ⟨n, hn, hbad⟩ | ⟨v, hv, -, hgoes⟩ := length_append_cases [closer] ahead
  · have hn' : n ≤ ahead'.length := by rwa [← hahead.length_eq]
    rw [Agree, passGroup_between hopens (hok _),
      passGroup_between hopens' ((hcongr _).trans (hok _)),
      List.take_append_of_le_length hn, List.drop_append_of_le_length hn,
      List.take_append_of_le_length hn', List.drop_append_of_le_length hn']
    refine ⟨.inl ⟨passed ++ t :: ahead.take n, ahead.drop n, passed' ++ t' :: ahead'.take n,
      ahead'.drop n, by simp [hfront], by simp [hfront'], hpassed.append (.cons ht (hahead.take n)),
      hahead.drop n, rfl, rfl⟩, ?_⟩
    simp
  · exact hfails (hbad _) ((hcongr _).trans (hbad _))
  · have hlength := (hgoes _).trans (congrArg _ (X.length_around hv))
    have hlength' := ((hcongr _).trans (hgoes _)).trans (congrArg _ (Y.length_around hv))
    rw [← length_congr hx.back.map_kind] at hlength'
    cases hback : Group.length v X.back with
    | error fault =>
        rw [hback] at hlength hlength'
        exact hfails hlength hlength'
    | ok m =>
        rw [hback] at hlength
        rw [hback, hahead.length_eq] at hlength'
        rw [Agree, passGroup_between hopens hlength, passGroup_between hopens' hlength',
          take_around,
          take_around, drop_around, drop_around]
        refine ⟨.inr (after_of_alike hx (hx.back.drop m) (List.take_append_drop m _).symm ?_), ?_⟩
        · have hsplit (ps as bs : List Token) (t : Token) :
              ps ++ t :: (as ++ bs) = ps ++ t :: as ++ bs := by simp
          rw [hsplit, hsplit, X.getLast?_group, Y.getLast?_group, (hx.back.take m).getLast_kind]
        · simp only [Cursor.between_left, List.length_append, List.length_drop]
          omega

/-- Behind the braces both runs see the same. -/
theorem after (hx : Exchange X Y) : After X (.between (X.front ++ X.group) X.back X.file)
    (.between (Y.front ++ Y.group) Y.back Y.file) := by
  refine after_of_alike hx hx.back (List.nil_append _).symm ?_
  have hlast := X.getLast?_group X.front []
  have hlast' := Y.getLast?_group Y.front []
  rw [List.append_nil] at hlast hlast'
  rw [hlast, hlast']

theorem Near.group (hx : Exchange X Y) (h : Near X Y c c')
    (hopens : c.kind.closing?.isSome = true) :
    Agree (fun _ _ => True) passGroup passGroup c c' fun _ _ d d' =>
      Near X Y d d' ∧ d.left < c.left := by
  obtain h | h := h
  · obtain ⟨rfl, rfl⟩ |
      ⟨passed, t, ahead, passed', t', ahead', hfront, hfront', hpassed, ht, hahead,
      rfl, rfl⟩ := h.cases
    · rw [Agree, X.passGroup_hole, Y.passGroup_hole]
      exact ⟨.inr hx.after, hole_left⟩
    · obtain ⟨closer, hcloser⟩ := Option.isSome_iff_exists.1 hopens
      exact (passGroup_agrees hx hfront hfront' hpassed ht hahead hcloser).mono
        fun _ _ _ _ hd => ⟨hd.1, Nat.lt_succ_of_le hd.2⟩
  · exact (h.1.passGroup_agrees hopens).anyFault.mono fun _ _ d d' hd =>
      ⟨.inr ⟨hd.1, Nat.le_of_lt (Nat.lt_of_lt_of_le hd.2 h.2)⟩, hd.2⟩

theorem Near.body (hx : Exchange X Y) (h : Near X Y c c') :
    Agree (fun _ _ => True) Grammar.passToBody Grammar.passToBody c c' fun _ _ d d' =>
      Near X Y d d' ∧ d.left < c.left :=
  Grammar.passToBody_agrees_of (N := Near X Y) (fun h hd => h.left_lt hx hd) (fun h => h.kind_eq hx)
    (fun _ _ => trivial)
    (fun h hfile hnone => h.advance hfile fun hhole => by
      have hkind : X.hole.kind = .leftBrace := X.opening_kind
      rw [hhole, hkind] at hnone
      cases hnone)
    (fun h hgroup => h.group hx (by obtain hkind | hkind := hgroup <;> rw [hkind] <;> rfl))
    (fun h hbrace => h.group hx (by rw [hbrace]; rfl)) h

theorem Near.slice_eq (h : Near X Y c c') (hd : Near X Y d d') (hle : d.left ≤ c.left)
    (hfar : X.hole.left ≤ d.left) : c.textSince d = c'.textSince d' :=
  (h.before (Nat.le_trans hfar hle)).slice_eq (hd.before hfar)

theorem getElem?_around (as bs cs : List Token) (m : Nat) :
    (as ++ (bs ++ cs))[m + bs.length + as.length]? = cs[m]? := by
  rw [List.getElem?_append_right (Nat.le_add_left _ _), Nat.add_sub_cancel,
    List.getElem?_append_right (Nat.le_add_left _ _), Nat.add_sub_cancel]

theorem closingIndex?_around (X : Block) {depth : Nat} (hdepth : 0 < depth) :
    closingIndex? depth (X.group ++ X.back) =
      (closingIndex? depth X.back).map (· + X.group.length) := by
  have h := closingIndex?_append_of_open X.nested_group hdepth X.back
  rwa [List.length_nil, Nat.zero_add] at h

/-- The token behind a parenthesis is of the same kind in both texts. -/
theorem atArrowParams_eq (hx : Exchange X Y) {t t' : Token} (ht : t.unplaced = t'.unplaced)
    (hahead : Alike ahead ahead') (hparen : t.kind = .leftParen) :
    Grammar.atArrowParams (.between passed (t :: (ahead ++ (X.group ++ X.back))) X.file) =
      Grammar.atArrowParams (.between passed' (t' :: (ahead' ++ (Y.group ++ Y.back))) Y.file) := by
  have hindex {t : Token} (ts : List Token) (hparen : t.kind = .leftParen) :
      closingIndex? 0 (t :: ts) = (closingIndex? 1 ts).map (· + 1) := by
    rw [closingIndex?, if_pos (by rw [hparen]; rfl)]
  have hparen' : t'.kind = .leftParen := by rw [← (Token.unplaced_eq ht).1, hparen]
  have hcongr (rest : List Token) :
      closingIndex? 1 (ahead' ++ rest) = closingIndex? 1 (ahead ++ rest) :=
    closingIndex?_congr (by rw [List.map_append, List.map_append, hahead.map_kind])
  simp only [Grammar.atArrowParams, Cursor.check, Cursor.between_kind, hparen, hparen',
    Cursor.between_ahead, hindex _ hparen, hindex _ hparen', hcongr]
  obtain ⟨n, hn, hfound⟩ | ⟨depth, hdepth, hgoes⟩ := closingIndex?_append_cases Nat.one_pos ahead
  · simp only [hfound, Option.map_some]
    have hopening (X : Block) {ts : List Token} (hlt : n < ts.length) :
        (ts ++ (X.group ++ X.back))[n + 1]? = (ts ++ [X.opening])[n + 1]? := by
      have hsplit : ts ++ (X.group ++ X.back) =
          ts ++ [X.opening] ++ (X.inside ++ [X.closing] ++ X.back) := by simp [Block.group]
      rw [hsplit, List.getElem?_append_left (by simpa using hlt)]
    have halike : Alike (ahead ++ [X.opening]) (ahead' ++ [Y.opening]) :=
      hahead.append (.cons hx.opening rfl)
    have hnext := (Token.unplaced_eq (halike.getD hx.file (n + 1))).1
    rw [← hopening X hn, ← hopening Y (hahead.length_eq ▸ hn)] at hnext
    exact congrArg (fun kind => true && (kind == Token.Kind.arrow)) hnext
  · rw [hgoes, hgoes, closingIndex?_around X hdepth, closingIndex?_around Y hdepth,
      ← closingIndex?_congr hx.back.map_kind]
    cases closingIndex? depth X.back with
    | none => rfl
    | some m =>
        have hnext := (Token.unplaced_eq (hx.back.getD hx.file (m + 1))).1
        have hcount (k : Nat) : m + 1 + k + ahead.length = m + k + ahead.length + 1 := by omega
        rw [← getElem?_around ahead X.group X.back, ← getElem?_around ahead' Y.group Y.back,
          ← hahead.length_eq, hcount, hcount] at hnext
        exact congrArg (fun kind => true && (kind == Token.Kind.arrow)) hnext

theorem Before.arrow_eq (hx : Exchange X Y) (h : Before X Y c c') :
    Grammar.atArrowParams c = Grammar.atArrowParams c' := by
  have hkind := Near.kind_eq hx (.inl h)
  by_cases hparen : c.kind = .leftParen
  · obtain ⟨rfl, rfl⟩ | ⟨passed, t, ahead, passed', t', ahead', -, -, -, ht, hahead, rfl, rfl⟩ :=
      h.cases
    · exact absurd (X.opening_kind.symm.trans hparen) (by decide)
    · exact atArrowParams_eq hx ht hahead hparen
  · have hcheck {c : Cursor} (hparen : c.kind ≠ .leftParen) : Grammar.atArrowParams c = false := by
      rw [Grammar.atArrowParams, Cursor.check, beq_eq_false_iff_ne.2 hparen, Bool.false_and]
    rw [hcheck hparen, hcheck (hkind ▸ hparen)]

theorem Near.arrow_eq (hx : Exchange X Y) (h : Near X Y c c') :
    Grammar.atArrowParams c = Grammar.atArrowParams c' := by
  obtain h | h := h
  · exact h.arrow_eq hx
  · exact h.1.arrow_eq

theorem Near.plain (h : Near X Y c c') (hplain : c.kind.isPlain = true) :
    Near X Y c.advance c'.advance := by
  refine (h.advance (fun hfile => ?_) fun hhole => ?_).1
  · rw [hfile] at hplain
    cases hplain
  · have hkind : X.hole.kind = .leftBrace := X.opening_kind
    rw [hhole, hkind] at hplain
    cases hplain

theorem Near.taken (h : Near X Y c c') {kind : Token.Kind} (hkind : c.kind = kind)
    (hfile : kind ≠ .endOfFile) (hbrace : kind ≠ .leftBrace) : Near X Y c.advance c'.advance := by
  subst hkind
  exact (h.advance hfile fun hhole => hbrace (by rw [hhole]; exact X.opening_kind)).1

end Exchange

/-- Types and expressions start behind their signs and words only, and the braces are a hole. -/
def Block.openings (X : Block) : Openings where
  toOperands := .led True
  hole c := c = X.hole
  ready := Cursor.Headed
  ready_of_headed h := h
  ready_of_operand h := h.2.headed
  hole_kind h := h ▸ X.opening_kind

namespace Exchange

variable {X Y : Block}

theorem not_headed (hx : Exchange X Y) {c : Cursor} (h : c = X.hole) : ¬ c.Headed := by
  subst h
  exact Bool.eq_false_iff.1 hx.plain

/-- Runs over two texts that differ in the braces. -/
def pairing (hx : Exchange X Y) : Pairing where
  toOpenings := X.openings
  near _ := Near X Y
  ended := Near X Y
  horizon := X.hole.left
  top := X.front.length + X.hole.left
  faults _ _ := True
  ended_of_near h := h
  kind_eq h := h.kind_eq hx
  text_eq h := h.text_eq hx
  file_iff h := h.file_iff
  left_le h := h.left_le
  left_lt h hd := h.left_lt hx hd
  newline_eq h _ := h.newline_eq hx
  break_eq h := h.break_eq hx
  decorated _ _ := trivial
  wordBefore_eq h := h.any_before_eq (· == .word) fun _ => Cursor.ne_word_of_operandEnds
  slice_eq h hd := h.slice_eq hd
  arrow_eq h := h.arrow_eq hx
  plain h hplain := h.plain hplain
  semicolon h hkind _ := h.taken hkind (by decide) (by decide)
  last h hkind := h.taken hkind (by decide) (by decide)
  opens h hkind hhole := (h.advance (fun hfile => by rw [hfile] at hkind; cases hkind) hhole).1
  closes h hcloses hkind := h.taken hkind (fun hfile => by rw [hfile] at hcloses; cases hcloses)
    fun hbrace => by rw [hbrace] at hcloses; cases hcloses
  not_ready _ hhole := hx.not_headed hhole
  group h := h.group hx
  body h _ _ := h.body hx
  fault _ _ := trivial

end Exchange

end HandlerWeave.Source
