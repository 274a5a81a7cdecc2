import HandlerWeave.Proofs.Lockstep.Places

/-!
A run paired with itself. It keeps to the places of its text, and with it goes any property of the
tokens passed that the tokens taken and the groups passed keep.
-/
namespace HandlerWeave.Source

open Source.Parser Pairing

/-- The cursor stands between two tokens of a text. -/
def Cursor.StandsIn (l : Listing) (c : Cursor) : Prop :=
  ∃ passed ahead, l.front = passed ++ ahead ∧ c = .between passed ahead l.file

/-- A property of the tokens passed and of the brackets open behind them. -/
structure Trail (l : Listing) extends Operands where
  holds : List Token.Kind → List Token → Prop
  decorated {t} : t ∈ l.front → t.kind = .atSign → exprs
  plain {σ passed t} : holds σ passed → t.kind.isPlain = true → holds σ (passed ++ [t])
  semicolon {σ passed t} : holds σ passed → t.kind = .semicolon → holds σ (passed ++ [t])
  opens {σ passed t closer} : holds σ passed → t.kind.closing? = some closer →
    holds (closer :: σ) (passed ++ [t])
  closes {σ passed t} : holds (t.kind :: σ) passed → t.kind.isClosing = true →
    holds σ (passed ++ [t])
  group {σ passed ahead t closer n} : holds σ passed → t.kind.closing? = some closer →
    Group.length [closer] ahead = .ok n → holds σ (passed ++ t :: ahead.take n)
  body {σ passed ahead passed' ahead'} : holds σ passed → l.front = passed ++ ahead →
    l.front = passed' ++ ahead' → operand σ (.between passed ahead l.file) →
    (Cursor.between passed ahead l.file).atBodyWord = true →
    Grammar.passToBody (.between passed ahead l.file) = .ok ((), .between passed' ahead' l.file) →
    holds σ passed'

/-- Nothing is asked of the tokens passed. -/
def Trail.free (l : Listing) : Trail l where
  toOperands := .anywhere
  holds _ _ := True
  decorated _ _ := trivial
  plain _ _ := trivial
  semicolon _ _ := trivial
  opens _ _ := trivial
  closes _ _ := trivial
  group _ _ _ := trivial
  body _ _ _ _ _ _ := trivial

namespace Trail

variable {l : Listing} {σ : List Token.Kind} {c c' d d' : Cursor} (T : Trail l)

/-- The place at which the run stands, twice, with the property of what it has passed. -/
def Near (σ : List Token.Kind) (c c' : Cursor) : Prop :=
  c = c' ∧ ∃ passed ahead, l.front = passed ++ ahead ∧ c = .between passed ahead l.file ∧
    T.holds σ passed

variable {T}

theorem Near.standsIn (h : T.Near σ c c') : c.StandsIn l := by
  obtain ⟨-, passed, ahead, hfront, hc, -⟩ := h
  exact ⟨passed, ahead, hfront, hc⟩

/-- The kind of the next token tells whether there is one. -/
theorem Near.file_iff (h : T.Near σ c c') : c.kind = .endOfFile ↔ c.ahead = [] := by
  obtain ⟨-, passed, ahead, hfront, rfl, -⟩ := h
  cases ahead with
  | nil => exact ⟨fun _ => rfl, fun _ => l.file_kind⟩
  | cons t ahead =>
      refine ⟨fun hkind => absurd hkind (l.front_kind t ?_), nofun⟩
      rw [hfront]
      simp

/-- A token taken by the run. -/
theorem Near.advance {τ : List Token.Kind} (h : T.Near σ c c') (hkind : c.kind ≠ .endOfFile)
    (hholds : ∀ passed, T.holds σ passed → T.holds τ (passed ++ [c.token])) :
    T.Near τ c.advance c'.advance := by
  have hahead := mt h.file_iff.2 hkind
  obtain ⟨rfl, passed, ahead, hfront, rfl, hpassed⟩ := h
  cases ahead with
  | nil => exact absurd rfl hahead
  | cons t ahead =>
      rw [Cursor.between_advance]
      exact ⟨rfl, passed ++ [t], ahead, by simpa using hfront, rfl, hholds passed hpassed⟩

/-- No failure of a run comes from a limit on its depth. -/
def Fault (e e' : SyntaxError) : Prop := e = e' ∧ e.cause ≠ .tooDeep

/-- A group is passed as far as it reaches. -/
theorem passGroup_self {passed ahead : List Token} {t final : Token} {closer : Token.Kind}
    (hopens : t.kind.closing? = some closer) :
    Agree Fault passGroup passGroup (.between passed (t :: ahead) final)
      (.between passed (t :: ahead) final) fun _ _ d d' => d = d' ∧
        ∃ n, Group.length [closer] ahead = .ok n ∧
          d = .between (passed ++ t :: ahead.take n) (ahead.drop n) final := by
  cases hlength : Group.length [closer] ahead with
  | ok n =>
      rw [Agree, passGroup_between hopens hlength]
      exact ⟨rfl, n, rfl, rfl⟩
  | error fault =>
      obtain ⟨e, he⟩ := passGroup_fails passed final hopens hlength
      rw [Agree, he]
      exact ⟨rfl, passGroup_error he⟩

theorem Near.group (h : T.Near σ c c') (hopens : c.kind.closing?.isSome = true) :
    Agree Fault passGroup passGroup c c' fun _ _ d d' => T.Near σ d d' ∧ d.left < c.left := by
  have hkind : c.kind ≠ .endOfFile := fun heof => by rw [heof] at hopens; cases hopens
  have hahead := mt h.file_iff.2 hkind
  obtain ⟨rfl, passed, ahead, hfront, rfl, hpassed⟩ := h
  cases ahead with
  | nil => exact absurd rfl hahead
  | cons t ahead =>
      obtain ⟨closer, hcloser⟩ := Option.isSome_iff_exists.1 hopens
      rw [Cursor.between_kind] at hcloser
      refine (passGroup_self hcloser).mono fun _ _ d d' ⟨heq, n, hn, hd⟩ => ⟨⟨heq, _, _, ?_, hd,
        T.group hpassed hcloser hn⟩, ?_⟩
      · simp [hfront]
      · rw [hd, Cursor.between_left, Cursor.between_left, List.length_drop, List.length_cons]
        omega

theorem Near.left_lt {τ : List Token.Kind} (h : T.Near σ c c') (hd : T.Near τ d d')
    (hlt : d.left < c.left) : d'.left < c'.left := h.1 ▸ hd.1 ▸ hlt

theorem Near.body (h : T.Near σ c c') (hoperand : T.operand σ c) (hword : c.atBodyWord = true) :
    Agree Fault Grammar.passToBody Grammar.passToBody c c' fun _ _ d d' =>
      T.Near σ d d' ∧ d.left < c.left := by
  have hplaces : Agree Fault Grammar.passToBody Grammar.passToBody c c' fun _ _ d d' =>
      (free l).Near [] d d' ∧ d.left < c.left := by
    refine Grammar.passToBody_agrees_of (N := (free l).Near []) Near.left_lt (fun h => by rw [h.1])
      (fun h _ => ⟨by rw [h.1], nofun⟩) (fun {d _} hd hkind _ => ?_)
      (fun hd hgroup => hd.group ?_) (fun hd hbrace => hd.group (by rw [hbrace]; rfl)) ?_
    · have hlt := Cursor.advance_left (mt hd.file_iff.2 hkind)
      exact ⟨hd.advance hkind fun _ _ => trivial, by omega⟩
    · obtain hparen | hbracket := hgroup
      · rw [hparen]; rfl
      · rw [hbracket]; rfl
    · obtain ⟨heq, passed, ahead, hfront, hc, -⟩ := h
      exact ⟨heq, passed, ahead, hfront, hc, trivial⟩
  obtain ⟨rfl, passed, ahead, hfront, rfl, hpassed⟩ := h
  unfold Agree at hplaces ⊢
  split at hplaces
  next d _ d' hok hok' =>
    obtain ⟨⟨rfl, passed', ahead', hfront', rfl, -⟩, hlt⟩ := hplaces
    exact ⟨⟨rfl, passed', ahead', hfront', rfl, T.body hpassed hfront hfront' hoperand hword hok⟩,
      hlt⟩
  · exact hplaces
  · exact hplaces

theorem Near.decorated (h : T.Near σ c c') (hkind : c.kind = .atSign) : T.exprs := by
  have hahead := mt h.file_iff.2 (by rw [hkind]; decide)
  obtain ⟨-, passed, ahead, hfront, rfl, -⟩ := h
  cases ahead with
  | nil => exact absurd rfl hahead
  | cons t ahead => exact T.decorated (t := t) (by simp [hfront]) hkind

/-- A run of the grammar over a text, paired with itself. -/
def diagonal (T : Trail l) : Pairing where
  toOpenings := T.whole
  near := T.Near
  ended := T.Near []
  horizon := 0
  top := l.front.length + 1
  faults := Fault
  ended_of_near h := h
  kind_eq h := by rw [h.1]
  text_eq h := by rw [h.1]
  file_iff h := h.file_iff
  left_le h := by
    obtain ⟨-, passed, ahead, hfront, rfl, -⟩ := h
    rw [hfront, List.length_append, Cursor.between_left]
    omega
  left_lt := Near.left_lt
  newline_eq h _ := by rw [h.1]
  break_eq h := by rw [h.1]
  decorated := Near.decorated
  wordBefore_eq h := by rw [h.1]
  slice_eq h hd _ _ := by rw [h.1, hd.1]
  arrow_eq h := by rw [h.1]
  plain {σ c c'} h hplain := h.advance (fun heof => by rw [heof] at hplain; cases hplain)
    fun _ hpassed => T.plain hpassed hplain
  semicolon h hkind _ := h.advance (by rw [hkind]; nofun) fun _ hpassed => T.semicolon hpassed hkind
  last h hkind := h.advance (by rw [hkind]; nofun) fun _ hpassed => T.semicolon hpassed hkind
  opens {σ c c' closer} h hkind _ := h.advance (fun heof => by rw [heof] at hkind; cases hkind)
    fun _ hpassed => T.opens hpassed hkind
  closes {σ c c' kind} h hclosing hkind := by
    subst hkind
    exact h.advance (fun heof => by rw [heof] at hclosing; cases hclosing)
      fun _ hpassed => T.closes hpassed hclosing
  not_ready _ h := h.elim
  group h hopens := h.group hopens
  body h hoperand hword := h.body hoperand hword
  fault h hcause := ⟨by rw [h.1], hcause⟩

variable {g g' : Grammar} {n : Nat}

theorem statementRound_agrees (hg : T.diagonal.Kin n g g') (hexprs : T.exprs) (h : T.Near [] c c')
    (hn : c.left ≤ n) :
    Agree Fault g.statementRound g'.statementRound c c' (T.diagonal.Found [] c.left) :=
  Grammar.statementRound_agrees (P := T.diagonal) id id hg hexprs h hn

/-- The statements of a text are the same for any two grammars that agree on what is nested in
them. -/
theorem statements_agrees (hg : T.diagonal.Kin n g g') (hexprs : T.exprs) (h : T.Near [] c c')
    (hn : c.left ≤ n) :
    Agree Fault g.statements g'.statements c c' (T.diagonal.Kept [] (c.left + 1)) := by
  rw [Grammar.statements_eq, Grammar.statements_eq]
  refine (many_agrees (P := T.diagonal) h fun d d' hd hle =>
    statementRound_agrees hg hexprs hd (by omega)).bind fun items items' d d' ⟨hd, hlt, heq⟩ => ?_
  exact .pure ⟨hd, hlt, fun hfar => by rw [heq hfar]⟩

end Trail

end HandlerWeave.Source
