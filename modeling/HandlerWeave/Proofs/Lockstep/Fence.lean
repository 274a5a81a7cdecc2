import HandlerWeave.Proofs.Lockstep.Bodies

/-!
A bracketed group that stands in two texts with different tokens behind it. Inside the group the
runs cannot tell the texts apart: the bracket that closes the group is a fence that no parser
started inside comes past, as long as functions and classes in the group have their bodies.

Of the brackets around a place only those opened in the group are told. Below them stands a kind
that closes nothing, so that no run leaves the group.
-/
namespace HandlerWeave.Source

open Source.Parser Source.Group

variable {σ τ outer : List Token.Kind} {c c' d d' : Cursor} {closer : Token.Kind} {t : Token}

/-- An operand can start here, when a bracket of this kind closes the group and these kinds close
the brackets opened in it. -/
def Cursor.OperandIn (closer : Token.Kind) (σ : List Token.Kind) (c : Cursor) : Prop :=
  c.Operand σ ∨ c.Operand (σ.dropLast ++ [closer])

/-- Expressions start at operands only, the bracket around the group being known. -/
def Operands.inGroup (exprs : Prop) (closer : Token.Kind) : Operands :=
  ⟨exprs, fun σ c => exprs ∧ c.OperandIn closer σ, fun hexprs h => ⟨hexprs, .inl h⟩, fun h => h.1⟩

theorem leads_mono {kind : Token.Kind} (inner : Option Token.Kind)
    (h : kind.leads (some .endOfFile) = true) : kind.leads inner = true := by
  revert h
  cases kind <;> simp [Token.Kind.leads]

/-- Nothing but the innermost bracket counts for where an operand can start. -/
theorem Cursor.OperandIn.operand (h : c.OperandIn closer (τ ++ [.endOfFile])) :
    c.Operand (τ ++ closer :: outer) := by
  have hmono (h : c.before.any (·.kind.leads (some .endOfFile)) = true) (inner) :
      c.before.any (·.kind.leads inner) = true := by
    cases hbefore : c.before with
    | none => rw [hbefore] at h; cases h
    | some t =>
        rw [hbefore] at h
        exact leads_mono inner h
  obtain h | h := h
  · cases τ with
    | nil => exact hmono h _
    | cons kind τ => exact h
  · rw [List.dropLast_concat] at h
    cases τ <;> exact h

/-- Of the tokens passed, those behind `base` stand in the group and have these brackets open. -/
def Opened (base : List Token) (σ : List Token.Kind) (passed : List Token) : Prop :=
  ∃ seen τ, passed = base ++ seen ∧ open? [] seen = some τ ∧ σ = τ ++ [.endOfFile]

namespace Opened

variable {base passed ahead : List Token} {n : Nat}

theorem start : Opened base [.endOfFile] base := ⟨[], [], by simp, rfl, rfl⟩

theorem open? (h : Opened base (τ ++ [.endOfFile]) passed)
    (hbase : Group.open? [] base = some (closer :: outer)) :
    Group.open? [] passed = some (τ ++ closer :: outer) := by
  obtain ⟨seen, τ', rfl, hopen, hτ⟩ := h
  obtain rfl := List.append_cancel_right hτ
  rw [open?_append, hbase]
  exact open?_weaken (w := []) hopen (closer :: outer)

theorem concat (h : Opened base (σ ++ [.endOfFile]) passed) (ht : open1? σ t = some τ) :
    Opened base (τ ++ [.endOfFile]) (passed ++ [t]) := by
  obtain ⟨seen, σ', rfl, hopen, hσ⟩ := h
  obtain rfl := List.append_cancel_right hσ
  exact ⟨seen ++ [t], τ, by simp, Trail.open?_concat hopen ht, rfl⟩

theorem exists_stack (h : Opened base σ passed) : ∃ τ, σ = τ ++ [.endOfFile] := by
  obtain ⟨seen, τ, -, -, rfl⟩ := h
  exact ⟨τ, rfl⟩

theorem other (h : Opened base σ passed) (hopens : t.kind.closing? = none)
    (hcloses : t.kind.isClosing = false) : Opened base σ (passed ++ [t]) := by
  obtain ⟨τ, rfl⟩ := h.exists_stack
  exact h.concat (open1?_other hopens hcloses)

theorem opens (h : Opened base σ passed) (hopens : t.kind.closing? = some closer) :
    Opened base (closer :: σ) (passed ++ [t]) := by
  obtain ⟨τ, rfl⟩ := h.exists_stack
  exact h.concat (τ := closer :: τ) (open1?_opens hopens)

theorem closes (h : Opened base (t.kind :: σ) passed) (hcloses : t.kind.isClosing = true) :
    Opened base σ (passed ++ [t]) := by
  obtain ⟨τ, hτ⟩ := h.exists_stack
  cases τ with
  | nil =>
      obtain ⟨hkind, -⟩ := List.cons.inj hτ
      rw [hkind] at hcloses
      cases hcloses
  | cons wanted τ =>
      obtain ⟨rfl, rfl⟩ := List.cons.inj hτ
      exact h.concat (σ := t.kind :: τ) (open1?_closes hcloses)

theorem group (h : Opened base σ passed) (hopens : t.kind.closing? = some closer)
    (hn : Group.length [closer] ahead = .ok n) : Opened base σ (passed ++ t :: ahead.take n) := by
  obtain ⟨seen, τ, rfl, hopen, rfl⟩ := h
  exact ⟨seen ++ t :: ahead.take n, τ, by simp, Trail.open?_group hopen hopens hn, rfl⟩

end Opened

/-- The brackets open behind the tokens passed in a group are those that the grammar has entered. -/
def Trail.inGroup (l : Listing) (hbodied : TypeBodied l.front) {base : List Token}
    (hbase : Group.open? [] base = some (closer :: outer)) : Trail l where
  toOperands := .inGroup (Bodied l.front) closer
  holds := Opened base
  decorated := @TypeBodied.of_decorated l hbodied
  plain h hplain := by
    simp only [Token.Kind.isPlain, Bool.and_eq_true, Bool.not_eq_true',
      Option.isNone_iff_eq_none] at hplain
    exact h.other hplain.1.1.1 hplain.1.1.2
  semicolon h hkind := h.other (by rw [hkind]; rfl) (by rw [hkind]; rfl)
  opens h hopens := h.opens hopens
  closes h hcloses := h.closes hcloses
  group h hopens hn := h.group hopens hn
  body {σ passed ahead passed' ahead'} h hfront hfront' hoperand hword hrun := by
    have hbodied := hfront ▸ hoperand.1
    obtain ⟨τ, rfl⟩ := h.exists_stack
    exact holds_body (Opened base (τ ++ [.endOfFile])) Opened.other Opened.group hfront
      hfront' h (hbodied.follows (by rw [l.file_kind]; decide)
        (h.open? hbase) hoperand.2.operand hword)
      hrun

/-- The place is in a group that a bracket of this kind closes. -/
structure Pairing.Inside (P : Pairing) (closer : Token.Kind) (σ : List Token.Kind) : Prop where
  ne_nil : σ ≠ []
  ready : ∀ c, P.ready c
  whole : ∀ c, ¬ P.hole c
  operand : ∀ {c c' : Cursor} {kind : Token.Kind}, P.exprs → P.Next σ c c' → c.kind = kind →
    kind.leads (some closer) = true → P.operand σ c.advance

theorem operandIn_advance {P : Pairing} {kind : Token.Kind} (h : P.Next [.endOfFile] c c')
    (hkind : c.kind = kind) (hleads : kind.leads (some closer) = true) :
    c.advance.OperandIn closer [.endOfFile] := by
  subst hkind
  refine .inr ?_
  rw [Cursor.Operand, h.before]
  exact hleads

theorem Trail.inGroup_inside (l : Listing) (hbodied : TypeBodied l.front) {base : List Token}
    (hbase : Group.open? [] base = some (closer :: outer)) :
    (Trail.inGroup l hbodied hbase).diagonal.Inside closer [.endOfFile] where
  ne_nil := List.cons_ne_nil _ _
  ready _ := trivial
  whole _ := id
  operand hexprs h hkind hleads := ⟨hexprs, operandIn_advance h hkind hleads⟩

/-- The tokens of a text up to the end of a group, and what follows the group in either run. -/
structure Fence where
  /-- The tokens up to the opening bracket and with it. -/
  front : List Token
  inside : List Token
  closing : Token
  rest : List Token
  file : Token
  rest' : List Token
  file' : Token
  outer : List Token.Kind
  closing_closes : closing.kind.isClosing = true
  file_kind : file.kind ≠ .word
  front_open : open? [] front = some (closing.kind :: outer)
  inside_kind : ∀ t ∈ inside, t.kind ≠ .endOfFile
  nested : Nested inside
  bodied : TypeBodied (front ++ (inside ++ closing :: rest))

namespace Fence

variable {F : Fence} {seen ahead : List Token}

/-- Where the first run stands with these tokens of the group passed and these ahead. -/
def here (F : Fence) (seen ahead : List Token) : Cursor :=
  .between (F.front ++ seen) (ahead ++ F.closing :: F.rest) F.file

def there (F : Fence) (seen ahead : List Token) : Cursor :=
  .between (F.front ++ seen) (ahead ++ F.closing :: F.rest') F.file'

/-- Both runs stand at the same place of the group. -/
def Near (F : Fence) (σ : List Token.Kind) (c c' : Cursor) : Prop :=
  ∃ seen ahead, F.inside = seen ++ ahead ∧ c = F.here seen ahead ∧ c' = F.there seen ahead ∧
    Opened F.front σ (F.front ++ seen)

/-- What lies ahead in the group closes the brackets that are open in it. -/
theorem open?_ahead (hinside : F.inside = seen ++ ahead) (h : Opened F.front σ (F.front ++ seen)) :
    ∃ τ, σ = τ ++ [.endOfFile] ∧ open? τ ahead = some [] := by
  obtain ⟨seen', τ, hseen, hopen, rfl⟩ := h
  obtain rfl := List.append_cancel_left hseen
  have hnested := F.nested
  rw [Nested, hinside, open?_append, hopen] at hnested
  exact ⟨τ, rfl, hnested⟩

theorem Near.token_eq (h : F.Near σ c c') : c.token = c'.token := by
  obtain ⟨seen, ahead, -, rfl, rfl, -⟩ := h
  cases ahead <;> rfl

theorem Near.before_eq (h : F.Near σ c c') : c.before = c'.before := by
  obtain ⟨seen, ahead, -, rfl, rfl, -⟩ := h
  rfl

theorem Near.file_iff (h : F.Near σ c c') : c.kind = .endOfFile ↔ c.ahead = [] := by
  obtain ⟨seen, ahead, hinside, rfl, -⟩ := h
  constructor
  · intro hkind
    cases ahead with
    | nil =>
        have hkind : F.closing.kind = .endOfFile := hkind
        have hcloses := F.closing_closes
        rw [hkind] at hcloses
        cases hcloses
    | cons t ahead => exact absurd hkind (F.inside_kind t (by simp [hinside]))
  · intro hnil
    exact absurd hnil (List.append_ne_nil_of_right_ne_nil _ (List.cons_ne_nil _ _))

/-- The bracket at the end of the group is not taken in the group. -/
theorem Near.advance (h : F.Near σ c c') (hfence : σ = [.endOfFile] → c.kind.isClosing = false)
    (hopened : ∀ passed, Opened F.front σ passed → Opened F.front τ (passed ++ [c.token])) :
    F.Near τ c.advance c'.advance := by
  obtain ⟨seen, ahead, hinside, rfl, rfl, hopen⟩ := h
  cases ahead with
  | nil =>
      obtain ⟨_, rfl, hτ⟩ := open?_ahead hinside hopen
      cases hτ
      have hcloses : F.closing.kind.isClosing = false := hfence rfl
      rw [F.closing_closes] at hcloses
      cases hcloses
  | cons t ahead =>
      refine ⟨seen ++ [t], ahead, by simp [hinside], ?_, ?_, ?_⟩
      · rw [here, List.cons_append, Cursor.between_advance, List.append_assoc]
        rfl
      · rw [there, List.cons_append, Cursor.between_advance, List.append_assoc]
        rfl
      · rw [← List.append_assoc]
        exact hopened _ hopen

theorem Near.other (h : F.Near σ c c') (hopens : c.kind.closing? = none)
    (hcloses : c.kind.isClosing = false) : F.Near σ c.advance c'.advance :=
  h.advance (fun _ => hcloses) fun _ hopen => hopen.other hopens hcloses

theorem isClosing_of_opens {kind : Token.Kind} (h : kind.closing?.isSome = true) :
    kind.isClosing = false := by
  revert h
  cases kind <;> decide

theorem Near.opens (h : F.Near σ c c') (hkind : c.kind.closing? = some closer) :
    F.Near (closer :: σ) c.advance c'.advance :=
  h.advance (fun _ => isClosing_of_opens (by rw [hkind]; rfl)) fun _ hopen => hopen.opens hkind

theorem Near.closes (h : F.Near (closer :: σ) c c') (hcloses : closer.isClosing = true)
    (hkind : c.kind = closer) : F.Near σ c.advance c'.advance := by
  subst hkind
  refine h.advance (fun hσ => ?_) fun _ hopen => hopen.closes hcloses
  rw [(List.cons.inj hσ).1] at hcloses
  cases hcloses

/-- A group in front of the fence ends in front of it. -/
theorem passGroup_agrees (hinside : F.inside = seen ++ t :: ahead)
    (hopen : Opened F.front σ (F.front ++ seen)) (hcloser : t.kind.closing? = some closer) :
    Agree (fun _ _ => True) passGroup passGroup (F.here seen (t :: ahead))
      (F.there seen (t :: ahead)) fun _ _ d d' => F.Near σ d d' ∧
        d.left < (F.here seen (t :: ahead)).left ∧ ∃ n,
          Group.length [closer] (ahead ++ F.closing :: F.rest) = .ok n ∧
          d.ahead = (ahead ++ F.closing :: F.rest).drop n := by
  obtain ⟨τ, rfl, hahead⟩ := open?_ahead hinside hopen
  obtain ⟨u, hu, hafter⟩ := open?_cons_eq_some.1 hahead
  rw [open1?_opens hcloser] at hu
  cases hu
  obtain ⟨n, hn, hok, hdrop⟩ := length_of_open (w := [closer]) (v := []) hafter (Nat.zero_le _)
  rw [Agree, here, there, List.cons_append, List.cons_append, passGroup_between hcloser (hok _),
    passGroup_between hcloser (hok _)]
  refine ⟨⟨seen ++ t :: ahead.take n, ahead.drop n, by simp [hinside], ?_, ?_, ?_⟩, ?_, n, hok _,
    rfl⟩
  · rw [here, List.take_append_of_le_length hn, List.drop_append_of_le_length hn, List.append_assoc]
  · rw [there, List.take_append_of_le_length hn, List.drop_append_of_le_length hn,
      List.append_assoc]
  · have hok := hok []
    rw [List.append_nil] at hok
    rw [← List.append_assoc]
    exact hopen.group hcloser hok
  · rw [Cursor.between_left, List.length_drop]
    exact Nat.lt_succ_of_le (Nat.sub_le _ _)

theorem Near.exists_cons (h : F.Near σ c c') (hcloses : c.kind.isClosing = false) :
    ∃ seen t ahead, F.inside = seen ++ t :: ahead ∧ c = F.here seen (t :: ahead) ∧
      c' = F.there seen (t :: ahead) ∧ Opened F.front σ (F.front ++ seen) := by
  obtain ⟨seen, ahead, hinside, rfl, rfl, hopen⟩ := h
  cases ahead with
  | nil =>
      have hcloses : F.closing.kind.isClosing = false := hcloses
      rw [F.closing_closes] at hcloses
      cases hcloses
  | cons t ahead => exact ⟨seen, t, ahead, hinside, rfl, rfl, hopen⟩

theorem Near.exists_decorator (h : F.Near σ c c') (hkind : c.kind = .atSign) :
    ∃ t ∈ F.front ++ (F.inside ++ F.closing :: F.rest), t.kind = .atSign := by
  obtain ⟨seen, t, ahead, hinside, rfl, -, -⟩ := h.exists_cons (by rw [hkind]; rfl)
  exact ⟨t, by simp [hinside], hkind⟩

theorem Near.group (h : F.Near σ c c') (hopens : c.kind.closing?.isSome = true) :
    Agree (fun _ _ => True) passGroup passGroup c c' fun _ _ d d' =>
      F.Near σ d d' ∧ d.left < c.left := by
  obtain ⟨seen, t, ahead, hinside, rfl, rfl, hopen⟩ := h.exists_cons (isClosing_of_opens hopens)
  obtain ⟨closer, hcloser⟩ := Option.isSome_iff_exists.1 hopens
  exact (passGroup_agrees hinside hopen hcloser).mono fun _ _ d d' hd => ⟨hd.1, hd.2.1⟩

theorem Near.left_lt (h : F.Near σ c c') (hd : F.Near τ d d') (hlt : d.left < c.left) :
    d'.left < c'.left := by
  obtain ⟨_, ahead, -, rfl, rfl, -⟩ := h
  obtain ⟨_, ahead', -, rfl, rfl, -⟩ := hd
  simp only [here, there, Cursor.between_left, List.length_append, List.length_cons] at hlt ⊢
  omega

theorem Near.slice_eq (h : F.Near σ c c') (hd : F.Near τ d d') :
    c.textSince d = c'.textSince d' := by
  obtain ⟨_, ahead, -, rfl, rfl, -⟩ := h
  obtain ⟨_, ahead', -, rfl, rfl, -⟩ := hd
  have htake : (ahead ++ F.closing :: F.rest).take (ahead.length - ahead'.length) =
      (ahead ++ F.closing :: F.rest').take (ahead.length - ahead'.length) := by
    rw [List.take_append_of_le_length (Nat.sub_le _ _),
      List.take_append_of_le_length (Nat.sub_le _ _)]
  simp only [Cursor.textSince, here, there, Cursor.between_ahead, List.length_append,
    List.length_cons, Nat.add_sub_add_right, htake]

theorem Near.arrow_eq (h : F.Near σ c c') :
    Grammar.atArrowParams c = Grammar.atArrowParams c' := by
  have hcheck : c.check .leftParen = c'.check .leftParen :=
    congrArg (·.kind == Token.Kind.leftParen) h.token_eq
  rw [Grammar.atArrowParams, Grammar.atArrowParams, ← hcheck]
  refine and_eq_and rfl fun hparen => ?_
  have hkind := Cursor.kind_of_check hparen
  obtain ⟨seen, t, ahead, hinside, rfl, rfl, hopen⟩ := h.exists_cons (by rw [hkind]; rfl)
  have hcloser : t.kind.closing? = some .rightParen := by
    have hkind : t.kind = .leftParen := hkind
    rw [hkind]
    rfl
  obtain ⟨τ, -, hahead⟩ := open?_ahead hinside hopen
  obtain ⟨u, hu, hafter⟩ := open?_cons_eq_some.1 hahead
  rw [open1?_opens hcloser] at hu
  cases hu
  obtain ⟨n, hn, hfound⟩ := closingIndex?_of_open (w := [.rightParen]) (v := []) hafter
    (List.cons_ne_nil _ _) (Nat.zero_le _)
  have hindex (rest : List Token) : closingIndex? 0 (t :: (ahead ++ rest)) = some (n + 1) := by
    rw [closingIndex?, if_pos (by rw [hcloser]; rfl)]
    exact congrArg (Option.map (· + 1)) (hfound rest)
  -- the fence at the latest stands behind the parenthesis in both runs
  obtain ⟨next, hnext⟩ : ∃ next, ∀ rest, (ahead ++ F.closing :: rest)[n + 1]? = some next := by
    by_cases hlt : n + 1 < ahead.length
    · exact ⟨ahead[n + 1], fun rest => by rw [List.getElem?_append_left hlt]; simp⟩
    · refine ⟨F.closing, fun rest => ?_⟩
      rw [List.getElem?_append_right (by omega), Nat.sub_eq_zero_of_le (by omega)]
      rfl
  have hkindAhead {c : Cursor} {rest : List Token}
      (h : c.ahead = t :: (ahead ++ F.closing :: rest)) : c.kindAhead (n + 1 + 1) = next.kind := by
    rw [Cursor.kindAhead, Cursor.tokenAt, h, List.getElem?_cons_succ, hnext]
    rfl
  have hhere : (F.here seen (t :: ahead)).ahead = t :: (ahead ++ F.closing :: F.rest) := rfl
  have hthere : (F.there seen (t :: ahead)).ahead = t :: (ahead ++ F.closing :: F.rest') := rfl
  rw [hhere, hthere, hindex, hindex]
  simp only [hkindAhead hhere, hkindAhead hthere]

/-- On the way to a body in front of the fence. -/
def OnWay (F : Fence) (σ : List Token.Kind) (c c' : Cursor) : Prop :=
  F.Near σ c c' ∧ braceFollows [] c.ahead = true

theorem OnWay.isClosing (h : F.OnWay σ c c') : c.kind.isClosing = false := by
  obtain ⟨⟨seen, ahead, -, rfl, -⟩, hfollows⟩ := h
  have hnext {t : Token} {ts : List Token} (h : braceFollows [] (t :: ts) = true) :
      t.kind.isClosing = false := by
    by_cases hbrace : t.kind = .leftBrace
    · rw [hbrace]
      rfl
    · exact (braceFollows_cons h hbrace).1
  cases ahead with
  | nil => exact hnext hfollows
  | cons t ahead => exact hnext hfollows

theorem Near.body (h : F.Near σ c c')
    (hbodied : Bodied (F.front ++ (F.inside ++ F.closing :: F.rest)))
    (hoperand : c.OperandIn F.closing.kind σ) (hword : c.atBodyWord = true) :
    Agree (fun _ _ => True) Grammar.passToBody Grammar.passToBody c c' fun _ _ d d' =>
      F.Near σ d d' ∧ d.left < c.left := by
  have hfollows : braceFollows [] c.ahead = true := by
    obtain ⟨seen, ahead, hinside, rfl, -, hopen⟩ := h
    obtain ⟨τ, rfl⟩ := hopen.exists_stack
    rw [hinside, List.append_assoc, ← List.append_assoc F.front] at hbodied
    exact hbodied.follows F.file_kind (hopen.open? F.front_open) hoperand.operand hword
  refine Grammar.passToBody_agrees_of (N := F.OnWay σ) (fun h hd => h.1.left_lt hd.1)
    (fun h => congrArg Token.kind h.1.token_eq) (fun _ _ => trivial) ?advance ?group
    (fun h hbrace => h.1.group (by rw [hbrace]; rfl)) ⟨h, hfollows⟩
  case advance =>
    intro c c' h _ hnone
    have hnear := h.1.other hnone h.isClosing
    obtain ⟨seen, t, ahead, -, rfl, rfl, -⟩ := h.1.exists_cons h.isClosing
    obtain ⟨-, hlater⟩ := braceFollows_other h.2 hnone
    exact ⟨⟨hnear, hlater⟩, Nat.lt_succ_self _⟩
  case group =>
    intro c c' h hkind
    have hbrace : c.kind ≠ .leftBrace := fun hbrace => by
      rw [hbrace] at hkind
      simp at hkind
    obtain ⟨closer, hcloser⟩ : ∃ closer, c.kind.closing? = some closer := by
      obtain hkind | hkind := hkind <;> rw [hkind] <;> exact ⟨_, rfl⟩
    obtain ⟨seen, t, ahead, hinside, rfl, rfl, hopen⟩ := h.1.exists_cons h.isClosing
    refine (passGroup_agrees hinside hopen hcloser).mono fun _ _ d d' hpassed => ?_
    obtain ⟨hd, hlt, n, hn, hahead⟩ := hpassed
    refine ⟨⟨hd, ?_⟩, hlt⟩
    rw [hahead]
    exact braceFollows_group h.2 hbrace hcloser hn

/-- Two runs inside the group. -/
def pairing (F : Fence) : Pairing where
  toOpenings := (Operands.inGroup (Bodied (F.front ++ (F.inside ++ F.closing :: F.rest)))
    F.closing.kind).whole
  near := F.Near
  ended _ _ := True
  horizon := 0
  top := (F.inside ++ F.closing :: F.rest).length
  faults _ _ := True
  ended_of_near _ := trivial
  kind_eq h := congrArg Token.kind h.token_eq
  text_eq h := congrArg Token.text h.token_eq
  file_iff h := h.file_iff
  left_le h := by
    obtain ⟨seen, ahead, hinside, rfl, -⟩ := h
    simp only [hinside, here, Cursor.between_left, List.length_append]
    omega
  left_lt := Near.left_lt
  newline_eq h _ := congrArg Token.newlineBefore h.token_eq
  break_eq h := by
    have hcheck (kind : Token.Kind) := congrArg (·.kind == kind) h.token_eq
    have hnewline := congrArg Token.newlineBefore h.token_eq
    simp only [Cursor.atStatementBreak, Cursor.check, Cursor.kind, Cursor.kindAhead,
      Cursor.newlineBefore, h.before_eq, hnewline]
    simp only [Cursor.token] at hcheck
    rw [hcheck, hcheck]
  decorated h hkind := F.bodied (h.exists_decorator hkind)
  wordBefore_eq h := congrArg (·.any (·.kind == .word)) h.before_eq
  slice_eq h hd _ _ := h.slice_eq hd
  arrow_eq := Near.arrow_eq
  plain h hplain := by
    simp only [Token.Kind.isPlain, Bool.and_eq_true, Bool.not_eq_true',
      Option.isNone_iff_eq_none] at hplain
    exact h.other hplain.1.1.1 hplain.1.1.2
  semicolon h hkind _ := h.other (by rw [hkind]; rfl) (by rw [hkind]; rfl)
  last _ _ := trivial
  opens h hkind _ := h.opens hkind
  closes h hcloses hkind := h.closes hcloses hkind
  not_ready _ h := h.elim
  group := Near.group
  body h hoperand hword := h.body hoperand.1 hoperand.2 hword
  fault _ _ := trivial

theorem pairing_inside (F : Fence) : F.pairing.Inside F.closing.kind [.endOfFile] where
  ne_nil := List.cons_ne_nil _ _
  ready _ := trivial
  whole _ := id
  operand hexprs h hkind hleads := ⟨hexprs, operandIn_advance h hkind hleads⟩

end Fence

end HandlerWeave.Source
