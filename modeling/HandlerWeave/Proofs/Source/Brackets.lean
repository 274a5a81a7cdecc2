import HandlerWeave.Proofs.Lockstep.Places
import Mathlib.Data.List.Induction

/-!
The groups that two scans find. A group is told by its shape, an opening bracket, well-nested tokens
and the bracket that closes it. The scan with a stack passes exactly the groups, the scan with a
depth finds the same end, and where there is no group the error is at the bracket that is to blame.
-/
namespace HandlerWeave.Source

namespace Group

/-- Each bracket is closed, in its turn, by a bracket of its own kind. -/
inductive WellNested : List Token → Prop
  | nil : WellNested []
  | plain {t ts} (hopens : t.kind.closing? = none) (hcloses : t.kind.isClosing = false)
    (h : WellNested ts) : WellNested (t :: ts)
  | group {o t us ts} (hkind : o.kind.closing? = some t.kind) (hinside : WellNested us)
    (h : WellNested ts) : WellNested (o :: (us ++ t :: ts))

/-- A bracket, well-nested tokens and the bracket that closes the first one. -/
inductive IsGroup : List Token → Prop
  | mk {o t us} (hkind : o.kind.closing? = some t.kind) (hinside : WellNested us) :
    IsGroup (o :: (us ++ [t]))

/-- Every closing bracket closes one of its own kind. The kinds are those that would close the
brackets left open, innermost first. -/
inductive Unclosed : List Token.Kind → List Token → Prop
  | nested {ts} (h : WellNested ts) : Unclosed [] ts
  | opens {w ts o kind us} (h : Unclosed w ts) (hkind : o.kind.closing? = some kind)
    (hinside : WellNested us) : Unclosed (kind :: w) (ts ++ o :: us)

/-- The tokens close brackets that these kinds close, one after the other, and end with the last of
them. -/
inductive Closes : List Token.Kind → List Token → Prop
  | nil : Closes [] []
  | cons {us t w ts} (hinside : WellNested us) (h : Closes w ts) :
    Closes (t.kind :: w) (us ++ t :: ts)

variable {o t : Token} {ts us rest : List Token} {w v : List Token.Kind} {kind : Token.Kind}
  {fault : Fault} {n : Nat}

namespace WellNested

theorem append (h : WellNested ts) (h' : WellNested us) : WellNested (ts ++ us) := by
  induction h with
  | nil => exact h'
  | plain hopens hcloses _ ih => exact .plain hopens hcloses ih
  | group hkind hinside _ _ ih =>
      rw [List.cons_append, List.append_assoc]
      exact .group hkind hinside ih

theorem nested (h : WellNested ts) : Nested ts := by
  induction h with
  | nil => rfl
  | plain hopens hcloses _ ih => exact open?_cons_eq_some.2 ⟨[], open1?_other hopens hcloses, ih⟩
  | @group o t us ts hkind _ _ hinside ih =>
      refine open?_cons_eq_some.2 ⟨[t.kind], open1?_opens hkind, ?_⟩
      rw [open?_append, hinside.open?, Option.bind_some]
      exact open?_cons_eq_some.2 ⟨[], open1?_closes (isClosing_of_closing? hkind), ih⟩

end WellNested

/-- A token in front of tokens that close what is open behind it. -/
theorem Closes.step (hw : w ≠ []) (hopen : open1? w t = some v) (h : Closes v ts) :
    Closes w (t :: ts) := by
  unfold open1? at hopen
  split at hopen
  next closer hopens =>
    cases hopen
    obtain _ | @⟨us, t', _, ts, hinside, h⟩ := h
    obtain _ | @⟨us', t'', w, ts, hbehind, h⟩ := h
    · exact absurd rfl hw
    have hnested := WellNested.group hopens hinside hbehind
    simpa using Closes.cons hnested h
  next hopens =>
    split at hopen
    next hcloses =>
      split at hopen
      next hhead =>
        cases hopen
        obtain ⟨outer, rfl⟩ := List.head?_eq_some_iff.1 hhead
        exact .cons .nil h
      · cases hopen
    next hcloses =>
      cases hopen
      obtain _ | @⟨us, t', w, ts, hinside, h⟩ := h
      · exact absurd rfl hw
      exact .cons (.plain hopens (Bool.eq_false_iff.2 hcloses) hinside) h

theorem closes_of_length (h : length w ts = .ok n) : Closes w (ts.take n) := by
  induction ts generalizing w n with
  | nil =>
      cases w with
      | nil => rw [List.take_nil]; exact .nil
      | cons wanted outer => cases h
  | cons t ts ih =>
      by_cases hw : w = []
      · subst hw
        cases h
        exact .nil
      rw [length_cons hw] at h
      split at h
      next v hopen =>
        cases hrest : length v ts with
        | error fault => rw [hrest] at h; cases h
        | ok m =>
            rw [hrest] at h
            cases h
            exact .step hw hopen (ih hrest)
      · cases h

namespace Unclosed

theorem append (h : Unclosed w ts) (h' : WellNested us) : Unclosed w (ts ++ us) := by
  cases h with
  | nested h => exact .nested (h.append h')
  | opens h hkind hinside =>
      rw [List.append_assoc, List.cons_append]
      exact .opens h hkind (hinside.append h')

/-- What the innermost open bracket is. -/
theorem innermost (h : Unclosed (kind :: w) ts) :
    ∃ outer o inner, ts = outer ++ o :: inner ∧ Unclosed w outer ∧ o.kind.closing? = some kind ∧
      WellNested inner := by
  cases h with
  | opens h hkind hinside => exact ⟨_, _, _, rfl, h, hkind, hinside⟩

end Unclosed

theorem unclosed_of_open? (h : open? [] ts = some w) : Unclosed w ts := by
  induction ts using List.reverseRecOn generalizing w with
  | nil => cases h; exact .nested .nil
  | append_singleton ts t ih =>
      rw [open?_append] at h
      obtain ⟨v, hv, h⟩ := Option.bind_eq_some_iff.1 h
      obtain ⟨u, hopen, h⟩ := open?_cons_eq_some.1 h
      cases h
      have hbefore := ih hv
      unfold open1? at hopen
      split at hopen
      next closer hopens =>
        cases hopen
        exact .opens hbefore hopens .nil
      next hopens =>
        split at hopen
        next hcloses =>
          split at hopen
          next hhead =>
            cases hopen
            obtain ⟨outer, rfl⟩ := List.head?_eq_some_iff.1 hhead
            obtain ⟨outer, o, inner, rfl, houter, hkind, hinside⟩ := hbefore.innermost
            have hgroup := houter.append (.group hkind hinside .nil)
            simpa using hgroup
          · cases hopen
        next hcloses =>
          cases hopen
          exact hbefore.append (.plain hopens (Bool.eq_false_iff.2 hcloses) .nil)

/-- A bracket in front of all others is the last one to be closed. -/
theorem Unclosed.behind (h : Unclosed w ts) (hkind : o.kind.closing? = some kind) :
    Unclosed (w ++ [kind]) (o :: ts) := by
  induction h with
  | nested h => exact .opens (.nested .nil) hkind h
  | opens _ hinner hinside ih => exact .opens ih hinner hinside

theorem length_wellNested (hcloses : t.kind.isClosing = true) (h : WellNested us)
    (rest : List Token) : length [t.kind] (us ++ t :: rest) = .ok (us.length + 1) := by
  have hpast := length_append_of_open (σ := [t.kind]) h.nested (by simp) (t :: rest)
  rw [List.nil_append] at hpast
  rw [hpast, length_cons (by simp), open1?_closes hcloses]
  simp [length_nil_waiting, shift, Nat.add_comm]

theorem closingIndex?_wellNested (hcloses : t.kind.isClosing = true) (h : WellNested us)
    (rest : List Token) : closingIndex? 1 (us ++ t :: rest) = some us.length := by
  have hpast := closingIndex?_append_of_open (d := 1) h.nested (by simp) (t :: rest)
  have hhere : closingIndex? 1 (t :: rest) = some 0 := by
    simp [closingIndex?, closing?_of_isClosing hcloses, hcloses]
  simpa [hhere] using hpast

/-- A scan that comes to an end has passed the inside of a group and the bracket that closes it. -/
theorem exists_group (h : length [kind] ts = .ok n) :
    ∃ us t rest, ts = us ++ t :: rest ∧ t.kind = kind ∧ WellNested us ∧ n = us.length + 1 := by
  have hn := (open?_take_length h []).1
  have hcloses := closes_of_length h
  generalize htake : ts.take n = taken at hcloses
  obtain _ | @⟨us, t, _, _, hinside, hend⟩ := hcloses
  obtain _ | _ := hend
  have hlength := congrArg List.length htake
  rw [List.length_take, Nat.min_eq_left hn, List.length_append] at hlength
  refine ⟨us, t, ts.drop n, ?_, rfl, hinside, hlength⟩
  calc ts = ts.take n ++ ts.drop n := (List.take_append_drop n ts).symm
    _ = us ++ t :: ts.drop n := by rw [htake, List.append_assoc, List.singleton_append]

theorem open1?_concat (h : open1? (w ++ [kind]) t = some v) :
    v = [] ∨ ∃ u, v = u ++ [kind] ∧ open1? w t = some u := by
  by_cases hw : w = []
  · subst hw
    unfold open1? at h ⊢
    split at h
    next closer hopens =>
      cases h
      exact .inr ⟨[closer], rfl, by simp⟩
    next hopens =>
      split at h
      next hcloses =>
        split at h
        · cases h
          exact .inl rfl
        · cases h
      next hcloses =>
        cases h
        exact .inr ⟨[], rfl, by simp [hcloses]⟩
  · rw [open1?_append hw] at h
    obtain ⟨u, hu, rfl⟩ := Option.map_eq_some_iff.1 h
    exact .inr ⟨u, rfl, hu⟩

/-- A scan that fails has come to the end of the tokens or to one that closes nothing open. -/
theorem length_error_cases (h : length (w ++ [kind]) ts = .error fault) :
    ∃ passed v, open? w passed = some v ∧
      ((fault = .unclosed ∧ ts = passed) ∨
        ∃ t rest, ts = passed ++ t :: rest ∧ fault = .mismatched passed.length ∧
          open1? (v ++ [kind]) t = none) := by
  induction ts generalizing w fault with
  | nil =>
      have hend : length (w ++ [kind]) [] = .error .unclosed := by simp [length]
      rw [hend] at h
      cases h
      exact ⟨[], w, rfl, .inl ⟨rfl, rfl⟩⟩
  | cons t ts ih =>
      rw [length_cons (by simp)] at h
      split at h
      next v hopen =>
        obtain rfl | ⟨u, rfl, hu⟩ := open1?_concat hopen
        · rw [length_nil_waiting] at h
          cases h
        cases hrest : length (u ++ [kind]) ts with
        | ok n => rw [hrest] at h; cases h
        | error fault' =>
            rw [hrest] at h
            cases h
            obtain ⟨passed, v, hv, ⟨rfl, rfl⟩ | ⟨t', rest, rfl, rfl, hnone⟩⟩ := ih hrest
            · exact ⟨t :: ts, v, open?_cons_eq_some.2 ⟨u, hu, hv⟩, .inl ⟨rfl, rfl⟩⟩
            · exact ⟨t :: passed, v, open?_cons_eq_some.2 ⟨u, hu, hv⟩,
                .inr ⟨t', rest, rfl, rfl, hnone⟩⟩
      next hnone =>
        cases h
        exact ⟨[], w, rfl, .inr ⟨t, ts, rfl, rfl, hnone⟩⟩

theorem of_open1?_eq_none (h : open1? (kind :: w) t = none) :
    t.kind.isClosing = true ∧ kind ≠ t.kind := by
  unfold open1? at h
  split at h
  · cases h
  · split at h
    next hcloses =>
      split at h
      · cases h
      next hhead => exact ⟨hcloses, fun heq => hhead (congrArg some heq)⟩
    · cases h

/-- The token closes another kind of bracket than the innermost one that the tokens in front of it
leave open. -/
def Mismatched (passed : List Token) (t : Token) : Prop :=
  ∃ w outer o inner, passed = outer ++ o :: inner ∧ Unclosed w outer ∧ WellNested inner ∧
    o.kind.closing?.isSome = true ∧ t.kind.isClosing = true ∧ o.kind.closing? ≠ some t.kind

theorem mismatched_of_open (hopens : o.kind.closing? = some kind) (h : Unclosed v ts)
    (hnone : open1? (v ++ [kind]) t = none) : Mismatched (o :: ts) t := by
  have hopen := h.behind hopens
  obtain ⟨inner, outer, hwaiting⟩ := List.exists_cons_of_ne_nil (l := v ++ [kind]) (by simp)
  rw [hwaiting] at hnone hopen
  obtain ⟨hcloses, hne⟩ := of_open1?_eq_none hnone
  obtain ⟨front, o', inside, heq, hfront, hkind, hinside⟩ := hopen.innermost
  refine ⟨_, front, o', inside, heq, hfront, hinside, by simp [hkind], hcloses, ?_⟩
  rw [hkind]
  exact fun hsome => hne (Option.some.inj hsome)

end Group

open Source.Parser Source.Group

variable {c : Cursor} {o t : Token} {ts rest group : List Token} {kind : Token.Kind}
  {fault : Group.Fault} {n : Nat}

theorem passGroup_cons {before : Option Token} {final : Token} (hopens : o.kind.closing? = some kind) :
    passGroup ⟨before, o :: ts, final⟩ = match length [kind] ts with
      | .ok n => .ok ((), (Cursor.mk before (o :: ts) final).advanceBy (n + 1))
      | .error .unclosed => .error ⟨.unclosedBracket, o.start⟩
      | .error (.mismatched n) => fail .mismatchedBracket (Cursor.advanceBy ⟨some o, ts, final⟩ n) := by
  have hkind : (Cursor.mk before (o :: ts) final).kind = o.kind := rfl
  rw [passGroup, hkind, hopens]
  rfl

theorem fail_closing {α : Type} {cause : Found → SyntaxError.Cause} (hahead : c.ahead = t :: rest)
    (hcloses : t.kind.isClosing = true) :
    (fail cause : Parser α) c = .error ⟨cause (.token t.text), t.start⟩ := by
  have htoken : c.token = t := by rw [Cursor.token, Cursor.tokenAt, hahead]; rfl
  have hkind : c.kind = t.kind := congrArg Token.kind htoken
  have htext : c.text = t.text := congrArg Token.text htoken
  have hbracket : t.kind ≠ .endOfFile ∧ t.kind ≠ .stray := by
    constructor <;> intro h <;> rw [h] at hcloses <;> cases hcloses
  unfold fail
  rw [htoken, hkind, htext]
  split
  next h => exact absurd h hbracket.1
  next h => exact absurd h hbracket.2
  next => rfl

/-- Both scans come to the end of a group that stands ahead. -/
theorem Group.IsGroup.runs (h : IsGroup group) (hahead : group <+: c.ahead) :
    passGroup c = .ok ((), c.advanceBy group.length) ∧
      closingIndex? 0 c.ahead = some (group.length - 1) := by
  obtain ⟨before, ahead, final⟩ := c
  obtain ⟨rest, rfl⟩ := hahead
  obtain ⟨hkind, hinside⟩ := h
  rename_i o t us
  have hcloses := isClosing_of_closing? hkind
  have hlist : o :: (us ++ [t]) ++ rest = o :: (us ++ t :: rest) := by simp
  constructor
  · simp only [hlist]
    rw [passGroup_cons hkind, length_wellNested hcloses hinside]
    simp
  · rw [hlist, closingIndex?, if_pos (by rw [hkind]; rfl), closingIndex?_wellNested hcloses hinside]
    simp

theorem Group.IsGroup.length_pos (h : IsGroup group) : 0 < group.length := by
  obtain ⟨hkind, hinside⟩ := h
  simp

/-- No other group starts where one does. -/
theorem Group.IsGroup.unique {other : List Token} (h : IsGroup group) (hahead : group <+: c.ahead)
    (h' : IsGroup other) (hahead' : other <+: c.ahead) : other = group := by
  have hsame := (h.runs hahead).2.symm.trans (h'.runs hahead').2
  have hpos := h.length_pos
  have hpos' := h'.length_pos
  have hlength : other.length = group.length := by
    have := Option.some.inj hsame
    omega
  exact (List.prefix_of_prefix_length_le hahead' hahead (Nat.le_of_eq hlength)).eq_of_length hlength

/-- What a parser that passes a group has passed, and why it has passed none. -/
theorem passGroup_cases (hopens : c.kind.closing?.isSome = true) :
    (∃ group, IsGroup group ∧ group <+: c.ahead ∧ passGroup c = .ok ((), c.advanceBy group.length)) ∨
    (passGroup c = .error ⟨.unclosedBracket, c.token.start⟩ ∧ ∃ w, Unclosed w c.ahead.tail) ∨
    ∃ passed t rest, c.ahead = passed ++ t :: rest ∧ Mismatched passed t ∧
      passGroup c = .error ⟨.mismatchedBracket (.token t.text), t.start⟩ := by
  obtain ⟨kind, hkind⟩ := Option.isSome_iff_exists.1 hopens
  obtain ⟨before, ahead, final⟩ := c
  cases ahead with
  | nil =>
      refine .inr (.inl ⟨?_, [], .nested .nil⟩)
      rw [passGroup, hkind]
      rfl
  | cons o ts =>
      have hopener : o.kind.closing? = some kind := hkind
      cases hlength : length [kind] ts with
      | ok n =>
          obtain ⟨us, t, rest, rfl, rfl, hinside, -⟩ := exists_group hlength
          have hgroup : IsGroup (o :: (us ++ [t])) := .mk hopener hinside
          have hahead : o :: (us ++ [t]) <+: o :: (us ++ t :: rest) := ⟨rest, by simp⟩
          exact .inl ⟨_, hgroup, hahead, (hgroup.runs hahead).1⟩
      | error fault =>
          obtain ⟨passed, v, hopen, ⟨rfl, rfl⟩ | ⟨t, rest, rfl, rfl, hnone⟩⟩ :=
            length_error_cases (w := []) hlength
          · refine .inr (.inl ⟨?_, v, unclosed_of_open? hopen⟩)
            rw [passGroup_cons hopener, hlength]
            rfl
          · have hmismatched := mismatched_of_open hkind (unclosed_of_open? hopen) hnone
            refine .inr (.inr ⟨o :: passed, t, rest, rfl, hmismatched, ?_⟩)
            obtain ⟨_, _, _, _, _, _, _, _, hcloses, _⟩ := hmismatched
            have hahead : (Cursor.advanceBy ⟨some o, passed ++ t :: rest, final⟩
                passed.length).ahead = t :: rest := by
              rw [Cursor.ahead_advanceBy, List.drop_left]
            rw [passGroup_cons hopener, hlength]
            exact fail_closing hahead hcloses

/-- A group is passed exactly where one stands ahead, to its end and no further, and the count of
brackets finds the same end. Where there is none, the error is at the first bracket that closes
another one than its own, or at the bracket that nothing closes. -/
theorem passGroup_iff_group (c : Cursor) (hopens : c.kind.closing?.isSome = true) :
    (∀ d, passGroup c = .ok ((), d) ↔
      ∃ group, IsGroup group ∧ group <+: c.ahead ∧ d = c.advanceBy group.length) ∧
    (∀ group, IsGroup group → group <+: c.ahead →
      closingIndex? 0 c.ahead = some (group.length - 1) ∧
        ∀ other, IsGroup other → other <+: c.ahead → other = group) ∧
    ∀ e, passGroup c = .error e →
      (e = ⟨.unclosedBracket, c.token.start⟩ ∧ ∃ w, Unclosed w c.ahead.tail) ∨
      ∃ passed t rest, c.ahead = passed ++ t :: rest ∧ Mismatched passed t ∧
        e = ⟨.mismatchedBracket (.token t.text), t.start⟩ := by
  refine ⟨fun d => ⟨fun h => ?_, ?_⟩, fun group hgroup hahead => ⟨(hgroup.runs hahead).2,
    fun other hother => hgroup.unique hahead hother⟩, fun e h => ?_⟩
  · obtain ⟨group, hgroup, hahead, hrun⟩ | ⟨hrun, -⟩ | ⟨_, _, _, -, -, hrun⟩ :=
      passGroup_cases hopens
    · rw [hrun] at h
      cases h
      exact ⟨group, hgroup, hahead, rfl⟩
    · rw [hrun] at h
      cases h
    · rw [hrun] at h
      cases h
  · rintro ⟨group, hgroup, hahead, rfl⟩
    exact (hgroup.runs hahead).1
  · obtain ⟨group, -, -, hrun⟩ | ⟨hrun, hunclosed⟩ | ⟨passed, t, rest, heq, hmismatched, hrun⟩ :=
      passGroup_cases hopens
    · rw [hrun] at h
      cases h
    · rw [hrun] at h
      cases h
      exact .inl ⟨rfl, hunclosed⟩
    · rw [hrun] at h
      cases h
      exact .inr ⟨passed, t, rest, heq, hmismatched, rfl⟩

/-- The parameters of an arrow function, with brackets of another kind inside. -/
theorem passGroup_iff_group_params :
    let c := Cursor.ofTokens (lex "([]) => 1")
    let group : List Token := [⟨.leftParen, "", "(", 0⟩, ⟨.leftBracket, "", "[", 1⟩,
      ⟨.rightBracket, "", "]", 2⟩, ⟨.rightParen, "", ")", 3⟩]
    c.kind.closing?.isSome = true ∧ IsGroup group ∧ group <+: c.ahead ∧
      passGroup c = .ok ((), c.advanceBy 4) ∧ closingIndex? 0 c.ahead = some 3 := by
  intro c group
  have hopens : c.kind.closing?.isSome = true := by decide +kernel
  have hgroup : IsGroup group := @IsGroup.mk _ _ [_, _] rfl (@WellNested.group _ _ [] [] rfl .nil .nil)
  have hahead : group <+: c.ahead := by decide +kernel
  obtain ⟨hpasses, hfinds, -⟩ := passGroup_iff_group c hopens
  exact ⟨hopens, hgroup, hahead, (hpasses _).2 ⟨group, hgroup, hahead, rfl⟩,
    (hfinds group hgroup hahead).1⟩

end HandlerWeave.Source
