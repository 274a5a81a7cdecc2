import HandlerWeave.Proofs.Lockstep.Diagonal

/-!
Functions and classes with a body of their own. A function or class that is part of an expression is
passed up to the next opening brace, wherever that stands. Where it stands at the level of the word,
a run keeps track of the brackets that are open, and what it accepts is well nested.
-/
namespace HandlerWeave.Source

open Source.Parser

namespace Group

variable {σ w : List Token.Kind} {t : Token} {ts : List Token}

theorem open1?_plain (h : t.kind.isPlain = true) : open1? w t = some w := by
  simp only [Token.Kind.isPlain, Bool.and_eq_true, Bool.not_eq_true',
    Option.isNone_iff_eq_none] at h
  exact open1?_other h.1.1.1 h.1.1.2

theorem open1?_semicolon (h : t.kind = .semicolon) : open1? w t = some w :=
  open1?_other (by rw [h]; rfl) (by rw [h]; rfl)

/-- An opening brace stands outside the brackets that are waiting to be closed, and in front of the
bracket that closes the level around them. -/
def braceFollows (waiting : List Token.Kind) : List Token → Bool
  | [] => false
  | t :: ts =>
    (waiting.isEmpty && t.kind == .leftBrace) || (open1? waiting t).any (braceFollows · ts)

/-- Behind every word that starts a function or a class in an expression, an opening brace follows
at the level of the word. -/
def bodied (waiting : List Token.Kind) (before : Option Token) : List Token → Bool
  | [] => true
  | t :: ts =>
    (!((t.isWord "function" || t.isWord "class") && before.any (·.kind.leads waiting.head?)) ||
      braceFollows [] ts) &&
    (open1? waiting t).all (bodied · (some t) ts)

def Bodied (ts : List Token) : Prop := bodied [] none ts = true

instance : Decidable (Bodied ts) := inferInstanceAs (Decidable (_ = _))

/-- The arguments of decorators, which are the only expressions in types, have such bodies. -/
def TypeBodied (ts : List Token) : Prop := (∃ t ∈ ts, t.kind = .atSign) → Bodied ts

instance : Decidable (TypeBodied ts) := inferInstanceAs (Decidable (_ → _))

theorem TypeBodied.of_decorated {l : Listing} (h : TypeBodied l.front) :
    ∀ {t : Token}, t ∈ l.front → t.kind = .atSign → Bodied l.front :=
  fun ht hkind => h ⟨_, ht, hkind⟩

theorem bodied_append {before : Option Token} {us : List Token}
    (h : bodied w before (ts ++ us) = true)
    (hopen : open? w ts = some σ) : bodied σ (ts.getLast?.or before) us = true := by
  induction ts generalizing w before with
  | nil =>
      cases hopen
      exact h
  | cons t ts ih =>
      obtain ⟨v, hv, hts⟩ := open?_cons_eq_some.1 hopen
      rw [List.cons_append, bodied, hv] at h
      have hlater := ih (Bool.and_eq_true_iff.1 h).2 hts
      rw [List.getLast?_cons]
      cases hlast : ts.getLast? <;> rwa [hlast] at hlater

/-- A place where such a word starts an expression is on the way to its body. -/
theorem Bodied.follows {passed ahead : List Token} {file : Token} (h : Bodied (passed ++ ahead))
    (hfile : file.kind ≠ .word) (hopen : open? [] passed = some σ)
    (hoperand : (Cursor.between passed ahead file).Operand σ)
    (hword : (Cursor.between passed ahead file).atBodyWord = true) :
    braceFollows [] ahead = true := by
  have hkind := Cursor.kind_of_seesAnyWord hword
  cases ahead with
  | nil => exact absurd hkind hfile
  | cons t ahead =>
      rw [Cursor.between_kind] at hkind
      simp only [Cursor.atBodyWord, Cursor.seesAnyWord, List.any_cons, List.any_nil,
        Bool.or_false] at hword
      have hword : (t.isWord "function" || t.isWord "class") = true := hword
      have hleads : passed.getLast?.any (·.kind.leads σ.head?) = true := hoperand
      have hrest := bodied_append h hopen
      rw [bodied, Option.or_none, hword, hleads] at hrest
      have hopens : open1? [] t = some [] :=
        open1?_other (by rw [hkind]; rfl) (by rw [hkind]; rfl)
      rw [braceFollows, hopens]
      exact Bool.or_eq_true_iff.2 (.inr (Bool.and_eq_true_iff.1 hrest).1)

/-- On the way to a brace of its level no bracket of the level is closed. -/
theorem braceFollows_cons (h : braceFollows [] (t :: ts) = true) (hbrace : t.kind ≠ .leftBrace) :
    t.kind.isClosing = false ∧ ∃ w, open1? [] t = some w ∧ braceFollows w ts = true := by
  have hnot : (t.kind == .leftBrace) = false := beq_eq_false_iff_ne.2 hbrace
  rw [braceFollows, hnot, Bool.and_false, Bool.false_or] at h
  cases hopen : open1? [] t with
  | none => rw [hopen] at h; cases h
  | some w =>
      rw [hopen] at h
      refine ⟨Bool.eq_false_iff.2 fun hcloses => ?_, w, rfl, h⟩
      simp [open1?, closing?_of_isClosing hcloses, hcloses] at hopen

/-- The groups on the way to a brace are closed in front of it. -/
theorem length_of_braceFollows (h : braceFollows w ts = true) :
    ∃ n ≤ ts.length, (∀ rest, length w (ts ++ rest) = .ok n) ∧
      braceFollows [] (ts.drop n) = true := by
  induction ts generalizing w with
  | nil => cases h
  | cons t ts ih =>
      by_cases hw : w = []
      · subst hw
        exact ⟨0, Nat.zero_le _, fun _ => length_nil_waiting _, h⟩
      obtain ⟨wanted, outer, rfl⟩ := List.exists_cons_of_ne_nil hw
      rw [braceFollows, List.isEmpty_cons, Bool.false_and, Bool.false_or] at h
      cases hopen : open1? (wanted :: outer) t with
      | none => rw [hopen] at h; cases h
      | some v =>
          rw [hopen] at h
          obtain ⟨n, hn, hok, hfollows⟩ := ih h
          refine ⟨n + 1, Nat.succ_le_succ hn, fun rest => ?_, hfollows⟩
          rw [List.cons_append, length_cons hw, hopen]
          simp only [hok]
          rfl

theorem braceFollows_other (h : braceFollows [] (t :: ts) = true) (hnone : t.kind.closing? = none) :
    t.kind.isClosing = false ∧ braceFollows [] ts = true := by
  have hbrace : t.kind ≠ .leftBrace := fun hbrace => by
    rw [hbrace] at hnone
    cases hnone
  obtain ⟨hcloses, w, hw, hlater⟩ := braceFollows_cons h hbrace
  rw [open1?_other hnone hcloses] at hw
  cases hw
  exact ⟨hcloses, hlater⟩

theorem braceFollows_group {closer : Token.Kind} {n : Nat} (h : braceFollows [] (t :: ts) = true)
    (hbrace : t.kind ≠ .leftBrace) (hcloser : t.kind.closing? = some closer)
    (hn : length [closer] ts = .ok n) : braceFollows [] (ts.drop n) = true := by
  obtain ⟨-, w, hw, hlater⟩ := braceFollows_cons h hbrace
  rw [open1?_opens hcloser] at hw
  cases hw
  obtain ⟨m, -, hok, hrest⟩ := length_of_braceFollows hlater
  have hok := hok []
  rw [List.append_nil, hn] at hok
  rwa [Except.ok.inj hok]

end Group

open Source.Group

namespace Trail

variable {l : Listing} {σ : List Token.Kind} {passed ahead passed' ahead' : List Token}
  {c c' : Cursor}

theorem open?_concat {w : List Token.Kind} {t : Token} (hopen : open? [] passed = some σ)
    (ht : open1? σ t = some w) : open? [] (passed ++ [t]) = some w := by
  rw [open?_append, hopen]
  exact open?_cons_eq_some.2 ⟨w, ht, rfl⟩

theorem open?_group {t : Token} {closer : Token.Kind} {n : Nat}
    (hopen : open? [] passed = some σ) (ht : t.kind.closing? = some closer)
    (hn : Group.length [closer] ahead = .ok n) :
    open? [] (passed ++ t :: ahead.take n) = some σ := by
  rw [open?_append, hopen]
  exact open?_cons_eq_some.2 ⟨closer :: σ, open1?_opens ht, (open?_take_length hn σ).2⟩

/-- On the way to a body that stands at the level of its word. -/
def OnWay (l : Listing) (holds : List Token → Prop) (c c' : Cursor) : Prop :=
  c = c' ∧ ∃ passed ahead, l.front = passed ++ ahead ∧ c = .between passed ahead l.file ∧
    holds passed ∧ braceFollows [] ahead = true

/-- What tokens other than brackets keep and what groups keep is kept on the way to a body at the
level of its word, and by the body. -/
theorem holds_body (holds : List Token → Prop)
    (hother : ∀ {passed t}, holds passed → t.kind.closing? = none → t.kind.isClosing = false →
      holds (passed ++ [t]))
    (hgroup : ∀ {passed ahead t closer n}, holds passed → t.kind.closing? = some closer →
      Group.length [closer] ahead = .ok n → holds (passed ++ t :: ahead.take n))
    (hfront : l.front = passed ++ ahead) (hfront' : l.front = passed' ++ ahead')
    (hholds : holds passed) (hfollows : braceFollows [] ahead = true)
    (hrun : Grammar.passToBody (.between passed ahead l.file) =
      .ok ((), .between passed' ahead' l.file)) : holds passed' := by
  have hN : OnWay l holds (.between passed ahead l.file) (.between passed ahead l.file) :=
    ⟨rfl, passed, ahead, hfront, rfl, hholds, hfollows⟩
  have hfaults (cause : SyntaxError.Cause) (offset : Nat) (h : cause ≠ .tooDeep) :
      Fault ⟨cause, offset⟩ ⟨cause, offset⟩ := ⟨rfl, h⟩
  have hagree := Grammar.passToBody_agrees_of (F := Fault) (N := OnWay l holds)
    (M := fun d _ => ∃ passed ahead, l.front = passed ++ ahead ∧ d = .between passed ahead l.file ∧
      holds passed)
    (fun h hd hlt => h.1 ▸ hd.1 ▸ hlt) (fun h => by rw [h.1])
    (fun h _ => by rw [h.1]; exact hfaults _ _ nofun) ?advance ?group ?body hN
  case advance =>
    rintro c _ ⟨rfl, passed, ahead, hfront, rfl, hholds, hfollows⟩ hfile hnone
    cases ahead with
    | nil => cases hfollows
    | cons t ahead =>
        rw [Cursor.between_kind] at hnone
        obtain ⟨hcloses, hlater⟩ := braceFollows_other hfollows hnone
        rw [Cursor.between_advance]
        exact ⟨⟨rfl, passed ++ [t], ahead, by simp [hfront], rfl,
          hother hholds hnone hcloses, hlater⟩, Nat.lt_succ_self _⟩
  case group =>
    rintro c _ ⟨rfl, passed, ahead, hfront, rfl, hholds, hfollows⟩ hkind
    cases ahead with
    | nil => cases hfollows
    | cons t ahead =>
        rw [Cursor.between_kind] at hkind
        have hbrace : t.kind ≠ .leftBrace := fun hbrace => by
          rw [hbrace] at hkind
          simp at hkind
        obtain ⟨closer, hcloser⟩ : ∃ closer, t.kind.closing? = some closer := by
          obtain hkind | hkind := hkind <;> rw [hkind] <;> exact ⟨_, rfl⟩
        refine (passGroup_self hcloser).mono fun _ _ d d' ⟨heq, n, hn, hd⟩ => ⟨⟨heq, _, _,
          by simp [hfront], hd, hgroup hholds hcloser hn,
          braceFollows_group hfollows hbrace hcloser hn⟩, ?_⟩
        rw [hd, Cursor.between_left, Cursor.between_left, List.length_drop, List.length_cons]
        omega
  case body =>
    rintro c _ ⟨rfl, passed, ahead, hfront, rfl, hholds, hfollows⟩ hkind
    cases ahead with
    | nil => cases hfollows
    | cons t ahead =>
        have hcloser : t.kind.closing? = some .rightBrace := by
          rw [Cursor.between_kind] at hkind
          rw [hkind]
          rfl
        refine (passGroup_self hcloser).mono
          fun _ _ d d' ⟨_, n, hn, hd⟩ => ⟨⟨_, _, by simp [hfront], hd,
          hgroup hholds hcloser hn⟩, ?_⟩
        rw [hd, Cursor.between_left, Cursor.between_left, List.length_drop, List.length_cons]
        omega
  rw [Agree, hrun] at hagree
  obtain ⟨⟨passed'', ahead'', hfront'', heq, hholds''⟩, -⟩ := hagree
  obtain rfl : ahead' = ahead'' := congrArg Cursor.ahead heq
  rwa [List.append_cancel_right (hfront'.symm.trans hfront'')]

/-- The brackets open behind the tokens passed are those that the grammar has entered. -/
def brackets (l : Listing) (hbodied : TypeBodied l.front) : Trail l where
  toOperands := .led (Bodied l.front)
  holds σ passed := open? [] passed = some σ
  decorated := @TypeBodied.of_decorated l hbodied
  plain hopen hplain := open?_concat hopen (open1?_plain hplain)
  semicolon hopen hkind := open?_concat hopen (open1?_semicolon hkind)
  opens hopen hkind := open?_concat hopen (open1?_opens hkind)
  closes hopen hkind := open?_concat hopen (open1?_closes hkind)
  group hopen hkind hn := open?_group hopen hkind hn
  body {σ passed ahead passed' ahead'} hopen hfront hfront' hoperand hword hrun := by
    have hbodied := hfront ▸ hoperand.1
    exact holds_body (fun passed => open? [] passed = some σ)
      (fun hopen hnone hcloses => open?_concat hopen (open1?_other hnone hcloses)) open?_group
      hfront hfront' hopen
        (hbodied.follows (by rw [l.file_kind]; decide) hopen hoperand.2 hword) hrun

end Trail

end HandlerWeave.Source
