import HandlerWeave.Proofs.Lockstep.Pairing
import HandlerWeave.Proofs.Source.Rounds

/-!
The rules by which two paired runs of a parser are followed: one for each way to take tokens, to
decide and to repeat.
-/
namespace HandlerWeave.Source

open Source.Parser

variable {P : Pairing} {α β ρ : Type} {σ τ : List Token.Kind} {c c' d d' s s' : Cursor} {m : Nat}
  {kind closer : Token.Kind}

theorem and_eq_and {a a' b b' : Bool} (ha : a = a') (hb : a = true → b = b') :
    (a && b) = (a' && b') := by
  subst ha
  cases a with
  | false => rfl
  | true => rw [hb rfl]

theorem or_eq_or {a a' b b' : Bool} (ha : a = a') (hb : b = b') : (a || b) = (a' || b') := by
  rw [ha, hb]

namespace Pairing

/-- Both runs take a token. -/
structure Next (P : Pairing) (σ : List Token.Kind) (c c' : Cursor) : Prop where
  near : P.near σ c.advance c'.advance
  left : c.advance.left + 1 = c.left
  before : c.advance.before = some c.token

/-- Both runs stop at places with fewer than `m` tokens ahead. Their results are the same unless the
first run has come too far. -/
structure Kept (P : Pairing) (σ : List Token.Kind) (m : Nat) (a a' : α) (d d' : Cursor) : Prop where
  near : P.near σ d d'
  left : d.left < m
  eq : P.horizon ≤ d.left → a = a'

/-- Both runs stop at places with fewer than `m` tokens ahead, with the same result. -/
structure Same (P : Pairing) (σ : List Token.Kind) (m : Nat) (a a' : α) (d d' : Cursor) : Prop where
  near : P.near σ d d'
  left : d.left < m
  eq : a = a'

/-- Both runs of a round find something and have taken a token, or neither does. -/
def Found (P : Pairing) (σ : List Token.Kind) (m : Nat) :
    Option α → Option α → Cursor → Cursor → Prop
  | some a, some a', d, d' => P.Kept σ m a a' d d'
  | none, none, d, d' => P.near σ d d' ∧ d.left ≤ m
  | _, _, _, _ => False

/-- Both runs of a round go on and have taken a token, or neither does. -/
structure Round (P : Pairing) (σ : List Token.Kind) (m : Nat) (more more' : Bool)
    (d d' : Cursor) : Prop where
  near : P.near σ d d'
  left : d.left ≤ m
  eq : more = more'
  taken : more = true → d.left < m

theorem Same.kept {a a' : α} (h : P.Same σ m a a' d d') : P.Kept σ m a a' d d' :=
  ⟨h.near, h.left, fun _ => h.eq⟩

theorem Kept.mono {n : Nat} {a a' : α} (h : P.Kept σ m a a' d d') (hm : m ≤ n) :
    P.Kept σ n a a' d d' := ⟨h.near, Nat.lt_of_lt_of_le h.left hm, h.eq⟩

theorem check_eq (h : P.near σ c c') (kind : Token.Kind) : c.check kind = c'.check kind := by
  rw [Cursor.check, Cursor.check, P.kind_eq h]

theorem seesWord_eq (h : P.near σ c c') (word : String) : c.seesWord word = c'.seesWord word := by
  rw [Cursor.isWord_token, Cursor.isWord_token, P.kind_eq h, P.text_eq h]

theorem seesAnyWord_eq (h : P.near σ c c') (words : List String) :
    c.seesAnyWord words = c'.seesAnyWord words := by
  rw [Cursor.seesAnyWord, Cursor.seesAnyWord, funext (seesWord_eq h)]

theorem Next.kindAhead_eq (h : P.Next σ c c') : c.kindAhead 1 = c'.kindAhead 1 := by
  rw [Cursor.kindAhead_succ, Cursor.kindAhead_succ]
  exact P.kind_eq h.near

theorem Next.wordAt_eq (h : P.Next σ c c') (word : String) :
    c.wordAt 1 word = c'.wordAt 1 word := by
  rw [Cursor.wordAt_succ, Cursor.wordAt_succ]
  exact seesWord_eq h.near word

theorem Next.nameStartsAt_eq (h : P.Next σ c c') : c.nameStartsAt 1 = c'.nameStartsAt 1 := by
  rw [Cursor.nameStartsAt, Cursor.nameStartsAt, h.kindAhead_eq]

theorem Next.ready (h : P.Next σ c c') (hkind : c.kind = kind)
    (hhead : Token.headKinds.contains kind = true) : P.ready c.advance := by
  subst hkind
  refine P.ready_of_headed ?_
  rw [Cursor.Headed, h.before]
  exact Bool.or_eq_true_iff.2 (.inl hhead)

theorem Next.ready_word {word : String} (h : P.Next σ c c') (hword : c.seesWord word = true)
    (hhead : Token.headWords.contains word = true) : P.ready c.advance := by
  refine P.ready_of_headed ?_
  rw [Cursor.Headed, h.before]
  refine Bool.or_eq_true_iff.2 (.inr (Bool.and_eq_true_iff.2 ⟨?_, ?_⟩))
  · exact beq_iff_eq.2 (Cursor.kind_of_seesWord hword)
  · rw [← Cursor.text_of_seesWord hword] at hhead
    exact hhead

theorem Next.operand (h : P.Next σ c c') (hexprs : P.exprs) (hkind : c.kind = kind)
    (hleads : kind.leads σ.head? = true) : P.operand σ c.advance := by
  subst hkind
  refine P.operand_of hexprs ?_
  rw [Cursor.Operand, h.before]
  exact hleads

theorem stands (h : P.near σ c c') (hfile : c.kind ≠ .endOfFile) : c.ahead ≠ [] :=
  mt (P.file_iff h).2 hfile

theorem left_eq_zero (h : P.near σ c c') (hfile : c.kind = .endOfFile) : c.left = 0 := by
  rw [Cursor.left, (P.file_iff h).1 hfile]
  rfl

theorem next_plain (h : P.near σ c c') (hplain : c.kind.isPlain = true) : P.Next σ c c' := by
  have hahead : c.ahead ≠ [] := stands h fun heof => by rw [heof] at hplain; cases hplain
  exact ⟨P.plain h hplain, Cursor.advance_left hahead, Cursor.advance_before hahead⟩

theorem isPlain_of_eq (hkind : c.kind = kind) (hplain : kind.isPlain = true) :
    c.kind.isPlain = true := hkind ▸ hplain

theorem next_word (h : P.near σ c c') (hkind : c.kind = .word) : P.Next σ c c' :=
  next_plain h (by rw [hkind]; rfl)

theorem takes_plain (h : P.near σ c c') (hplain : kind.isPlain = true) (hkind : c.kind = kind) :
    P.Next σ c c' := next_plain h (hkind ▸ hplain)

theorem takes_opens (h : P.near σ c c') (hole : ¬ P.hole c) (hclosing : kind.closing? = some closer)
    (hkind : c.kind = kind) : P.Next (closer :: σ) c c' := by
  have hahead : c.ahead ≠ [] := stands h fun heof => by
    rw [← hkind, heof] at hclosing
    cases hclosing
  exact ⟨P.opens h (hkind ▸ hclosing) hole, Cursor.advance_left hahead,
    Cursor.advance_before hahead⟩

theorem takes_closes (h : P.near (kind :: σ) c c') (hclosing : kind.isClosing = true)
    (hkind : c.kind = kind) : P.Next σ c c' := by
  have hahead : c.ahead ≠ [] := stands h fun heof => by
    rw [← hkind, heof] at hclosing
    cases hclosing
  exact ⟨P.closes h hclosing hkind, Cursor.advance_left hahead, Cursor.advance_before hahead⟩

theorem takes_semicolon (h : P.near σ c c') (hσ : σ ≠ []) (hkind : c.kind = .semicolon) :
    P.Next σ c c' := by
  have hahead : c.ahead ≠ [] := stands h fun heof => by rw [hkind] at heof; cases heof
  exact ⟨P.semicolon h hkind hσ, Cursor.advance_left hahead, Cursor.advance_before hahead⟩

theorem word_ahead_eq (h : P.near σ c c') (word : String) (test : Token.Kind → Bool) :
    (c.seesWord word && test (c.kindAhead 1)) = (c'.seesWord word && test (c'.kindAhead 1)) :=
  and_eq_and (seesWord_eq h word) fun hsees =>
    congrArg test (next_word h (Cursor.kind_of_seesWord hsees)).kindAhead_eq

theorem words_ahead_eq (h : P.near σ c c') (words : List String) (test : Token.Kind → Bool) :
    (c.seesAnyWord words && test (c.kindAhead 1)) =
      (c'.seesAnyWord words && test (c'.kindAhead 1)) :=
  and_eq_and (seesAnyWord_eq h words) fun hsees =>
    congrArg test (next_word h (Cursor.kind_of_seesAnyWord hsees)).kindAhead_eq

theorem kind_ahead_eq (h : P.near σ c c') (hplain : kind.isPlain = true)
    (test : Token.Kind → Bool) :
    (c.check kind && test (c.kindAhead 1)) = (c'.check kind && test (c'.kindAhead 1)) :=
  and_eq_and (check_eq h kind) fun hcheck => congrArg test
    (next_plain h (Cursor.kind_of_check hcheck ▸ hplain)).kindAhead_eq

theorem word_word_eq (h : P.near σ c c') (word next : String) :
    (c.seesWord word && c.wordAt 1 next) = (c'.seesWord word && c'.wordAt 1 next) :=
  and_eq_and (seesWord_eq h word) fun hsees =>
    (next_word h (Cursor.kind_of_seesWord hsees)).wordAt_eq next

theorem not_hole (h : P.near σ c c') (hready : P.ready c) : ¬ P.hole c :=
  fun hhole => P.not_ready h hhole hready

theorem not_hole_of_kind (hkind : c.kind = kind) (h : kind ≠ .leftBrace) : ¬ P.hole c :=
  fun hhole => h (hkind.symm.trans (P.hole_kind hhole))

end Pairing

open Pairing

namespace Agree

variable {Q : α → α → Cursor → Cursor → Prop}

theorem cond {b b' : Bool} {p p' q q' : Parser α} (hb : b = b')
    (hp : b = true → Agree P.faults p p' c c' Q) (hq : b = false → Agree P.faults q q' c c' Q) :
    Agree P.faults (if b = true then p else q) (if b' = true then p' else q') c c' Q :=
  .ite (by rw [hb]) hp fun h => hq (Bool.eq_false_iff.2 h)

theorem otherwise {p p' q q' : Parser α} (h : Agree P.faults q q' c c' Q) :
    Agree P.faults (if false = true then p else q) (if false = true then p' else q') c c' Q := h

theorem byKind {f f' : Bool → Parser α} (h : P.near σ c c')
    (hyes : c.kind = kind → Agree P.faults (f true) (f' true) c.advance c'.advance Q)
    (hno : c.kind ≠ kind → Agree P.faults (f false) (f' false) c c' Q) :
    Agree P.faults (Parser.takeKind kind >>= f) (Parser.takeKind kind >>= f') c c' Q := by
  have htrue {c : Cursor} (hc : c.check kind = true) :
      Parser.takeKind kind c = .ok (true, c.advance) := if_pos hc
  have hfalse {c : Cursor} (hc : c.check kind = false) : Parser.takeKind kind c = .ok (false, c) :=
    if_neg (by simp [hc])
  cases hcheck : c.check kind with
  | true =>
      have hkind := Cursor.kind_of_check hcheck
      refine Agree.bind (Q := fun a a' d d' => a = true ∧ a' = true ∧ d = c.advance ∧
        d' = c'.advance) ?_ ?_
      · rw [Agree, htrue hcheck, htrue (check_eq h kind ▸ hcheck)]
        exact ⟨rfl, rfl, rfl, rfl⟩
      · rintro _ _ _ _ ⟨rfl, rfl, rfl, rfl⟩
        exact hyes hkind
  | false =>
      refine Agree.bind (Q := fun a a' d d' => a = false ∧ a' = false ∧ d = c ∧ d' = c') ?_ ?_
      · rw [Agree, hfalse hcheck, hfalse (check_eq h kind ▸ hcheck)]
        exact ⟨rfl, rfl, rfl, rfl⟩
      · rintro _ _ _ _ ⟨rfl, rfl, rfl, rfl⟩
        exact hno fun hkind => absurd hcheck (by simp [Cursor.check, hkind])

theorem takeKind {f f' : Bool → Parser α} (h : P.near σ c c')
    (hnext : c.kind = kind → P.Next τ c c')
    (hyes : c.kind = kind → P.Next τ c c' →
      Agree P.faults (f true) (f' true) c.advance c'.advance Q)
    (hno : c.kind ≠ kind → Agree P.faults (f false) (f' false) c c' Q) :
    Agree P.faults (Parser.takeKind kind >>= f) (Parser.takeKind kind >>= f') c c' Q :=
  .byKind h (fun hkind => hyes hkind (hnext hkind)) hno

theorem takeWord {f f' : Bool → Parser α} {word : String} (h : P.near σ c c')
    (hyes : c.seesWord word = true → P.Next σ c c' →
      Agree P.faults (f true) (f' true) c.advance c'.advance Q)
    (hno : c.seesWord word = false → Agree P.faults (f false) (f' false) c c' Q) :
    Agree P.faults (Parser.takeWord word >>= f) (Parser.takeWord word >>= f') c c' Q := by
  have htrue {c : Cursor} (hc : c.seesWord word = true) :
      Parser.takeWord word c = .ok (true, c.advance) := if_pos hc
  have hfalse {c : Cursor} (hc : c.seesWord word = false) :
      Parser.takeWord word c = .ok (false, c) := if_neg (by simp [hc])
  cases hsees : c.seesWord word with
  | true =>
      refine Agree.bind (Q := fun a a' d d' => a = true ∧ a' = true ∧ d = c.advance ∧
        d' = c'.advance) ?_ ?_
      · rw [Agree, htrue hsees, htrue (seesWord_eq h word ▸ hsees)]
        exact ⟨rfl, rfl, rfl, rfl⟩
      · rintro _ _ _ _ ⟨rfl, rfl, rfl, rfl⟩
        exact hyes hsees (next_word h (Cursor.kind_of_seesWord hsees))
  | false =>
      refine Agree.bind (Q := fun a a' d d' => a = false ∧ a' = false ∧ d = c ∧ d' = c') ?_ ?_
      · rw [Agree, hfalse hsees, hfalse (seesWord_eq h word ▸ hsees)]
        exact ⟨rfl, rfl, rfl, rfl⟩
      · rintro _ _ _ _ ⟨rfl, rfl, rfl, rfl⟩
        exact hno hsees

theorem fail {cause : Found → SyntaxError.Cause} (h : P.near σ c c')
    (hcause : ∀ found, cause found ≠ .tooDeep) :
    Agree P.faults (Parser.fail cause) (Parser.fail cause) c c' Q := by
  unfold Agree Parser.fail
  rw [← P.kind_eq h, ← P.text_eq h]
  exact P.fault h (hcause _)

theorem failed {f f' : β → Parser α} {cause : Found → SyntaxError.Cause} (h : P.near σ c c')
    (hcause : ∀ found, cause found ≠ .tooDeep) :
    Agree P.faults (Parser.fail cause >>= f) (Parser.fail cause >>= f') c c' Q :=
  .bind (Q := fun _ _ _ _ => False) (.fail h hcause) fun _ _ _ _ h => h.elim

theorem require {f f' : Unit → Parser α} {what : String} (h : P.near σ c c')
    (hnext : c.kind = kind → P.Next τ c c')
    (hf : c.kind = kind → P.Next τ c c' → Agree P.faults (f ()) (f' ()) c.advance c'.advance Q) :
    Agree P.faults (Parser.require kind what >>= f) (Parser.require kind what >>= f') c c' Q := by
  unfold Parser.require
  rw [bind_assoc, bind_assoc]
  exact .takeKind h hnext hf fun _ => .failed h nofun

theorem requireWord {f f' : Unit → Parser α} {word : String} (h : P.near σ c c')
    (hf : c.seesWord word = true → P.Next σ c c' →
      Agree P.faults (f ()) (f' ()) c.advance c'.advance Q) :
    Agree P.faults (Parser.requireWord word >>= f) (Parser.requireWord word >>= f') c c' Q := by
  unfold Parser.requireWord
  rw [bind_assoc, bind_assoc]
  exact .takeWord h hf fun _ => .failed h nofun

end Agree

/-- A token that may be left out. -/
theorem takeKind_agrees (h : P.near σ c c') (hplain : kind.isPlain = true) :
    Agree P.faults (takeKind kind) (takeKind kind) c c' (P.Same σ (c.left + 1)) := by
  rw [← bind_pure (takeKind kind)]
  refine .takeKind h (takes_plain h hplain) (fun _ ⟨hnext, hlt, _⟩ => ?_)
    fun _ => .pure ⟨h, Nat.lt_succ_self _, rfl⟩
  exact .pure ⟨hnext, by omega, rfl⟩

/-- A token that may be left out in front of a type or an expression. -/
theorem takeHead_agrees (h : P.near σ c c') (hready : P.ready c)
    (hkind : Token.headKinds.contains kind = true) (hplain : kind.isPlain = true) :
    Agree P.faults (takeKind kind) (takeKind kind) c c' fun _ _ d d' =>
      P.near σ d d' ∧ P.ready d ∧ d.left ≤ c.left := by
  rw [← bind_pure (takeKind kind)]
  refine .takeKind h (takes_plain h hplain) (fun hk hnext => ?_)
    fun _ => .pure ⟨h, hready, Nat.le_refl _⟩
  exact .pure ⟨hnext.near, hnext.ready hk hkind, Nat.le_of_succ_le (Nat.le_of_eq hnext.left)⟩

theorem word_agrees {what : String} (h : P.near σ c c') :
    Agree P.faults (word what) (word what) c c' (P.Same σ c.left) := by
  refine .look (.cond (check_eq h .word) (fun hword => ?_) fun _ => .fail h nofun)
  have hc := next_word h (Cursor.kind_of_check hword)
  exact ⟨hc.near, Nat.lt_of_succ_le (Nat.le_of_eq hc.left), P.text_eq h⟩

theorem takeText_agrees (h : P.near σ c c') (hplain : c.kind.isPlain = true) :
    Agree P.faults takeText takeText c c' (P.Same σ c.left) := by
  have hc := next_plain h hplain
  exact ⟨hc.near, Nat.lt_of_succ_le (Nat.le_of_eq hc.left), P.text_eq h⟩

theorem takeString_agrees (h : P.near σ c c') (hplain : c.kind.isPlain = true) :
    Agree P.faults Grammar.takeString Grammar.takeString c c' (P.Same σ c.left) :=
  (takeText_agrees h hplain).bind fun _ _ _ _ hd => .pure ⟨hd.near, hd.left, by rw [hd.eq]⟩

theorem passGroup_agrees (h : P.near σ c c') :
    Agree P.faults passGroup passGroup c c' (P.Same σ c.left) := by
  cases hkind : c.kind.closing? with
  | none =>
      have hfails {c : Cursor} (hkind : c.kind.closing? = none) :
          passGroup c = .error ⟨.noBracket, c.token.start⟩ := by
        rw [passGroup, hkind]
      rw [Agree, hfails hkind, hfails (P.kind_eq h ▸ hkind)]
      exact P.fault h (by decide)
  | some closer =>
      exact (P.group h (by rw [hkind]; rfl)).mono fun _ _ _ _ hd => ⟨hd.1, hd.2, rfl⟩

/-- The text read since a place is kept. -/
theorem textSince_agrees (wrap : String → α) (hstart : P.near τ s s') (h : P.near σ c c')
    (hle : c.left ≤ s.left) (hm : c.left < m) :
    Agree P.faults (do return wrap (← textSince s)) (do return wrap (← textSince s')) c c'
      (P.Kept σ m) :=
  Agree.pure (F := P.faults) ⟨h, hm, fun hz => by rw [P.slice_eq hstart h hle hz]⟩

theorem textSince_found (wrap : String → α) (hstart : P.near τ s s') (h : P.near σ c c')
    (hle : c.left ≤ s.left) (hm : c.left < m) :
    Agree P.faults (do return some (wrap (← textSince s)))
      (do return some (wrap (← textSince s'))) c c' (P.Found σ m) :=
  Agree.pure (F := P.faults) ⟨h, hm, fun hz => by rw [P.slice_eq hstart h hle hz]⟩

theorem manyWithin_agrees {step step' : Parser (Option α)}
    (hstep : ∀ d d', P.near σ d d' → d.left ≤ m →
      Agree P.faults step step' d d' (P.Found σ d.left))
    (rounds rounds' : Nat) (h : P.near σ c c') (hm : c.left ≤ m) (hr : c.left < rounds)
    (hr' : c'.left < rounds') :
    Agree P.faults (manyWithin step rounds) (manyWithin step' rounds') c c'
      (P.Kept σ (c.left + 1)) := by
  induction rounds generalizing rounds' c c' with
  | zero => exact absurd hr (Nat.not_lt_zero _)
  | succ rounds ih =>
      cases rounds' with
      | zero => exact absurd hr' (Nat.not_lt_zero _)
      | succ rounds' =>
          refine (hstep c c' h hm).bind fun o o' d d' hd => ?_
          match o, o', hd with
          | none, none, ⟨hnear, hleft⟩ => exact .pure ⟨hnear, by omega, fun _ => rfl⟩
          | some a, some a', ⟨hnear, hleft, heq⟩ =>
              have hleft' := P.left_lt h hnear hleft
              refine (ih rounds' hnear (by omega) (by omega) (by omega)).bind
                fun xs xs' z z' ⟨hz, hlt, hxs⟩ => .pure ⟨hz, by omega, fun hzz => ?_⟩
              rw [heq (by omega), hxs hzz]

theorem many_agrees {step step' : Parser (Option α)} (h : P.near σ c c')
    (hstep : ∀ d d', P.near σ d d' → d.left ≤ c.left →
      Agree P.faults step step' d d' (P.Found σ d.left)) :
    Agree P.faults (many step) (many step') c c' (P.Kept σ (c.left + 1)) :=
  manyWithin_agrees hstep _ _ h (Nat.le_refl _) (Nat.lt_succ_self _) (Nat.lt_succ_self _)

/-- Both runs of a round go on with states that belong together, or neither does. -/
def GoesOn (N : Cursor → Cursor → Prop) (m : Nat) (S : ρ → ρ → Cursor → Prop)
    (E : Cursor → Cursor → Prop) : Option ρ → Option ρ → Cursor → Cursor → Prop
  | some t, some t', d, d' => N d d' ∧ d.left < m ∧ S t t' d
  | none, none, d, d' => E d d'
  | _, _, _, _ => False

/-- Rounds that keep to corresponding places, each taking a token, come to an end in both runs. -/
theorem Agree.iterate {F : SyntaxError → SyntaxError → Prop} {N : Cursor → Cursor → Prop}
    {S : ρ → ρ → Cursor → Prop} {E : ρ → ρ → Cursor → Cursor → Prop}
    {step step' : ρ → Parser (Option ρ)} {t t' : ρ}
    (hdown : ∀ {c c' d d'}, N c c' → N d d' → d.left < c.left → d'.left < c'.left)
    (h : N c c') (ht : S t t' c)
    (hstep : ∀ t t' d d', N d d' → d.left ≤ c.left → S t t' d →
      Agree F (step t) (step' t') d d' (GoesOn N d.left S (E t t'))) :
    Agree F (Parser.iterate step t) (Parser.iterate step' t') c c' E := by
  have hrounds : ∀ rounds rounds' t t' d d', N d d' → d.left ≤ c.left → S t t' d →
      d.left < rounds → d'.left < rounds' →
      Agree F (iterateWithin step rounds t) (iterateWithin step' rounds' t') d d' E := by
    intro rounds
    induction rounds with
    | zero => exact fun _ _ _ _ _ _ _ _ hr _ => absurd hr (Nat.not_lt_zero _)
    | succ rounds ih =>
        intro rounds' t t' d d' hd hle ht hr hr'
        cases rounds' with
        | zero => exact absurd hr' (Nat.not_lt_zero _)
        | succ rounds' =>
            refine (hstep t t' d d' hd hle ht).bind fun o o' e e' he => ?_
            match o, o', he with
            | none, none, he => exact .pure he
            | some u, some u', ⟨hnear, hleft, hu⟩ =>
                have hleft' := hdown hd hnear hleft
                exact ih rounds' u u' e e' hnear (by omega) hu (by omega) (by omega)
  exact hrounds _ _ t t' c c' h (Nat.le_refl _) ht (Nat.lt_succ_self _) (Nat.lt_succ_self _)

theorem iterate_agrees {S : ρ → ρ → Cursor → Prop} {E : ρ → ρ → Cursor → Cursor → Prop}
    {step step' : ρ → Parser (Option ρ)} {t t' : ρ} (h : P.near σ c c') (ht : S t t' c)
    (hstep : ∀ t t' d d', P.near σ d d' → d.left ≤ c.left → S t t' d →
      Agree P.faults (step t) (step' t') d d' (GoesOn (P.near σ) d.left S (E t t'))) :
    Agree P.faults (iterate step t) (iterate step' t') c c' E :=
  .iterate P.left_lt h ht hstep

/-- A loop whose state is part of a tree. -/
theorem iterate_kept {step step' : ρ → Parser (Option ρ)} {t t' : ρ} (h : P.near σ c c')
    (ht : P.horizon ≤ c.left → t = t')
    (hstep : ∀ t t' d d', P.near σ d d' → d.left ≤ c.left → (P.horizon ≤ d.left → t = t') →
      Agree P.faults (step t) (step' t') d d' (P.Found σ d.left)) :
    Agree P.faults (iterate step t) (iterate step' t') c c' (P.Kept σ (c.left + 1)) := by
  refine iterate_agrees (S := fun t t' d => d.left ≤ c.left ∧ (P.horizon ≤ d.left → t = t')) h
    ⟨Nat.le_refl _, ht⟩ fun t t' d d' hd hle ht => ?_
  refine (hstep t t' d d' hd hle ht.2).mono fun o o' e e' he => ?_
  match o, o', he with
  | none, none, ⟨hnear, hleft⟩ => exact ⟨hnear, by omega, fun hz => ht.2 (by omega)⟩
  | some u, some u', ⟨hnear, hleft, heq⟩ => exact ⟨hnear, hleft, by omega, heq⟩

theorem skipWhile_agrees {step step' : Parser Bool} (h : P.near σ c c')
    (hstep : ∀ d d', P.near σ d d' → d.left ≤ c.left →
      Agree P.faults step step' d d' (P.Round σ d.left)) :
    Agree P.faults (skipWhile step) (skipWhile step') c c' (P.Same σ (c.left + 1)) := by
  refine iterate_agrees (S := fun _ _ d => d.left ≤ c.left) h (Nat.le_refl _)
    fun _ _ d d' hd hle _ => ?_
  refine (hstep d d' hd hle).bind fun more more' e e' ⟨he, hleft, hmore, hlt⟩ => ?_
  subst hmore
  cases more with
  | false => exact .pure ⟨he, by omega, rfl⟩
  | true => exact .pure ⟨he, hlt rfl, by omega⟩

/-- A list may end without a token only where nothing stands in it. -/
theorem listWithin_agrees {I : Cursor → Prop} (ends : Cursor → Bool) {separator : Token.Kind}
    {item item' : Parser α} {slack : Nat} (hplain : separator.isPlain = true) (hslack : slack ≤ 1)
    (hends : ∀ σ d d', P.near σ d d' → ends d = ends d')
    (hempty : ∀ d, ends d = true → slack = 1)
    (hsep : ∀ d d', P.Next σ d d' → d.kind = separator → I d.advance)
    (hitem : ∀ d d', P.near σ d d' → I d → d.left ≤ m →
      Agree P.faults item item' d d' (P.Kept σ (d.left + slack)))
    (rounds rounds' : Nat) (h : P.near σ c c') (hI : I c) (hm : c.left ≤ m)
    (hr : c.left < rounds) (hr' : c'.left < rounds') :
    Agree P.faults (listWithin ends separator item rounds) (listWithin ends separator item' rounds')
      c c' (P.Kept σ (c.left + slack)) := by
  induction rounds generalizing rounds' c c' with
  | zero => exact absurd hr (Nat.not_lt_zero _)
  | succ rounds ih =>
      cases rounds' with
      | zero => exact absurd hr' (Nat.not_lt_zero _)
      | succ rounds' =>
          refine .look (.cond (hends _ _ _ h) (fun hend => ?_) fun _ => ?_)
          · have hone := hempty _ hend
            exact .pure ⟨h, by omega, fun _ => rfl⟩
          refine (hitem c c' h hI hm).bind fun a a' d d' ⟨hd, hleft, ha⟩ => ?_
          refine .takeKind hd (takes_plain hd hplain) (fun hkind hnext => ?_)
            fun _ => .pure ⟨hd, hleft, fun hz => by rw [ha hz]⟩
          have hlt := hnext.left
          have hleft' := P.left_lt h hnext.near (by omega)
          refine (ih _ hnext.near (hsep _ _ hnext hkind) (by omega) (by omega) (by omega)).bind
            fun xs xs' z z' ⟨hz, hzlt, hxs⟩ => .pure ⟨hz, by omega, fun hzz => ?_⟩
          rw [ha (by omega), hxs hzz]

theorem commaList_agrees {I : Cursor → Prop} {item item' : Parser α} (h : P.near σ c c') (hI : I c)
    (hcomma : ∀ d d', P.Next σ d d' → d.kind = .comma → I d.advance)
    (hitem : ∀ d d', P.near σ d d' → I d → d.left ≤ c.left →
      Agree P.faults item item' d d' (P.Kept σ (d.left + 1))) :
    Agree P.faults (commaList closer item) (commaList closer item') c c'
      (P.Kept σ (c.left + 1)) := by
  unfold Agree commaList
  rw [commaListWithin_eq, commaListWithin_eq]
  exact listWithin_agrees (·.check closer) rfl (Nat.le_refl _) (fun _ _ _ hd => check_eq hd closer)
    (fun _ _ => rfl)
    hcomma hitem _ _ h hI (Nat.le_refl _) (Nat.lt_succ_self _) (Nat.lt_succ_self _)

theorem separated_agrees {I : Cursor → Prop} {item item' : Parser α} {separator : Token.Kind}
    (hplain : separator.isPlain = true) (h : P.near σ c c') (hI : I c)
    (hsep : ∀ d d', P.Next σ d d' → d.kind = separator → I d.advance)
    (hitem : ∀ d d', P.near σ d d' → I d → d.left ≤ c.left →
      Agree P.faults item item' d d' (P.Kept σ d.left)) :
    Agree P.faults (separated separator item) (separated separator item') c c'
      (P.Kept σ c.left) := by
  unfold Agree separated
  rw [separatedWithin_eq, separatedWithin_eq]
  exact listWithin_agrees (fun _ => false) hplain (Nat.zero_le _) (fun _ _ _ _ => rfl)
    (fun _ hend => absurd hend Bool.false_ne_true) hsep hitem _ _ h hI (Nat.le_refl _)
    (Nat.lt_succ_self _) (Nat.lt_succ_self _)

theorem listRound_agrees {ends : Cursor → Bool} {separator : Token.Kind} {item item' : Parser α}
    (hplain : separator.isPlain = true) (hends : ends c = ends c') (h : P.near σ c c')
    (hitem : Agree P.faults item item' c c' (P.Kept σ (c.left + 1))) :
    Agree P.faults (listRound ends separator item) (listRound ends separator item') c c'
      (P.Round σ c.left) := by
  refine .look (.cond hends (fun _ => .pure ⟨h, Nat.le_refl _, rfl, nofun⟩) fun _ => ?_)
  refine hitem.bind fun _ _ d d' ⟨hd, hleft, _⟩ => ?_
  rw [← bind_pure (takeKind separator)]
  refine .takeKind hd (takes_plain hd hplain) (fun _ ⟨he, hlt, _⟩ => ?_)
    fun _ => .pure ⟨hd, by omega, rfl, nofun⟩
  exact .pure ⟨he, by omega, rfl, fun _ => by omega⟩

/-- A loop that collects or changes something goes on as long as its rounds find something. -/
theorem found_round {step step' : Parser (Option α)}
    (h : Agree P.faults step step' c c' (P.Found σ c.left)) :
    Agree P.faults (Option.isSome <$> step) (Option.isSome <$> step') c c' (P.Round σ c.left) :=
  h.map fun o o' _ _ hd => match o, o', hd with
    | none, none, ⟨hnear, hleft⟩ => ⟨hnear, hleft, rfl, nofun⟩
    | some _, some _, ⟨hnear, hleft, _⟩ => ⟨hnear, Nat.le_of_lt hleft, rfl, fun _ => hleft⟩

/-- What may stand behind a token of that kind. -/
theorem after_agrees {item item' : Parser α} (hplain : kind.isPlain = true) (h : P.near σ c c')
    (hitem : c.kind = kind → P.Next σ c c' →
      Agree P.faults item item' c.advance c'.advance (P.Kept σ c.left)) :
    Agree P.faults (after kind item) (after kind item') c c' (P.Kept σ (c.left + 1)) := by
  refine .takeKind h (takes_plain h hplain) (fun hkind hnext => ?_)
    fun _ => .pure ⟨h, Nat.lt_succ_self _, fun _ => rfl⟩
  refine (hitem hkind hnext).bind fun a a' d d' ⟨hd, hlt, ha⟩ => ?_
  exact .pure ⟨hd, by omega, fun hz => by rw [ha hz]⟩

end HandlerWeave.Source
