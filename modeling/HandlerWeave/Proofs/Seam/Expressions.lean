import HandlerWeave.Proofs.Seam.Types

/-!
Operands in front of a word that goes on with nothing in them. An initializer is skipped to the end
of its statement, so only operands that are not kept as text end where their text ends.
-/
namespace HandlerWeave.Source

open Source.Parser Source.Group Seam

/-- The expression is not kept as text, nor what stands behind its signs. -/
def Expr.Structured : Expr → Prop
  | .verbatim _ => False
  | .negate inner => inner.Structured
  | _ => True

/-- An initializer that is skipped ends here. -/
def Cursor.Stopped (c : Cursor) : Prop :=
  c.kind ∈ [.endOfFile, .semicolon, .comma, .rightParen, .rightBracket, .rightBrace] ∨
    c.atStatementBreak = true

/-- Operands end in a token of such a kind. -/
def Token.operandEndKinds : List Token.Kind := .bang :: Token.endKinds

variable {X : Seam} {α β : Type} {c c' d d' e e' s s' : Cursor} {n m : Nat}
  {kind opening closer : Token.Kind} {g g' : Grammar}

/-- What the first parser reads, the second one reads too, and then `Q` holds, unless `R` holds of
what the first one reads. -/
def CarriesOr (R : α → Cursor → Prop) (p p' : Parser α) (c c' : Cursor)
    (Q : α → Cursor → Cursor → Prop) : Prop :=
  ∀ a d, p c = .ok (a, d) → R a d ∨ ∃ d', p' c' = .ok (a, d') ∧ Q a d d'

namespace CarriesOr

variable {p p' q q' : Parser α} {f f' : α → Parser β} {Q : α → Cursor → Cursor → Prop}
  {S : β → Cursor → Cursor → Prop} {R : α → Cursor → Prop} {T : β → Cursor → Prop}

theorem of (h : Carries p p' c c' Q) : CarriesOr R p p' c c' Q := fun a d hp => .inr (h a d hp)

theorem mono {Q' : α → Cursor → Cursor → Prop} (h : CarriesOr R p p' c c' Q)
    (hQ : ∀ a d d', Q a d d' → Q' a d d') : CarriesOr R p p' c c' Q' :=
  fun a d hp => (h a d hp).imp_right fun ⟨d', hp', hd⟩ => ⟨d', hp', hQ a d d' hd⟩

theorem bind (hp : CarriesOr R p p' c c' Q)
    (hR : ∀ a d b e, R a d → f a d = .ok (b, e) → T b e)
    (hf : ∀ a d d', Q a d d' → CarriesOr T (f a) (f' a) d d' S) :
    CarriesOr T (p >>= f) (p' >>= f') c c' S := by
  intro b e hrun
  obtain ⟨a, d, hpa, hfa⟩ := bind_eq_ok.1 hrun
  obtain hstop | ⟨d', hpa', hQ⟩ := hp a d hpa
  · exact .inl (hR a d b e hstop hfa)
  · exact (hf a d d' hQ b e hfa).imp_right fun ⟨e', hfa', hS⟩ =>
      ⟨e', bind_eq_ok.2 ⟨a, d', hpa', hfa'⟩, hS⟩

theorem bind_carries (hp : Carries p p' c c' Q)
    (hf : ∀ a d d', Q a d d' → CarriesOr T (f a) (f' a) d d' S) :
    CarriesOr T (p >>= f) (p' >>= f') c c' S :=
  bind (R := fun _ _ => False) (.of hp) (fun _ _ _ _ h => h.elim) hf

theorem look {f f' : Cursor → Parser β} (h : CarriesOr T (f c) (f' c') c c' S) :
    CarriesOr T (get >>= f) (get >>= f') c c' S := h

theorem advance {f f' : Unit → Parser β}
    (h : CarriesOr T (f ()) (f' ()) c.advance c'.advance S) :
    CarriesOr T (Parser.advance >>= f) (Parser.advance >>= f') c c' S := h

theorem cond {b b' : Bool} (hb : b = b') (hp : b = true → CarriesOr R p p' c c' Q)
    (hq : b = false → CarriesOr R q q' c c' Q) :
    CarriesOr R (if b = true then p else q) (if b' = true then p' else q') c c' Q := by
  subst hb
  cases b with
  | true => exact hp rfl
  | false => exact hq rfl

/-- Where the first run goes on as `R` tells, the second run may go on otherwise. -/
theorem cond_stops {b b' : Bool} (hp : ∀ a d, p c = .ok (a, d) → R a d)
    (hb : b = false → b' = false) (hq : CarriesOr R q q' c c' Q) :
    CarriesOr R (if b = true then p else q) (if b' = true then p' else q') c c' Q := by
  cases b with
  | true => exact fun a d hrun => .inl (hp a d hrun)
  | false => rwa [hb rfl]

end CarriesOr

namespace Seam

/-- Both runs stand behind an operand, with fewer than `m` tokens ahead. -/
structure Past (X : Seam) (m : Nat) (c c' : Cursor) : Prop where
  near : X.Near c c'
  left : c.left < m
  ends : c.before.any (Token.operandEndKinds.contains ·.kind) = true

theorem Past.mono (h : X.Past m c c') (hle : m ≤ n) : X.Past n c c' :=
  ⟨h.near, Nat.lt_of_lt_of_le h.left hle, h.ends⟩

/-- The second run has what follows the text ahead too. -/
theorem Near.left_eq (h : X.Near c c') : c'.left = c.left + (X.more.length + 1) := by
  obtain ⟨passed, halong, -⟩ := h
  rw [Cursor.left, halong.ahead, List.length_append]
  rfl

theorem Meets.past (h : X.Meets m c c') : X.Past m c c' := by
  refine ⟨h.near, h.left, ?_⟩
  have hends := h.ends
  cases hbefore : c.before with
  | none => rw [hbefore] at hends; cases hends
  | some t =>
      rw [hbefore] at hends
      have hcons : Token.operandEndKinds.contains t.kind =
          (t.kind == .bang || Token.endKinds.contains t.kind) := List.contains_cons
      exact hcons.trans (Bool.or_eq_true_iff.2 (.inr hends))

theorem Next.past (h : X.Next c c') (hends : Token.operandEndKinds.contains c.kind = true) :
    X.Past c.left c.advance c'.advance := by
  have hleft := h.left
  exact ⟨h.near, by omega, by rw [h.before]; exact hends⟩

/-- Both runs still stand where they stood, or behind more of an operand. -/
def Grows (X : Seam) (c c' : Cursor) {α : Type} (o : Option α) (d d' : Cursor) : Prop :=
  if o.isSome then X.Past c.left d d' else d = c ∧ d' = c'

/-- A loop whose rounds let an operand grow comes to the end of one. -/
theorem Past.iterate {ρ : Type} {step step' : ρ → Parser (Option ρ)} (h : X.Past m c c')
    (hstep : ∀ r d d', X.Past m d d' → d.left ≤ c.left →
      Carries (step r) (step' r) d d' (X.Grows d d')) (r : ρ) :
    Carries (iterate step r) (iterate step' r) c c' fun _ => X.Past m := by
  refine iterate_carries (N := fun d d' => X.Past m d d' ∧ d.left ≤ c.left) h.near
    (fun r d d' hd => (hstep r d d' hd.1 hd.2).mono fun o e e' he => ?_) r ⟨h, Nat.le_refl _⟩
  cases o with
  | none =>
      obtain ⟨rfl, rfl⟩ := he
      exact hd.1
  | some r =>
      have he : X.Past d.left e e' := he
      exact ⟨he.mono (Nat.le_of_lt hd.1.left), Nat.le_trans (Nat.le_of_lt he.left) hd.2⟩

/-- Behind the text stands no word, or the text does not end in an `async` that starts an operand.
-/
def Synchronous (X : Seam) : Prop :=
  X.next.kind = .word → ∀ t ∈ X.front.getLast?, t.isWord "async" = true →
    X.front.dropLast.getLast?.any (·.kind.leads none) = false

/-- What is nested in an operand is carried over if it is not kept as text. -/
structure ExprKin (X : Seam) (n : Nat) (g g' : Grammar) : Prop extends X.Kin n g g' where
  unary : ∀ {c c'}, X.Near c c' → c.Operand [] → c.left < n → ∀ a d, a.Structured →
    g.unary c = .ok (a, d) → ∃ d', g'.unary c' = .ok (a, d') ∧ X.Past c.left d d'

end Seam

namespace Grammar

theorem exprList_readsInside (hg : ∀ P : Pairing, P.Kin n g g')
    (hleads : opening.leads (some closer) = true)
    (hcomma : Token.Kind.comma.leads (some closer) = true) :
    ReadsInside True n opening closer (g.exprList closer) (g'.exprList closer) := by
  intro P σ c c' hinside h hexprs hn
  obtain ⟨hexprs, hoperand⟩ := hexprs trivial
  exact commaList_agrees (I := P.operand σ) h (hoperand hleads)
    (fun _ _ hd hkind => hinside.operand hexprs hd hkind hcomma)
    fun _ _ hd hI hle => listedExpr_agrees (hg P) hd hI (by omega)

theorem objectMembers_readsInside (hg : ∀ P : Pairing, P.Kin n g g') :
    ReadsInside True n opening closer (commaList .rightBrace g.objectMember)
      (commaList .rightBrace g'.objectMember) := by
  intro P σ c c' hinside h hexprs hn
  exact commaList_agrees (I := fun _ => True) h trivial (fun _ _ _ _ => trivial)
    fun _ _ hd _ hle => (objectMember_agrees (hg P) (hexprs trivial).1 hd hinside.ne_nil
      (by omega)).mono fun _ _ _ _ he => he.mono (Nat.le_succ _)

theorem expr_readsInside (hg : ∀ P : Pairing, P.Kin n g g')
    (hleads : opening.leads (some closer) = true) :
    ReadsInside True n opening closer g.expr g'.expr :=
  fun P _ _ _ _ h hexprs hn => ((hg P).expr h ((hexprs trivial).2 hleads) hn).mono
    fun _ _ _ _ hd => hd.mono (Nat.le_succ _)

variable (hbodied : Bodied X.front)

include hbodied

theorem arguments_carries (hg : X.Kin n g g') (h : X.Near c c') (hn : c.left ≤ n) :
    Carries g.arguments g'.arguments c c' fun _ => X.Past c.left := by
  refine .require h rfl fun hparen => ?_
  have hopens : c.kind.closing? = some .rightParen := by rw [hparen]; rfl
  have hleads : c.kind.leads (some .rightParen) = true := by rw [hparen]; rfl
  exact .inside (exprList_readsInside hg.self hleads rfl) (exprList_readsInside hg.pair hleads rfl)
    (fun _ => hbodied) h hopens hn fun _ _ _ hd => .pure hd.past

theorem argumentsIfAny_carries (hg : X.Kin n g g') (h : X.Past m c c') (hn : c.left ≤ n) :
    Carries g.argumentsIfAny g'.argumentsIfAny c c' fun _ => X.Past m :=
  .look <| .cond (h.near.check_eq rfl)
    (fun _ => (arguments_carries hbodied hg h.near hn).mono fun _ _ _ hd =>
      hd.mono (Nat.le_of_lt h.left))
    fun _ => .pure h

theorem objectLiteral_carries (hg : X.Kin n g g') (h : X.Near c c') (hn : c.left ≤ n) :
    Carries g.objectLiteral g'.objectLiteral c c' fun _ => X.Past c.left := by
  refine .require h rfl fun hbrace => ?_
  have hopens : c.kind.closing? = some .rightBrace := by rw [hbrace]; rfl
  exact .inside (objectMembers_readsInside hg.self) (objectMembers_readsInside hg.pair)
    (fun _ => hbodied) h hopens hn fun _ _ _ hd => .pure hd.past

omit hbodied in
theorem constructionRound_carries (h : X.Past m c c') (callee : Expr) :
    Carries (constructionRound callee) (constructionRound callee) c c' (X.Grows c c') := by
  refine .takeKind (h.near.check_eq rfl) (fun hdot => ?_) fun _ => .pure ⟨rfl, rfl⟩
  have hnext := h.near.takes hdot rfl
  have hleft := hnext.left
  exact (Carries.word hnext.near).bind fun _ _ _ hd => .pure (hd.past.mono (by omega))

theorem construction_carries (hg : X.Kin n g g') (h : X.Near c c') (hn : c.left ≤ n) :
    Carries g.construction g'.construction c c' fun _ => X.Past c.left := by
  refine (Carries.word h).bind fun first d d' hd => ?_
  refine (hd.past.iterate (fun callee _ _ he _ => constructionRound_carries he callee) _).bind
    fun callee e e' he => ?_
  have hlt := he.left
  have hargs : Carries g.typeArgsIfAny g'.typeArgsIfAny e e' fun _ => X.Past c.left :=
    .look <| .cond (he.near.check_eq rfl)
      (fun _ => (typeArgs_carries hg he.near (by omega)).mono fun _ _ _ hz =>
        hz.past.mono (Nat.le_of_lt hlt))
      fun _ => .pure he
  refine hargs.bind fun _ z z' hz => ?_
  have hltz := hz.left
  exact (argumentsIfAny_carries hbodied hg hz (by omega)).bind fun _ _ _ hu => .pure hu

omit hbodied in
/-- On the way to a body every round takes a token or a group, or comes to the brace. -/
theorem bodyRound_carries (h : X.Near c c') (hfollows : braceFollows [] c.ahead = true) :
    Carries bodyRound bodyRound c c' fun more d d' => X.Near d d' ∧ d.left ≤ c.left ∧
      (more = true → braceFollows [] d.ahead = true) := by
  obtain ⟨t, ts, hahead⟩ : ∃ t ts, c.ahead = t :: ts := by
    cases hc : c.ahead with
    | nil => rw [hc] at hfollows; cases hfollows
    | cons t ts => exact ⟨t, ts, rfl⟩
  have hne : c.ahead ≠ [] := by rw [hahead]; exact List.cons_ne_nil t ts
  have hkind : c.kind = t.kind := by simp [Cursor.kind, Cursor.kindAhead, Cursor.tokenAt, hahead]
  have hadvance : c.advance.ahead = ts := by rw [Cursor.advance, hahead]
  have hcheck (kind : Token.Kind) : c.check kind = c'.check kind :=
    congrArg (· == kind) (h.kind_eq hne)
  rw [hahead] at hfollows
  refine .look <| .cond (hcheck _)
    (fun _ => .pure ⟨h, Nat.le_refl _, by rintro ⟨⟩⟩) fun hbrace => ?_
  refine .cond (hcheck _) (fun hfile => ?_) fun _ => ?_
  · exact absurd (h.file_iff.1 (Cursor.kind_of_check hfile)) hne
  have hbrace : t.kind ≠ .leftBrace := by
    rw [← hkind]
    exact beq_eq_false_iff_ne.1 hbrace
  refine .cond (or_eq_or (hcheck _) (hcheck _)) (fun hopens => ?_) fun hother => ?_
  · refine ((passGroup_carries h).also fun _ d hrun => exists_length hrun).bind
      fun _ d d' hgroup => ?_
    obtain ⟨hd, closer, k, hcloser, hlength, hplace⟩ := hgroup
    refine .pure ⟨hd.near, Nat.le_of_lt hd.left, fun _ => ?_⟩
    rw [hplace, Cursor.ahead_advanceBy, hadvance]
    exact braceFollows_group hfollows hbrace (hkind ▸ hcloser) (hadvance ▸ hlength)
  · have hnone : c.kind.closing? = none := by
      simp only [Cursor.check, Bool.or_eq_false_iff, beq_eq_false_iff_ne] at hother
      rw [← hkind] at hbrace
      revert hbrace hother
      cases c.kind <;> simp [Token.Kind.closing?]
    obtain ⟨hcloses, hrest⟩ := braceFollows_other hfollows (hkind ▸ hnone)
    have hnext := h.nextOf hne hnone (hkind ▸ hcloses)
    have hleft := hnext.left
    exact .advance (.pure ⟨hnext.near, by omega, fun _ => hadvance.symm ▸ hrest⟩)

/-- A function or class with a body at the level of its word. -/
theorem passToBody_carries (h : X.Near c c') (hoperand : c.Operand [])
    (hword : c.atBodyWord = true) :
    Carries passToBody passToBody c c' fun _ => X.Past c.left := by
  have hfollows : braceFollows [] c.ahead = true := by
    obtain ⟨passed, halong, hnested⟩ := h
    have hfront := halong.front
    rw [hfront] at hbodied
    rw [halong.here] at hoperand hword
    exact hbodied.follows (by rw [X.file_kind]; decide) hnested hoperand hword
  rw [passToBody_eq]
  refine (skipWhile_carries
    (N := fun d d' => X.Near d d' ∧ braceFollows [] d.ahead = true ∧ d.left ≤ c.left)
    (E := fun d d' => X.Near d d' ∧ d.left ≤ c.left) h (fun d d' ⟨hd, hbrace, hle⟩ => ?_)
    ⟨h, hfollows, Nat.le_refl _⟩).bind fun _ d d' ⟨hd, hle⟩ =>
      (passGroup_carries hd).mono fun _ _ _ he => he.past.mono hle
  refine (bodyRound_carries hd hbrace).mono fun more e e' ⟨he, hlee, hmore⟩ => ?_
  cases more with
  | true => exact ⟨he, hmore rfl, Nat.le_trans hlee hle⟩
  | false => exact ⟨he, Nat.le_trans hlee hle⟩

omit hbodied in
theorem callTypeArgs_false (h : g.callTypeArgs c = .ok (false, d)) : d = c := by
  unfold callTypeArgs at h
  split at h
  · split at h
    · split at h <;> cases h
      rfl
    · cases h
      rfl
  · cases h
    rfl

omit hbodied in
/-- An initializer that is skipped ends where it has to. -/
theorem initializerRound_stopped (h : g.initializerRound c = .ok (false, d)) : d.Stopped := by
  let Stops (p : Parser Bool) : Prop := ∀ d, p c = .ok (false, d) → d.Stopped
  have hend {c : Cursor} (hkind : c.kind ∈
      [.endOfFile, .semicolon, .comma, .rightParen, .rightBracket, .rightBrace]) :
      ∀ d, (pure false : Parser Bool) c = .ok (false, d) → d.Stopped := by
    rintro _ ⟨⟩
    exact .inl hkind
  have hgroup : Stops (do passGroup; return true) := by
    intro d h
    obtain ⟨_, _, -, hpure⟩ := bind_eq_ok.1 h
    cases hpure
  have hrest : Stops (do
      if c.atStatementBreak then return false
      Parser.advance
      return true) := by
    intro d h
    by_cases hbreak : c.atStatementBreak = true
    · rw [if_pos hbreak] at h
      cases h
      exact .inr hbreak
    · rw [if_neg hbreak] at h
      cases h
  have hround : Stops g.initializerRound := by
    intro d h
    unfold Grammar.initializerRound at h
    obtain ⟨_, _, hlook, h⟩ := bind_eq_ok.1 h
    cases hlook
    refine (?_ : Stops _) d h
    split
    iterate 6
      next hkind => exact hend (by rw [hkind]; decide)
    iterate 3
      exact hgroup
    intro d h
    by_cases hless : (c.kind == .less) = true
    · have h : (do
          if ← g.callTypeArgs then return true
          if c.atStatementBreak then return false
          Parser.advance
          return true : Parser Bool) c = .ok (false, d) :=
        (congrFun (if_pos hless).symm c).trans h
      obtain ⟨taken, e, hargs, h⟩ := bind_eq_ok.1 h
      cases taken with
      | true => cases h
      | false =>
          obtain rfl := callTypeArgs_false hargs
          exact hrest d h
    · exact hrest d ((congrFun (if_neg hless).symm c).trans h)
  exact hround d h

omit hbodied in
/-- The last round of a loop says no. -/
theorem skipWhile_last {step : Parser Bool} {u : Unit} (h : skipWhile step c = .ok (u, d)) :
    ∃ e, step e = .ok (false, d) := by
  have hrounds : ∀ rounds c u, iterateWithin
      (fun _ : Unit => do return if ← step then some () else none) rounds () c = .ok (u, d) →
      ∃ e, step e = .ok (false, d) := by
    intro rounds
    induction rounds with
    | zero => exact fun c u h => by cases h
    | succ rounds ih =>
        intro c u h
        obtain ⟨o, e, hround, hrest⟩ := bind_eq_ok.1 h
        obtain ⟨more, e', hstep, hpure⟩ := bind_eq_ok.1 hround
        cases hpure
        cases more with
        | true => exact ih _ _ hrest
        | false =>
            cases hrest
            exact ⟨c, hstep⟩
  exact hrounds _ _ _ h

omit hbodied in
theorem passInitializer_stopped {u : Unit} (h : g.passInitializer c = .ok (u, d)) : d.Stopped := by
  obtain ⟨e, he⟩ := skipWhile_last h
  exact initializerRound_stopped he

/-- What is kept as text up to the end of an initializer that is skipped. -/
def Skips (a : Expr) (d : Cursor) : Prop := (∃ text, a = .verbatim text) ∧ d.Stopped

omit hbodied in
theorem skips_of_passInitializer {a : Expr}
    (h : (do g.passInitializer; return Expr.verbatim (← textSince s)) c = .ok (a, d)) :
    Skips a d := by
  obtain ⟨_, e, hskip, h⟩ := bind_eq_ok.1 h
  cases h
  exact ⟨⟨_, rfl⟩, passInitializer_stopped hskip⟩

omit hbodied in
theorem annotation_carries (hg : X.Kin n g g') (h : X.Near c c') (hn : c.left ≤ n) :
    Carries (after .colon g.type) (after .colon g'.type) c c' fun _ d d' =>
      X.Near d d' ∧ d.left ≤ c.left := by
  refine .takeKind (h.check_eq rfl) (fun hcolon => ?_) fun _ => .pure ⟨h, Nat.le_refl _⟩
  have hnext := h.takes hcolon rfl
  have hleft := hnext.left
  refine (hg.type hnext.near (hnext.starts_kind hcolon rfl) (by omega)).map fun _ d d' hd => ?_
  have hlt := hd.left
  exact ⟨hd.near, by omega⟩

omit hbodied in
/-- The body of an arrow is a group in braces, or it is skipped. -/
theorem passArrowBody_carries (hg : X.Kin n g g') (h : X.Near c c') (hn : c.left ≤ n) :
    CarriesOr (fun _ d => d.Stopped) g.passArrowBody g'.passArrowBody c c' fun _ =>
        X.Past c.left := by
  refine .bind_carries (annotation_carries hg h hn) fun _ d d' ⟨hd, hle⟩ => ?_
  have harrow : Carries (Parser.require .arrow "`=>`") (Parser.require .arrow "`=>`") d d'
      fun _ e e' => X.Near e e' ∧ e.left ≤ c.left := by
    refine .takeKind (hd.check_eq rfl) (fun harrow => .pure ?_) fun _ => .fail
    have hnext := hd.takes harrow rfl
    have hleft := hnext.left
    exact ⟨hnext.near, by omega⟩
  refine .bind_carries harrow fun _ e e' ⟨he, hlee⟩ => .look (.cond (he.check_eq rfl) (fun _ => ?_)
    fun _ u z hrun => .inl (passInitializer_stopped hrun))
  exact .of ((passGroup_carries he).mono fun _ _ _ hz => hz.past.mono hlee)

omit hbodied in
/-- What ends in the body of an arrow and is kept as text. -/
theorem arrowBody_carries (hg : X.Kin n g g') (hs : X.Near s s') (h : X.Near c c')
    (hn : c.left ≤ n) :
    CarriesOr Skips (do g.passArrowBody; return Expr.verbatim (← textSince s))
      (do g'.passArrowBody; return Expr.verbatim (← textSince s')) c c' fun _ => X.Past c.left := by
  refine (passArrowBody_carries hg h hn).bind (fun _ d a e hstopped hpure => ?_) fun _ d d' hd =>
    .of (.textSince _ hs hd.near fun _ => hd)
  cases hpure
  exact ⟨⟨_, rfl⟩, hstopped⟩

theorem wordExpr_carries (hasync : X.Synchronous) (hg : X.Kin n g g') (h : X.Near c c')
    (hoperand : c.Operand []) (hkind : c.kind = .word) (hn : c.left ≤ n) :
    CarriesOr Skips g.wordExpr g'.wordExpr c c' fun _ => X.Past c.left := by
  have hne := h.stands (by rw [hkind]; decide)
  have hnext := h.next_word hkind
  have hleft := hnext.left
  have hpast := hnext.past (by rw [hkind]; rfl)
  refine .look <| .cond (h.seesAnyWord_eq hne _) (fun _ => ?_) fun _ => ?_
  · rw [← h.seesWord_eq hne]
    exact .advance (.of (.pure hpast))
  refine .cond (h.seesWord_eq hne _) (fun _ => .advance (.of (.pure hpast))) fun _ => ?_
  refine .cond (h.seesWord_eq hne _) (fun _ => ?_) fun _ => ?_
  · exact .advance (.of ((construction_carries hbodied hg hnext.near (by omega)).mono
      fun _ _ _ hd => hd.mono (by omega)))
  refine .cond (h.seesAnyWord_eq hne _) (fun hbody => ?_) fun _ => ?_
  · exact .of ((passToBody_carries hbodied h hoperand hbody).bind fun _ d d' hd =>
      .textSince _ h hd.near fun _ => hd)
  refine .cond (hnext.kindAhead_eq rfl) (fun _ => ?_) fun _ => ?_
  · exact .advance ((arrowBody_carries hg h hnext.near (by omega)).mono
      fun _ _ _ hd => hd.mono (by omega))
  refine .cond_stops (fun a d hrun => skips_of_passInitializer (g := g) (s := c) hrun)
    (fun hno => ?_) ?_
  · rw [← h.seesWord_eq hne]
    by_cases hsees : c.seesWord "async" = true
    · rw [hsees, Bool.true_and, Bool.or_eq_false_iff] at hno ⊢
      refine ⟨(hnext.kindAhead_eq rfl).symm.trans hno.1,
        (hnext.word_ahead_eq fun hend hword => ?_).symm.trans hno.2⟩
      obtain ⟨hlast, hbefore⟩ := h.last hne hend
      have hsync := hasync hword _ hlast hsees
      rw [hbefore] at hsync
      have hleads : c.before.any (·.kind.leads none) = true := hoperand
      rw [hsync] at hleads
      cases hleads
    · rw [Bool.eq_false_iff.2 hsees]
      rfl
  · exact .of ((Carries.takeText h (by rw [hkind]; rfl) (by rw [hkind]; rfl)).bind fun _ _ _ hd =>
      .pure hd.past)

theorem primaryExpr_carries (hasync : X.Synchronous) (hg : X.Kin n g g') (h : X.Near c c')
    (hoperand : c.Operand []) (hn : c.left ≤ n) :
    CarriesOr Skips g.primaryExpr g'.primaryExpr c c' fun _ => X.Past c.left := by
  intro a d hrun
  obtain ⟨hne, harrow⟩ :=
    h.consumed (primaryExpr_agrees (hg.self _) h.brackets ⟨hbodied, hoperand⟩ hn) hrun
  suffices hall : CarriesOr Skips g.primaryExpr g'.primaryExpr c c' fun _ => X.Past c.left from
    hall a d hrun
  have htakes {kind : Token.Kind} (hkind : c.kind = kind) (hplain : kind.isPlain = true)
      (hends : Token.endKinds.contains kind = true) :
      c.kind.isPlain = true ∧ Token.endKinds.contains c.kind = true := hkind ▸ ⟨hplain, hends⟩
  refine .look ?_
  rw [← h.kind_eq hne, ← h.text_eq hne]
  split
  next hkind =>
    obtain ⟨hplain, hends⟩ := htakes hkind rfl rfl
    exact .of ((Carries.takeString h hplain hends).bind fun _ _ _ hd => .pure hd.past)
  next hkind =>
    obtain ⟨hplain, hends⟩ := htakes hkind rfl rfl
    exact .of ((Carries.takeText h hplain hends).bind fun _ _ _ hd => .pure hd.past)
  next hkind =>
    obtain ⟨hplain, hends⟩ := htakes hkind rfl rfl
    exact .of ((Carries.takeString h hplain hends).bind fun _ _ _ hd => .pure hd.past)
  next => exact .of (objectLiteral_carries hbodied hg h hn)
  next hbracket =>
    have hopens : c.kind.closing? = some .rightBracket := by rw [hbracket]; rfl
    have hleads : c.kind.leads (some .rightBracket) = true := by rw [hbracket]; rfl
    exact .advance (.of (.inside (exprList_readsInside hg.self hleads rfl)
      (exprList_readsInside hg.pair hleads rfl) (fun _ => hbodied) h hopens hn
      fun _ _ _ hd => .pure hd.past))
  next hparen =>
    refine .cond harrow (fun _ => ?_) fun _ => ?_
    · refine .bind_carries (passGroup_carries h) fun _ d d' hd => ?_
      have hlt := hd.left
      exact (arrowBody_carries hg h hd.near (by omega)).mono fun _ _ _ he => he.mono (by omega)
    · have hopens : c.kind.closing? = some .rightParen := by rw [hparen]; rfl
      have hleads : c.kind.leads (some .rightParen) = true := by rw [hparen]; rfl
      exact .advance
        (.of (.inside (expr_readsInside hg.self hleads) (expr_readsInside hg.pair hleads)
        (fun _ => hbodied) h hopens hn fun _ _ _ hd => .pure hd.past))
  next hword => exact wordExpr_carries hbodied hasync hg h hoperand hword hn
  iterate 6
    exact .of .fail
  next => exact .advance fun a d hrun => .inl (skips_of_passInitializer (g := g) (s := c) hrun)

theorem exprSuffix_carries (hg : X.Kin n g g') (hs : X.Near s s') (h : X.Past m c c')
    (hn : c.left ≤ n) (expr : Expr) :
    Carries (g.exprSuffix s expr) (g'.exprSuffix s' expr) c c' (X.Grows c c') := by
  have hnone : Carries (pure none : Parser (Option Expr)) (pure none) c c' (X.Grows c c') :=
    .pure ⟨rfl, rfl⟩
  refine .look ?_
  by_cases hend : c.ahead = []
  · -- neither the end of the file nor what follows the text goes on with an operand
    obtain ⟨passed, halong, -⟩ := h.near
    obtain ⟨hfile, hnext⟩ := halong.kind_end hend
    have hkind : c'.kind = X.next.kind := congrArg Token.kind hnext
    have hfollows := X.next_kind
    rw [hfile, hkind]
    revert hfollows
    cases X.next.kind <;> first | exact fun _ => hnone | (intro hfollows; cases hfollows)
  have hnewline : c.newlineBefore = c'.newlineBefore :=
    congrArg Token.newlineBefore (h.near.token_eq hend)
  have htakes {kind : Token.Kind} (hkind : c.kind = kind) (hplain : kind.isPlain = true) :
      X.Next c c' := h.near.takes hkind hplain
  have hkept : ∀ d d', X.Past c.left d d' → Carries (do return some (Expr.verbatim (← textSince s)))
      (do return some (Expr.verbatim (← textSince s'))) d d' (X.Grows c c') :=
    fun _ _ hd => .textSince (fun text => some (Expr.verbatim text)) hs hd.near fun _ => hd
  rw [← h.near.kind_eq hend, ← hnewline]
  split
  next hdot =>
    have hnext := htakes hdot rfl
    have hleft := hnext.left
    exact .advance ((Carries.word hnext.near).bind fun _ _ _ hd => .pure (hd.past.mono (by omega)))
  next hquestion =>
    have hnext := htakes hquestion rfl
    have hleft := hnext.left
    have hahead : (c.kindAhead 1 != .dot) = (c'.kindAhead 1 != .dot) :=
      congrArg not (hnext.kindAhead_eq rfl)
    refine .cond hahead (fun _ => hnone) fun hdot => ?_
    have hdot : c.advance.kind = .dot := by
      rw [Cursor.kindAhead_succ] at hdot
      simpa [Cursor.kind] using hdot
    have hpast := hnext.near.takes hdot rfl
    have hleft' := hpast.left
    refine .advance (.advance (.look (.cond
      (or_eq_or (hpast.near.check_eq rfl) (hpast.near.check_eq rfl)) (fun _ => ?_) fun _ => ?_)))
    · exact (passGroup_carries hpast.near).bind
        fun _ d d' hd => hkept d d' (hd.past.mono (by omega))
    · exact (Carries.word hpast.near).bind fun _ d d' hd => hkept d d' (hd.past.mono (by omega))
  next =>
    exact (arguments_carries hbodied hg h.near hn).bind fun _ _ _ hd => .pure hd
  next =>
    exact .cond rfl (fun _ => hnone) fun _ =>
      (passGroup_carries h.near).bind fun _ d d' hd => hkept d d' hd.past
  next hbang =>
    have hnext := htakes hbang rfl
    exact .cond (or_eq_or rfl (hnext.kindAhead_eq rfl)) (fun _ => hnone) fun _ =>
      .advance (.pure (hnext.past (by rw [hbang]; rfl)))
  next htemplate =>
    have hnext := htakes htemplate rfl
    exact .cond rfl (fun _ => hnone) fun _ =>
      .advance (hkept _ _ (hnext.past (by rw [htemplate]; rfl)))
  next => exact hnone

omit hbodied in
/-- Nothing follows an operand where a skipped initializer ends. -/
theorem exprSuffix_stopped (h : c.Stopped) (expr : Expr) :
    g.exprSuffix s expr c = .ok (none, c) := by
  have hends : c.kind ∉ [.dot, .question, .leftParen, .leftBracket, .bang, .template] := by
    obtain hend | hbreak := h
    · revert hend
      generalize c.kind = kind
      cases kind <;> decide
    · rw [Cursor.atStatementBreak, Bool.and_eq_true, Bool.and_eq_true, Bool.or_eq_true] at hbreak
      obtain hword | hat := hbreak.1.2
      · rw [Cursor.kind_of_check hword]
        decide
      · rw [Cursor.kind_of_check hat]
        decide
  refine bind_eq_ok.2 ⟨c, c, rfl, ?_⟩
  revert hends
  generalize c.kind = kind
  cases kind <;> intro hends <;> first | rfl | exact absurd (by decide) hends

theorem operandExpr_carries (hasync : X.Synchronous) (hg : X.Kin n g g') (h : X.Near c c')
    (hoperand : c.Operand []) (hn : c.left ≤ n) :
    CarriesOr Skips g.operandExpr g'.operandExpr c c' fun _ => X.Past c.left := by
  refine .look <| (primaryExpr_carries hbodied hasync hg h hoperand hn).bind
    (fun expr d b e ⟨hskip, hstop⟩ hrun => ?_) fun expr d d' hd => ?_
  · obtain ⟨o, d', hsuffix, hrun⟩ := bind_eq_ok.1 hrun
    rw [exprSuffix_stopped hstop] at hsuffix
    cases hsuffix
    cases hrun
    exact ⟨hskip, hstop⟩
  · have hlt := hd.left
    exact .of (hd.iterate (fun callee e e' he hle =>
      exprSuffix_carries hbodied hg h he (by omega) callee) expr)

omit hbodied in
theorem takeKind_carries (hcheck : c.check kind = c'.check kind) :
    Carries (takeKind kind) (takeKind kind) c c' fun taken d d' =>
      if taken then c.kind = kind ∧ d = c.advance ∧ d' = c'.advance else d = c ∧ d' = c' := by
  have h : Carries (takeKind kind >>= pure) (takeKind kind >>= pure) c c' fun taken d d' =>
      if taken then c.kind = kind ∧ d = c.advance ∧ d' = c'.advance else d = c ∧ d' = c' :=
    .takeKind hcheck (fun hkind => .pure ⟨hkind, rfl, rfl⟩) fun _ => .pure ⟨rfl, rfl⟩
  rwa [bind_pure] at h

/-- What signs stand in front of. -/
theorem unaryRule_carries (hasync : X.Synchronous) (hg : X.ExprKin n g g') (h : X.Near c c')
    (hoperand : c.Operand []) (hn : c.left ≤ n) :
    CarriesOr (fun a _ => ¬ a.Structured) g.unaryRule g'.unaryRule c c' fun _ => X.Past c.left := by
  have hskips {d d' : Cursor} (hd : X.Near d d') (hoperand : d.Operand []) (hle : d.left ≤ c.left) :
      CarriesOr (fun a _ => ¬ a.Structured) g.operandExpr g'.operandExpr d d'
        fun _ => X.Past c.left := by
    intro a e hrun
    obtain ⟨⟨text, rfl⟩, -⟩ | ⟨e', hrun', he⟩ :=
      operandExpr_carries hbodied hasync hg.toKin hd hoperand (by omega) a e hrun
    · exact .inl id
    · exact .inr ⟨e', hrun', he.mono hle⟩
  have hsigned {kind : Token.Kind} (hnext : X.Next c c') (hkind : c.kind = kind)
      (hleads : kind.leads none = true) : c.advance.Operand [] := by
    subst hkind
    rw [Cursor.Operand, hnext.before]
    exact hleads
  refine .bind_carries (takeKind_carries (h.check_eq rfl)) fun taken d d' hd => ?_
  cases taken with
  | true =>
      obtain ⟨hminus, rfl, rfl⟩ := hd
      have hnext := h.takes hminus rfl
      have hleft := hnext.left
      intro a e hrun
      obtain ⟨inner, z, hunary, hpure⟩ := bind_eq_ok.1 hrun
      cases hpure
      by_cases hstructured : inner.Structured
      · obtain ⟨e', hunary', he⟩ :=
          hg.unary hnext.near (hsigned hnext hminus rfl) (by omega) inner e
          hstructured hunary
        exact .inr ⟨e', bind_eq_ok.2 ⟨inner, e', hunary', rfl⟩, he.mono (by omega)⟩
      · exact .inl hstructured
  | false =>
      obtain ⟨rfl, rfl⟩ := hd
      have hplus : (d.check .plus && d.kindAhead 1 == .number) =
          (d'.check .plus && d'.kindAhead 1 == .number) :=
        and_eq_and (h.check_eq rfl) fun hplus =>
          (h.takes (Cursor.kind_of_check hplus) rfl).kindAhead_eq rfl
      refine .look
        (.cond hplus (fun hyes => .advance ?_) fun _ => hskips h hoperand (Nat.le_refl _))
      have hkind := Cursor.kind_of_check (Bool.and_eq_true_iff.1 hyes).1
      have hnext := h.takes hkind rfl
      have hleft := hnext.left
      exact hskips hnext.near (hsigned hnext hkind rfl) (by omega)

/-- With enough levels an operand is read alike in front of what does not go on with it. -/
theorem withLevels_exprCarries (hasync : X.Synchronous) {levels levels' : Nat} (hn : n ≤ levels)
    (hn' : n ≤ levels') : X.ExprKin n (withLevels levels) (withLevels levels') := by
  induction n generalizing levels levels' with
  | zero => exact ⟨withLevels_carries hn hn', fun _ _ h => absurd h (Nat.not_lt_zero _)⟩
  | succ n ih =>
      obtain ⟨levels, rfl⟩ := Nat.exists_eq_add_one_of_ne_zero (Nat.ne_zero_of_lt hn)
      obtain ⟨levels', rfl⟩ := Nat.exists_eq_add_one_of_ne_zero (Nat.ne_zero_of_lt hn')
      have hkin := ih (Nat.le_of_succ_le_succ hn) (Nat.le_of_succ_le_succ hn')
      exact ⟨withLevels_carries hn hn', fun h hoperand hlt a d hstructured hrun =>
        (unaryRule_carries hbodied hasync hkin h hoperand
          (Nat.le_of_lt_succ hlt) a d hrun).resolve_left
          (absurd hstructured)⟩

omit hbodied in
/-- A cast in the text. -/
theorem castRound_carries (hg : X.Kin n g g') (h : X.Past m c c') (hne : c.ahead ≠ [])
    (hn : c.left ≤ n) :
    Carries g.castRound g'.castRound c c' fun more d d' =>
      if more then X.Past c.left d d' else d = c ∧ d' = c' := by
  have hcasts : (c.seesAnyWord ["as", "satisfies"] && !c.newlineBefore) =
      (c'.seesAnyWord ["as", "satisfies"] && !c'.newlineBefore) := by
    rw [h.near.seesAnyWord_eq hne, Cursor.newlineBefore, Cursor.newlineBefore, h.near.token_eq hne]
  refine .look (.cond hcasts (fun hyes => .advance ?_) fun _ => .pure ⟨rfl, rfl⟩)
  have hword := (Bool.and_eq_true_iff.1 hyes).1
  have hnext := h.near.next_word (Cursor.kind_of_seesAnyWord hword)
  have hleft := hnext.left
  have hstarts : X.Starts c.advance := by
    obtain ⟨word, hmem, hsees⟩ := List.any_eq_true.1 hword
    have hleads : ∀ word ∈ ["as", "satisfies"], ["extends", "is", "as", "satisfies", "keyof",
        "unique", "readonly"].contains word = true := by decide
    exact hnext.starts_word hsees (hleads word hmem)
  have htype : Carries (do let _ ← g.type; return true) (do let _ ← g'.type; return true)
      c.advance c'.advance fun more d d' =>
        if more then X.Past c.left d d' else d = c ∧ d' = c' :=
    (hg.type hnext.near hstarts (by omega)).bind fun _ _ _ hd => .pure (hd.past.mono (by omega))
  by_cases hend : c.advance.ahead = []
  · -- the word that a cast starts with is not the last one of the text
    have hfile := hnext.near.file_iff.2 hend
    refine .vacuous fun more d hrun => ?_
    have hconst : c.advance.seesWord "const" = false := by
      rw [Cursor.isWord_token, hfile]
      rfl
    have htaken : takeWord "const" c.advance = .ok (false, c.advance) := if_neg (by simp [hconst])
    obtain ⟨_, _, htake, hrun⟩ := bind_eq_ok.1 hrun
    rw [htaken] at htake
    cases htake
    obtain ⟨_, e, htype, -⟩ := bind_eq_ok.1 hrun
    exact (hnext.near.consumed
      ((hg.self _).type hnext.near.brackets trivial (by omega)) htype).1 hend
  · refine .takeWord (hnext.near.seesWord_eq hend _) (fun hconst => .pure ?_) fun _ => htype
    have hlast := hnext.near.next_word (Cursor.kind_of_seesWord hconst)
    have hleft' := hlast.left
    exact (hlast.past (by rw [Cursor.kind_of_seesWord hconst]; rfl)).mono (by omega)

/-- A loop over casts. -/
def castLoop (g : Grammar) (rounds : Nat) : Parser Unit :=
  iterateWithin (fun _ => do return if ← g.castRound then some () else none) rounds ()

omit hbodied in
omit hbodied in
theorem castLoop_of_round {more : Bool} {rounds : Nat} {u : Unit}
    (h : g.castRound c = .ok (more, d))
    (hrest : if more then g.castLoop rounds d = .ok (u, e) else d = e) :
    g.castLoop (rounds + 1) c = .ok (u, e) := by
  refine bind_eq_ok.2 ⟨if more then some () else none, d, bind_eq_ok.2 ⟨more, d, h, rfl⟩, ?_⟩
  cases more with
  | true => exact hrest
  | false => exact congrArg (fun d => Except.ok (u, d)) hrest

omit hbodied in
/-- Where the first run has read all casts of the text, the second run goes on with what follows. -/
theorem castLoop_carries (hg : X.Kin n g g') {rounds rounds' : Nat} (h : X.Past m c c')
    (hn : c.left ≤ n) (hrounds : c'.left < rounds') (hend : d.kind = .endOfFile)
    (hrun : g.castLoop rounds c = .ok ((), d)) :
    ∃ d', X.Past m d d' ∧ ∀ e, (∀ more, d'.left < more → g'.castLoop more d' = .ok ((), e)) →
      g'.castLoop rounds' c' = .ok ((), e) := by
  induction rounds generalizing c c' m rounds' with
  | zero => cases hrun
  | succ rounds ih =>
      obtain ⟨o, z, hround, hrest⟩ := bind_eq_ok.1 hrun
      obtain ⟨more, z, hcast, hpure⟩ := bind_eq_ok.1 hround
      cases hpure
      by_cases hne : c.ahead = []
      · have hstays : g.castRound c = .ok (false, c) := by
          have hwords : c.seesAnyWord ["as", "satisfies"] = false := by
            simp [Cursor.seesAnyWord, Cursor.isWord_token, h.near.file_iff.2 hne]
          exact bind_eq_ok.2 ⟨c, c, rfl, congrFun (if_neg (by simp [hwords])) c⟩
        rw [hstays] at hcast
        cases hcast
        cases hrest
        exact ⟨c', h, fun e hlast => hlast _ hrounds⟩
      · obtain ⟨z', hcast', hz⟩ := castRound_carries hg h hne hn more z hcast
        cases more with
        | false =>
            cases hrest
            exact absurd (h.near.file_iff.1 (hz.1 ▸ hend)) hne
        | true =>
            have hz : X.Past c.left z z' := hz
            have hlt := hz.left
            have hleft := h.near.left_eq
            have hleft' := hz.near.left_eq
            obtain ⟨rounds', rfl⟩ := Nat.exists_eq_add_one_of_ne_zero (Nat.ne_zero_of_lt hrounds)
            obtain ⟨d', hd, hlast⟩ :=
              ih hz (by omega) (show z'.left < rounds' by omega) hrest
            exact ⟨d', hd.mono (Nat.le_of_lt h.left), fun e he =>
              castLoop_of_round hcast' (hlast e he)⟩

/-- Where an expression and its casts end the text, the second run reads the same expression with
the casts that follow the text. -/
theorem exprRule_carries (hasync : X.Synchronous) (hg : X.ExprKin n g g') (h : X.Near c c')
    (hoperand : c.Operand []) (hn : c.left ≤ n) {a : Expr} (hstructured : a.Structured)
    (hend : d.kind = .endOfFile) (hrun : g.exprRule c = .ok (a, d)) :
    ∃ d', X.Past c.left d d' ∧ ∀ e, (∀ more, d'.left < more → g'.castLoop more d' = .ok ((), e)) →
      atExprEnd e = true → g'.exprRule c' = .ok (a, e) := by
  obtain ⟨_, _, hlook, hrun⟩ := bind_eq_ok.1 hrun
  cases hlook
  obtain ⟨expr, u, hunary, hrun⟩ := bind_eq_ok.1 hrun
  obtain ⟨_, v, hcasts, hrun⟩ := bind_eq_ok.1 hrun
  obtain ⟨_, _, hlook, hrun⟩ := bind_eq_ok.1 hrun
  cases hlook
  split at hrun
  · cases hrun
    obtain ⟨u', hunary', hu⟩ := (unaryRule_carries hbodied hasync hg h hoperand hn a u
      hunary).resolve_left (absurd hstructured)
    have hlt := hu.left
    obtain ⟨d', hd, hlast⟩ :=
      castLoop_carries hg.toKin hu (by omega) (Nat.lt_succ_self u'.left) hend
      hcasts
    exact ⟨d', hd, fun e he hexprEnd => bind_eq_ok.2 ⟨c', c', rfl, bind_eq_ok.2 ⟨a, u', hunary',
      bind_eq_ok.2 ⟨(), e, hlast e he, bind_eq_ok.2 ⟨e, e, rfl,
        congrFun (if_pos hexprEnd) e⟩⟩⟩⟩⟩
  · obtain ⟨_, _, -, hrun⟩ := bind_eq_ok.1 hrun
    cases hrun
    exact hstructured.elim

end Grammar

end HandlerWeave.Source
