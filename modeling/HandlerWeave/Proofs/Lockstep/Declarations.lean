import HandlerWeave.Proofs.Lockstep.Expressions

/-!
Paired runs of the parts of declarations, and of the statements that hold no braces of their own.
-/
namespace HandlerWeave.Source

open Source.Parser Pairing

variable {P : Pairing} {α β : Type} {n m : Nat} {g g' : Grammar} {σ τ : List Token.Kind}
  {c c' d d' s s' : Cursor}

namespace Pairing

/-- Both runs of a statement have ended, with fewer than `m` tokens ahead. -/
structure Done (P : Pairing) (m : Nat) (a a' : α) (d d' : Cursor) : Prop where
  ended : P.ended d d'
  left : d.left < m
  eq : P.horizon ≤ d.left → a = a'

theorem Kept.done {a a' : α} (h : P.Kept [] m a a' d d') : P.Done m a a' d d' :=
  ⟨P.ended_of_near h.near, h.left, h.eq⟩

theorem Done.mono {a a' : α} (h : P.Done m a a' d d') (hm : m ≤ n) : P.Done n a a' d d' :=
  ⟨h.ended, Nat.lt_of_lt_of_le h.left hm, h.eq⟩

end Pairing

/-- A semicolon may end a statement. -/
theorem semicolon_done (h : P.near [] c c') {a a' : α} (heq : P.horizon ≤ c.left → a = a')
    (hm : c.left < m) :
    Agree P.faults (do let _ ← takeKind .semicolon; return a)
      (do let _ ← takeKind .semicolon; return a') c c' (P.Done m) := by
  have hle := c.advance_left_le
  exact .byKind h
    (fun hkind => .pure ⟨P.last h hkind, by omega, fun hfar => heq (by omega)⟩)
    fun _ => .pure ⟨P.ended_of_near h, hm, heq⟩

namespace Grammar

theorem atStaticBlock_eq (h : P.near σ c c') : atStaticBlock c = atStaticBlock c' :=
  word_ahead_eq h _ (· == .leftBrace)

theorem heritage_agrees (hg : P.Kin n g g') (h : P.near σ c c') (hn : c.left ≤ n) :
    Agree P.faults g.heritage g'.heritage c c' (P.Kept σ c.left) := by
  refine (qualifiedName_agrees h).bind fun name name' d d' ⟨hd, hltd, hname⟩ => ?_
  refine (typeArgsIfAny_agrees hg hd (by omega)).bind fun args args' e e' ⟨he, hlee, hargs⟩ => ?_
  have heq : P.horizon ≤ e.left → (⟨name, args⟩ : Heritage) = ⟨name', args'⟩ := fun hfar => by
    rw [hname (by omega), hargs hfar]
  refine .look <| .cond (check_eq he _) (fun _ => ?_) fun _ => .pure ⟨he, by omega, heq⟩
  exact (passGroup_agrees he).bind fun _ _ _ _ ⟨hz, hlt, _⟩ =>
    .pure ⟨hz, by omega, fun hfar => heq (by omega)⟩

theorem heritageAfter_agrees (hg : P.Kin n g g') (h : P.near σ c c') (hn : c.left ≤ n)
    (keyword : String) :
    Agree P.faults (g.heritageAfter keyword) (g'.heritageAfter keyword) c c'
      (P.Kept σ (c.left + 1)) := by
  refine .takeWord h (fun _ ⟨hnext, hlt, _⟩ => ?_) fun _ => .pure ⟨h, by omega, fun _ => rfl⟩
  exact (separated_agrees (I := fun _ => True) rfl hnext trivial (fun _ _ _ _ => trivial)
    fun d d' hd _ hle => heritage_agrees hg hd (by omega)).mono fun _ _ _ _ he => he.mono (by omega)

theorem memberWordRound_agrees (h : P.near σ c c') {isStatic isStatic' : Bool}
    (hstatic : P.horizon ≤ c.left → isStatic = isStatic') :
    Agree P.faults (memberWordRound isStatic) (memberWordRound isStatic') c c'
      (P.Found σ c.left) := by
  have hstep : (c.seesAnyWord memberWords && !atStaticBlock c && c.nameStartsAt 1) =
      (c'.seesAnyWord memberWords && !atStaticBlock c' && c'.nameStartsAt 1) := by
    rw [Bool.and_assoc, Bool.and_assoc, atStaticBlock_eq h]
    refine and_eq_and (seesAnyWord_eq h _) fun hwords => ?_
    rw [(next_word h (Cursor.kind_of_seesAnyWord hwords)).nameStartsAt_eq]
  refine .look <| .cond hstep (fun hyes => ?_) fun _ => .pure ⟨h, Nat.le_refl _⟩
  rw [Bool.and_assoc] at hyes
  obtain ⟨hnext, hlt, -⟩ :=
    next_word h (Cursor.kind_of_seesAnyWord (Bool.and_eq_true_iff.1 hyes).1)
  exact .advance (.pure ⟨hnext, by omega, fun hfar => by rw [hstatic (by omega), seesWord_eq h]⟩)

theorem passMemberWords_agrees (h : P.near σ c c') :
    Agree P.faults passMemberWords passMemberWords c c' (P.Kept σ (c.left + 1)) := by
  rw [passMemberWords_eq]
  exact iterate_kept h (fun _ => rfl) fun _ _ _ _ hd _ hb => memberWordRound_agrees hd hb

/-- A member behind its name, up to its body, and whether a body may follow. -/
def signatureHead (g : Grammar) (decorators : List Decorator) (isStatic : Bool)
    (kind : MethodForm) (name : String) : Parser (ClassMember × Bool) := do
  let optional ← takeKind .question
  let _ ← takeKind .bang
  let c ← get
  if name == "constructor" && c.check .leftParen then
    let params ← g.params
    return (.constructor params, true)
  if c.check .leftParen || c.check .less then
    let typeParams ← g.typeParams
    let params ← g.params
    let returnType ← after .colon g.returnType
    return (.method ⟨name, kind, isStatic, typeParams, params, returnType, decorators⟩, true)
  let type ← after .colon g.type
  if ← takeKind .equals then g.passInitializer
  let _ ← takeKind .semicolon
  return (.property ⟨name, type, optional, isStatic, decorators⟩, false)

/-- A member up to its body, and whether a body may follow. -/
def memberHead (g : Grammar) : Parser (Option ClassMember × Bool) := do
  if ← takeKind .semicolon then return (none, false)
  let decorators ← g.decorators
  let isStatic ← passMemberWords
  if atStaticBlock (← get) then
    advance
    passGroup
    return (none, false)
  let c ← get
  let accessor := c.seesAnyWord ["get", "set"] && c.nameStartsAt 1
  if accessor then advance
  let kind : MethodForm :=
    if !accessor then .method else if c.seesWord "get" then .getter else .setter
  let _ ← takeKind .star
  if atIndexSignature (← get) then
    let signature ← g.indexSignature
    let _ ← takeKind .semicolon
    return (some (.index signature), false)
  let name ← memberName "class member"
  let head ← g.signatureHead decorators isStatic kind name
  return (some head.1, head.2)

theorem ite_bind {b : Prop} [Decidable b] (p q : Parser α) (f : α → Parser β) :
    (if b then p else q) >>= f = if b then p >>= f else q >>= f := by
  split <;> rfl

theorem classMemberBody_eq (g : Grammar) (decorators : List Decorator) (isStatic : Bool)
    (kind : MethodForm) (name : String) :
    g.classMemberBody decorators isStatic kind name = do
      let head ← g.signatureHead decorators isStatic kind name
      if head.2 then passBody
      return head.1 := by
  simp only [classMemberBody, signatureHead, bind_assoc, pure_bind, ite_bind, if_true,
    Bool.false_eq_true, if_false]

theorem classMember_eq (g : Grammar) : g.classMember = do
    let head ← g.memberHead
    if head.2 then passBody
    return head.1 := by
  simp only [classMember, memberHead, classMemberBody_eq, bind_assoc, pure_bind, ite_bind,
    Bool.false_eq_true, if_false]

theorem signatureHead_agrees (hg : P.Kin n g g') (h : P.near σ c c') (hσ : σ ≠ [])
    (hn : c.left ≤ n) {decorators decorators' : List Decorator} {isStatic isStatic' : Bool}
    (kind : MethodForm) (name : String)
    (hdecorators : P.horizon ≤ c.left → decorators = decorators')
    (hstatic : P.horizon ≤ c.left → isStatic = isStatic') :
    Agree P.faults (g.signatureHead decorators isStatic kind name)
      (g'.signatureHead decorators' isStatic' kind name) c c' fun head head' d d' =>
        P.Kept σ (c.left + 1) head.1 head'.1 d d' ∧ head.2 = head'.2 := by
  refine (takeKind_agrees h rfl).bind fun optional optional' d d' ⟨hd, hled, hoptional⟩ => ?_
  refine (takeKind_agrees hd rfl).bind fun _ _ e e' ⟨he, hlee, _⟩ => .look ?_
  refine .cond (by rw [check_eq he]) (fun _ => ?_) fun _ => ?_
  · exact (params_agrees hg he (by omega)).bind fun params params' z z' ⟨hz, hltz, hparams⟩ =>
      .pure ⟨⟨hz, by omega, fun hfar => by rw [hparams hfar]⟩, rfl⟩
  refine .cond (or_eq_or (check_eq he _) (check_eq he _)) (fun _ => ?_) fun _ => ?_
  · refine (typeParams_agrees hg he (by omega)).bind fun tps tps' z z' ⟨hz, hlez, htps⟩ => ?_
    refine (params_agrees hg hz (by omega)).bind fun params params' u u' ⟨hu, hltu, hparams⟩ => ?_
    refine (after_agrees rfl hu fun hcolon hnext => ?_).bind
      fun type type' v v' ⟨hv, hlev, htype⟩ => ?_
    · have hlt := hnext.left
      exact (returnType_agrees hg hnext.near (hnext.ready hcolon rfl) (by omega)).mono
        fun _ _ _ _ hd => hd.mono (by omega)
    · refine .pure ⟨⟨hv, by omega, fun hfar => ?_⟩, rfl⟩
      rw [htps (by omega), hparams (by omega), htype hfar, hdecorators (by omega),
        hstatic (by omega)]
  · refine (after_agrees rfl he fun hcolon hnext => ?_).bind
      fun type type' z z' ⟨hz, hlez, htype⟩ => ?_
    · have hlt := hnext.left
      exact (hg.type hnext.near (hnext.ready hcolon rfl) (by omega)).mono
        fun _ _ _ _ hd => hd.mono (by omega)
    have hproperty : P.horizon ≤ z.left →
        ClassMember.property ⟨name, type, optional, isStatic, decorators⟩ =
          .property ⟨name, type', optional', isStatic', decorators'⟩ := fun hfar => by
      rw [htype hfar, hoptional, hdecorators (by omega), hstatic (by omega)]
    have hend : ∀ u u', P.near σ u u' → u.left ≤ z.left →
        Agree P.faults (do
          let _ ← takeKind .semicolon
          return (ClassMember.property ⟨name, type, optional, isStatic, decorators⟩, false)) (do
          let _ ← takeKind .semicolon
          return (ClassMember.property ⟨name, type', optional', isStatic', decorators'⟩, false))
        u u'
          fun head head' v v' => P.Kept σ (c.left + 1) head.1 head'.1 v v' ∧ head.2 = head'.2 :=
      fun u u' hu hleu => .takeKind hu (takes_semicolon hu hσ)
        (fun _ ⟨hv, hltv, _⟩ => .pure ⟨⟨hv, by omega, fun hfar => hproperty (by omega)⟩, rfl⟩)
        fun _ => .pure ⟨⟨hu, by omega, fun hfar => hproperty (by omega)⟩, rfl⟩
    refine .takeKind hz (takes_plain hz rfl) (fun _ ⟨hu, hltu, _⟩ => ?_)
      fun _ => hend _ _ hz (Nat.le_refl _)
    exact (passInitializer_agrees hg hu (by omega)).bind fun _ _ v v' ⟨hv, hlev, _⟩ =>
      hend _ _ hv (by omega)

theorem memberHead_agrees (hg : P.Kin n g g') (h : P.near σ c c') (hσ : σ ≠ [])
    (hn : c.left ≤ n) :
    Agree P.faults g.memberHead g'.memberHead c c' fun head head' d d' =>
      P.Kept σ c.left head.1 head'.1 d d' ∧ head.2 = head'.2 := by
  refine .takeKind h (takes_semicolon h hσ)
    (fun _ ⟨hc, hltc, _⟩ => .pure ⟨⟨hc, by omega, fun _ => rfl⟩, rfl⟩) fun _ => .otherwise ?_
  refine (decorators_agrees hg h hn).bind fun decs decs' d d' ⟨hd, hled, hdecs⟩ => ?_
  refine (passMemberWords_agrees hd).bind fun st st' e e' ⟨he, hlee, hst⟩ => .look ?_
  refine .cond (atStaticBlock_eq he) (fun hyes => ?_) fun _ => .look ?_
  · obtain ⟨hnext, hlt, -⟩ :=
      next_word he (Cursor.kind_of_seesWord (Bool.and_eq_true_iff.1 hyes).1)
    exact .advance <| (passGroup_agrees hnext).bind fun _ _ _ _ ⟨hz, hltz, _⟩ =>
      .pure ⟨⟨hz, by omega, fun _ => rfl⟩, rfl⟩
  extract_lets accessor form named accessor' form' named'
  have haccessor : accessor = accessor' :=
    words_ahead_eq he _ [.word, .string, .number, .leftBracket, .star].contains
  have hnamed : ∀ z z', P.near σ z z' → z.left ≤ e.left →
      Agree P.faults (named ()) (named' ()) z z' fun head head' w w' =>
        P.Kept σ c.left head.1 head'.1 w w' ∧ head.2 = head'.2 := by
    intro z z' hz hlez
    have hform : form = form' := by simp only [form, form', haccessor, seesWord_eq he]
    refine (takeKind_agrees hz rfl).bind fun _ _ u u' ⟨hu, hleu, _⟩ => .look ?_
    refine .cond (atIndexSignature_eq hu) (fun _ => ?_) fun _ => ?_
    · refine (indexSignature_agrees hg hu (by omega)).bind fun sig sig' v v' ⟨hv, hltv, hsig⟩ => ?_
      exact .takeKind hv (takes_semicolon hv hσ)
        (fun _ ⟨hw, hltw, _⟩ =>
          .pure ⟨⟨hw, by omega, fun hfar => by rw [hsig (by omega)]⟩, rfl⟩)
        fun _ => .pure ⟨⟨hv, by omega, fun hfar => by rw [hsig hfar]⟩, rfl⟩
    refine (memberName_agrees hu).bind fun name name' v v' ⟨hv, hltv, hname⟩ => ?_
    rw [← hform, ← hname]
    exact (signatureHead_agrees hg hv hσ (by omega) _ _ (fun hfar => hdecs (by omega))
      fun hfar => hst (by omega)).bind fun _ _ w w' ⟨⟨hw, hlew, heq⟩, hbody⟩ =>
        .pure ⟨⟨hw, by omega, fun hfar => by rw [heq hfar]⟩, hbody⟩
  refine .cond haccessor (fun hyes => ?_) fun _ => hnamed _ _ he (Nat.le_refl _)
  obtain ⟨hnext, hlt, -⟩ :=
    next_word he (Cursor.kind_of_seesAnyWord (Bool.and_eq_true_iff.1 hyes).1)
  exact .advance (hnamed _ _ hnext (by omega))

theorem classMember_agrees (hg : P.Kin n g g') (h : P.near σ c c') (hσ : σ ≠ [])
    (hn : c.left ≤ n) :
    Agree P.faults g.classMember g'.classMember c c' (P.Kept σ c.left) := by
  rw [classMember_eq, classMember_eq]
  refine (memberHead_agrees hg h hσ hn).bind fun head head' d d' ⟨⟨hd, hltd, hmember⟩, hbody⟩ => ?_
  refine .cond hbody (fun _ => ?_) fun _ => .pure ⟨hd, hltd, hmember⟩
  exact (passBody_agrees hd hσ).bind fun _ _ e e' ⟨he, hlee, _⟩ =>
    .pure ⟨he, by omega, fun hfar => hmember (by omega)⟩

theorem enumMember_agrees (hg : P.Kin n g g') (hexprs : P.exprs) (h : P.near σ c c')
    (hn : c.left ≤ n) :
    Agree P.faults g.enumMember g'.enumMember c c' (P.Kept σ c.left) := by
  have hrest : ∀ name name' d d', P.near σ d d' → d.left < c.left → name = name' →
      Agree P.faults (do return (⟨name, ← after .equals g.expr⟩ : EnumMember))
        (do return (⟨name', ← after .equals g'.expr⟩ : EnumMember)) d d' (P.Kept σ c.left) := by
    rintro name _ d d' hd hltd rfl
    refine (after_agrees rfl hd fun hequals hnext => ?_).bind
      fun value value' e e' ⟨he, hlee, hvalue⟩ => ?_
    · have hlt := hnext.left
      exact (hg.expr hnext.near (hnext.operand hexprs hequals rfl) (by omega)).mono
        fun _ _ _ _ hd => hd.mono (by omega)
    · exact .pure ⟨he, by omega, fun hfar => by rw [hvalue hfar]⟩
  refine .look ?_
  rw [← P.kind_eq h]
  split
  next hword =>
    exact (takeText_agrees h (isPlain_of_eq hword rfl)).bind
      fun _ _ _ _ ⟨hd, hltd, hname⟩ => hrest _ _ _ _ hd hltd hname
  next hstring =>
    exact (takeString_agrees h (isPlain_of_eq hstring rfl)).bind
      fun _ _ _ _ ⟨hd, hltd, hname⟩ => hrest _ _ _ _ hd hltd hname
  next => exact .failed h nofun

theorem importSpecifier_agrees (h : P.near σ c c') :
    Agree P.faults importSpecifier importSpecifier c c' (P.Kept σ c.left) := by
  refine .look ?_
  extract_lets named bound specifier named'
  have hspecifier : ∀ d d', P.near σ d d' → d.left ≤ c.left →
      Agree P.faults (specifier ()) (specifier ()) d d' (P.Kept σ c.left) := by
    intro d d' hd hled
    have hrest : ∀ imported imported' e e', P.near σ e e' → e.left < d.left →
        imported = imported' → Agree P.faults (bound imported) (bound imported') e e'
          (P.Kept σ c.left) := by
      rintro imported _ e e' he hlte rfl
      refine .takeWord he (fun _ ⟨hnext, hlt, _⟩ => ?_) fun _ => .pure ⟨he, by omega, fun _ => rfl⟩
      exact (word_agrees hnext).bind fun _ _ _ _ ⟨hz, hltz, hword⟩ =>
        .pure ⟨hz, by omega, fun _ => by rw [hword]⟩
    refine .look ?_
    rw [← P.kind_eq hd]
    split
    next hword =>
      exact (takeText_agrees hd (isPlain_of_eq hword rfl)).bind
        fun _ _ _ _ ⟨he, hlte, hname⟩ => hrest _ _ _ _ he hlte hname
    next hstring =>
      exact (takeString_agrees hd (isPlain_of_eq hstring rfl)).bind
        fun _ _ _ _ ⟨he, hlte, hname⟩ => hrest _ _ _ _ he hlte hname
    next => exact .failed hd nofun
  have htype : (c.seesWord "type" && named && !c.wordAt 1 "as") =
      (c'.seesWord "type" && named' && !c'.wordAt 1 "as") := by
    rw [Bool.and_assoc, Bool.and_assoc]
    refine and_eq_and (seesWord_eq h _) fun hword => ?_
    have hnext := next_word h (Cursor.kind_of_seesWord hword)
    simp only [named, named', hnext.kindAhead_eq, hnext.wordAt_eq]
  refine .cond htype (fun hyes => ?_) fun _ => hspecifier _ _ h (Nat.le_refl _)
  rw [Bool.and_assoc] at hyes
  obtain ⟨hnext, hlt, -⟩ := next_word h (Cursor.kind_of_seesWord (Bool.and_eq_true_iff.1 hyes).1)
  exact .advance (hspecifier _ _ hnext (by omega))

theorem binding_agrees (hg : P.Kin n g g') (hexprs : P.exprs) (h : P.near σ c c')
    (hn : c.left ≤ n) :
    Agree P.faults g.binding g'.binding c c' (P.Kept σ c.left) := by
  refine (bindingName_agrees h).bind fun name name' d d' ⟨hd, hltd, hname⟩ => ?_
  refine (takeKind_agrees hd rfl).bind fun _ _ e e' ⟨he, hlee, _⟩ => ?_
  refine (after_agrees rfl he fun hcolon hnext => ?_).bind fun _ _ z z' ⟨hz, hlez, _⟩ => ?_
  · have hlt := hnext.left
    exact (hg.type hnext.near (hnext.ready hcolon rfl) (by omega)).mono
      fun _ _ _ _ hd => hd.mono (by omega)
  refine (after_agrees rfl hz fun hequals hnext => ?_).bind
    fun value value' u u' ⟨hu, hleu, hvalue⟩ => ?_
  · have hlt := hnext.left
    exact (hg.expr hnext.near (hnext.operand hexprs hequals rfl) (by omega)).mono
      fun _ _ _ _ hd => hd.mono (by omega)
  · exact .pure ⟨hu, by omega, fun hfar => by rw [hname, hvalue hfar]⟩

/-- A round that passes part of a statement. It may end the statement once a token is taken, or
where there is none. -/
theorem skipRound_agrees (h : P.near [] c c') (moved : Bool) (hm : c.left ≤ m) (hpos : 0 < m)
    (hmoved : moved = true → c.left < m) :
    Agree P.faults (skipRound moved) (skipRound moved) c c'
      (GoesOn (P.near []) c.left
        (fun next next' d => next = next' ∧ d.left ≤ m ∧ (next = true → d.left < m))
        fun d d' => P.ended d d' ∧ d.left < m) := by
  have hle := c.advance_left_le
  refine .look ?_
  rw [← P.kind_eq h]
  split
  next hend =>
    have hzero := left_eq_zero h hend
    exact .pure ⟨P.ended_of_near h, by omega⟩
  next hsemicolon =>
    have hlt := Cursor.advance_left (stands h (by rw [hsemicolon]; exact nofun))
    exact .advance (.pure ⟨P.last h hsemicolon, by omega⟩)
  iterate 2
    exact (passGroup_agrees h).bind fun _ _ d d' ⟨hd, hlt, _⟩ =>
      .pure ⟨hd, hlt, rfl, by omega, fun _ => by omega⟩
  next =>
    refine (passGroup_agrees h).bind fun _ _ d d' ⟨hd, hlt, _⟩ => ?_
    have hle' := d.advance_left_le
    exact .byKind hd (fun hkind => .pure ⟨P.last hd hkind, by omega⟩)
      fun _ => .pure ⟨P.ended_of_near hd, by omega⟩
  iterate 3
    exact .fail h nofun
  next hfile hsemicolon hparen hbracket hbrace hparen' hbracket' hbrace' =>
    have hplain : c.kind.isPlain = true := Token.Kind.isPlain_of_no_bracket hfile hsemicolon hparen
      hbracket hbrace hparen' hbracket' hbrace'
    obtain ⟨hnext, hlt, -⟩ := next_plain h hplain
    refine .cond (by rw [P.break_eq h]) (fun hyes => ?_) fun _ => .advance ?_
    · exact .pure ⟨P.ended_of_near h, hmoved (Bool.and_eq_true_iff.1 hyes).1⟩
    · exact .pure ⟨hnext, by omega, rfl, by omega, fun _ => by omega⟩

/-- A skipped statement takes a token where there is one. -/
theorem passStatement_agrees (h : P.near [] c c') (hm : c.left ≤ m) (hpos : 0 < m) :
    Agree P.faults passStatement passStatement c c' (P.Done m) := by
  refine Agree.bind (Q := fun _ _ d d' => P.ended d d' ∧ d.left < m) ?_ fun _ _ d d' ⟨hd, hlt⟩ =>
    .pure ⟨hd, hlt, fun _ => rfl⟩
  refine iterate_agrees
    (S := fun moved moved' d => moved = moved' ∧ d.left ≤ m ∧ (moved = true → d.left < m)) h
    ⟨rfl, hm, nofun⟩ ?_
  rintro moved _ d d' hd hle ⟨rfl, -, hmoved⟩
  exact skipRound_agrees hd moved (by omega) hpos hmoved

theorem atReexport_eq (h : P.near σ c c') : atReexport c = atReexport c' := by
  refine and_eq_and (seesWord_eq h _) fun hexport => ?_
  have hc := next_word h (Cursor.kind_of_seesWord hexport)
  refine or_eq_or (or_eq_or (by rw [hc.kindAhead_eq]) (hc.wordAt_eq _)) ?_
  rw [Cursor.wordAt_succ, Cursor.wordAt_succ, Cursor.kindAhead_succ c 1, Cursor.kindAhead_succ c' 1]
  exact word_ahead_eq hc.near _ (· == .leftBrace)

/-- What the modifiers read so far are decides how a word is read. -/
theorem modifierRound_agrees (h : P.near σ c c') (hm : c.left ≤ m) (mods : Modifiers) :
    Agree P.faults (modifierRound mods) (modifierRound mods) c c'
      (GoesOn (P.near σ) c.left (fun next next' d => next = next' ∧ d.left ≤ m)
        (P.Same σ (m + 1) mods mods)) := by
  have htaken : ∀ (next : Modifiers) word, c.seesWord word = true →
      Agree P.faults (do advance; return some next) (do advance; return some next) c c'
        (GoesOn (P.near σ) c.left (fun next next' d => next = next' ∧ d.left ≤ m)
          (P.Same σ (m + 1) mods mods)) := by
    intro next word hword
    obtain ⟨hnext, hlt, -⟩ := next_word h (Cursor.kind_of_seesWord hword)
    exact .advance (.pure ⟨hnext, by omega, rfl, by omega⟩)
  refine .look <| .cond (seesWord_eq h _) (fun hexport => ?_) fun _ => ?_
  · exact .cond (atReexport_eq h) (fun _ => .pure ⟨h, by omega, rfl⟩) fun _ => htaken _ _ hexport
  refine .cond (by rw [seesWord_eq h]) (fun hyes => ?_) fun _ => ?_
  · exact htaken _ _ (Bool.and_eq_true_iff.1 hyes).2
  refine .cond (word_ahead_eq h _ (· == .word)) (fun hyes => ?_) fun _ => ?_
  · exact htaken _ _ (Bool.and_eq_true_iff.1 hyes).1
  exact .cond (word_word_eq h _ _) (fun hyes => htaken _ _ (Bool.and_eq_true_iff.1 hyes).1)
    fun _ => .pure ⟨h, by omega, rfl⟩

theorem modifiers_agrees (h : P.near σ c c') :
    Agree P.faults modifiers modifiers c c' (P.Same σ (c.left + 1)) := by
  refine iterate_agrees (S := fun mods mods' d => mods = mods' ∧ d.left ≤ c.left) h
    ⟨rfl, Nat.le_refl _⟩ ?_
  rintro mods _ d d' hd hle ⟨rfl, -⟩
  exact modifierRound_agrees hd hle mods

theorem aliasDef_agrees (hg : P.Kin n g g') (h : P.near [] c c') (hn : c.left ≤ n)
    (m : Modifiers) :
    Agree P.faults (g.aliasDef m) (g'.aliasDef m) c c' (P.Done c.left) := by
  refine .requireWord h fun _ ⟨hc, hltc, _⟩ => ?_
  refine (word_agrees hc).bind fun name name' d d' ⟨hd, hltd, hname⟩ => ?_
  refine (typeParams_agrees hg hd (by omega)).bind fun tps tps' e e' ⟨he, hlee, htps⟩ => ?_
  refine .require he (takes_plain he rfl) fun hequals hnext => ?_
  have hlt := hnext.left
  refine (hg.type hnext.near (hnext.ready hequals rfl) (by omega)).bind
    fun type type' z z' ⟨hz, hltz, htype⟩ => ?_
  exact semicolon_done hz (fun hfar => by rw [hname, htps (by omega), htype hfar]) (by omega)

theorem variableStatement_agrees (hg : P.Kin n g g') (hexprs : P.exprs) (h : P.near [] c c')
    (hkind : c.kind = .word) (hn : c.left ≤ n) (m : Modifiers) :
    Agree P.faults (g.variableStatement m) (g'.variableStatement m) c c' (P.Done c.left) := by
  obtain ⟨hc, hltc, -⟩ := next_word h hkind
  refine .advance <| (separated_agrees (I := fun _ => True) rfl hc trivial (fun _ _ _ _ => trivial)
    fun d d' hd _ hle => binding_agrees hg hexprs hd (by omega)).bind
    fun bindings bindings' d d' ⟨hd, hltd, heq⟩ => ?_
  exact semicolon_done hd (fun hfar => by rw [heq hfar]) (by omega)

end Grammar

end HandlerWeave.Source
