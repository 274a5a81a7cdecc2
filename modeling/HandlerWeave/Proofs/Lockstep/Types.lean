import HandlerWeave.Proofs.Lockstep.Shared

/-!
Paired runs of the grammar of types.
-/
namespace HandlerWeave.Source.Grammar

open Source.Parser Pairing

variable {P : Pairing} {n m : Nat} {g g' : Grammar} {σ τ : List Token.Kind} {c c' s s' : Cursor}

theorem functionType_agrees (hg : P.Kin n g g') (hs : P.near τ s s') (h : P.near σ c c')
    (hle : c.left ≤ s.left) (hn : c.left ≤ n) (kind : VerbatimKind) :
    Agree P.faults (g.functionType s kind) (g'.functionType s' kind) c c' (P.Kept σ c.left) := by
  refine (typeParams_agrees hg h hn).bind fun _ _ d d' ⟨hd, hled, _⟩ => ?_
  refine (params_agrees hg hd (by omega)).bind fun _ _ e e' ⟨he, hlte, _⟩ => ?_
  refine .require he (takes_plain he rfl) fun harrow hnext => ?_
  have hlt := hnext.left
  refine (returnType_agrees hg hnext.near (hnext.ready harrow rfl) (by omega)).bind
    fun _ _ z z' ⟨hz, hltz, _⟩ => ?_
  exact textSince_agrees _ hs hz (by omega) (by omega)

/-- The key of a mapped type stands here. -/
def atMappedKey (c : Cursor) : Bool :=
  c.check .leftBracket && c.kindAhead 1 == .word && c.wordAt 2 "in"

def pastSign (c : Cursor) : Cursor :=
  if c.check .plus || c.check .minus then c.advance else c

def pastReadonly (c : Cursor) : Cursor := if c.seesWord "readonly" then c.advance else c

theorem startsMappedType_eq (c : Cursor) :
    startsMappedType c = atMappedKey (pastReadonly (pastSign c.advance)) := by
  have hkind (c : Cursor) (n : Nat) : c.advance.kindAhead n = c.kindAhead (n + 1) :=
    (c.kindAhead_succ n).symm
  have hword (c : Cursor) (n : Nat) (word : String) :
      c.advance.wordAt n word = c.wordAt (n + 1) word := (c.wordAt_succ n word).symm
  have hcheck (c : Cursor) (kind : Token.Kind) : c.check kind = (c.kindAhead 0 == kind) := rfl
  have hsees (c : Cursor) (word : String) : c.seesWord word = c.wordAt 0 word := rfl
  have hsign : (c.advance.check .plus || c.advance.check .minus) =
      (c.kindAhead 1 == .plus || c.kindAhead 1 == .minus) := by rw [hcheck, hcheck, hkind]
  rw [startsMappedType, pastSign, hsign]
  by_cases hyes : (c.kindAhead 1 == .plus || c.kindAhead 1 == .minus) = true
  · simp only [if_pos hyes, pastReadonly, hsees, hword, Nat.reduceAdd]
    split <;> simp only [atMappedKey, hcheck, hkind, hword, Nat.reduceAdd]
  · simp only [if_neg hyes, pastReadonly, hsees, hword, Nat.reduceAdd]
    split <;> simp only [atMappedKey, hcheck, hkind, hword, Nat.reduceAdd]

theorem atMappedKey_eq (h : P.near σ c c') : atMappedKey c = atMappedKey c' := by
  rw [atMappedKey, atMappedKey, Bool.and_assoc, Bool.and_assoc]
  refine and_eq_and (check_eq h _) fun hbracket => ?_
  have hkind := Cursor.kind_of_check hbracket
  have hnext := (takes_opens h (not_hole_of_kind hkind nofun) rfl hkind).near
  rw [Cursor.kindAhead_succ c 0, Cursor.wordAt_succ c 1, Cursor.kindAhead_succ c' 0,
    Cursor.wordAt_succ c' 1]
  exact and_eq_and (check_eq hnext _) fun hword =>
    (next_word hnext (Cursor.kind_of_check hword)).wordAt_eq "in"

theorem pastSign_near (h : P.near σ c c') : P.near σ (pastSign c) (pastSign c') := by
  rw [pastSign, pastSign, ← check_eq h, ← check_eq h]
  split
  next hsign =>
    obtain hplus | hminus := Bool.or_eq_true_iff.1 hsign
    · exact (takes_plain h rfl (Cursor.kind_of_check hplus)).near
    · exact (takes_plain h rfl (Cursor.kind_of_check hminus)).near
  · exact h

theorem pastReadonly_near (h : P.near σ c c') : P.near σ (pastReadonly c) (pastReadonly c') := by
  rw [pastReadonly, pastReadonly, ← seesWord_eq h]
  split
  next hword => exact (next_word h (Cursor.kind_of_seesWord hword)).near
  · exact h

theorem startsMappedType_agree (h : P.near σ c c') (hole : ¬ P.hole c)
    (hkind : c.kind = .leftBrace) : startsMappedType c = startsMappedType c' := by
  rw [startsMappedType_eq, startsMappedType_eq]
  exact atMappedKey_eq (pastReadonly_near (pastSign_near (takes_opens h hole rfl hkind).near))

theorem word_parens_eq (h : P.near σ c c') (word : String) :
    (c.seesWord word && (c.kindAhead 1 == .leftParen || c.kindAhead 1 == .less)) =
      (c'.seesWord word && (c'.kindAhead 1 == .leftParen || c'.kindAhead 1 == .less)) :=
  word_ahead_eq h word fun kind => kind == .leftParen || kind == .less

theorem typeMember_agrees (hg : P.Kin n g g') (h : P.near σ c c') (hσ : σ ≠ []) (hn : c.left ≤ n) :
    Agree P.faults g.typeMember g'.typeMember c c' (P.Found σ c.left) := by
  have hmethod : ∀ name name' d d', P.near σ d d' → d.left ≤ c.left → name = name' →
      Agree P.faults (do g.passSignature; return some (some (TypeMember.method name)))
        (do g'.passSignature; return some (some (TypeMember.method name'))) d d'
        (P.Found σ c.left) := by
    rintro name _ d d' hd hle rfl
    exact (passSignature_agrees hg hd (by omega)).bind fun _ _ _ _ ⟨he, hlt, _⟩ =>
      .pure ⟨he, by omega, fun _ => rfl⟩
  refine .look <| .cond (check_eq h _) (fun _ => .pure ⟨h, Nat.le_refl _⟩) fun _ => ?_
  extract_lets member separatorOr member' separatorOr'
  have hmember : ∀ d d', P.near σ d d' → d.left ≤ c.left →
      Agree P.faults (member ()) (member' ()) d d' (P.Found σ c.left) := by
    intro d d' hd hle
    refine .look <| .cond (or_eq_or (check_eq hd _) (check_eq hd _))
      (fun _ => hmethod _ _ _ _ hd hle rfl) fun _ => ?_
    refine .cond (word_parens_eq hd _) (fun hnew => ?_) fun _ => ?_
    · obtain ⟨hnext, hlt, -⟩ :=
        next_word hd (Cursor.kind_of_seesWord (Bool.and_eq_true_iff.1 hnew).1)
      exact .advance (hmethod _ _ _ _ hnext (by omega) rfl)
    extract_lets accessor named accessor' named'
    have haccessor : accessor = accessor' :=
      words_ahead_eq hd _ [.word, .string, .number, .leftBracket, .star].contains
    have hnamed : ∀ e e', P.near σ e e' → e.left ≤ c.left →
        Agree P.faults (named ()) (named' ()) e e' (P.Found σ c.left) := by
      intro e e' he hle
      refine .look <| .cond (atIndexSignature_eq he) (fun _ => ?_) fun _ => ?_
      · exact (indexSignature_agrees hg he (by omega)).bind fun _ _ _ _ ⟨hz, hlt, heq⟩ =>
          .pure ⟨hz, by omega, fun hfar => by rw [heq hfar]⟩
      refine (memberName_agrees he).bind fun name name' u u' ⟨hu, hltu, hname⟩ => ?_
      refine (takeKind_agrees hu rfl).bind fun optional optional' v v' ⟨hv, hlev, hopt⟩ => ?_
      refine .look <| .cond (or_eq_or (or_eq_or haccessor (check_eq hv _)) (check_eq hv _))
        (fun _ => hmethod _ _ _ _ hv (by omega) hname) fun _ => ?_
      refine (after_agrees rfl hv fun hcolon hnext => ?_).bind
        fun type type' w w' ⟨hw, hlew, htype⟩ => ?_
      · have hlt := hnext.left
        exact (hg.type hnext.near (hnext.ready hcolon rfl) (by omega)).mono
          fun _ _ _ _ hd => hd.mono (by omega)
      · exact .pure ⟨hw, by omega, fun hfar => by rw [hname, hopt, htype hfar]⟩
    refine .cond haccessor (fun hyes => ?_) fun _ => hnamed _ _ hd hle
    obtain ⟨hnext, hlt, -⟩ :=
      next_word hd (Cursor.kind_of_seesAnyWord (Bool.and_eq_true_iff.1 hyes).1)
    exact .advance (hnamed _ _ hnext (by omega))
  have hseparatorOr : Agree P.faults (separatorOr ()) (separatorOr' ()) c c'
      (P.Found σ c.left) := by
    refine .cond (or_eq_or (check_eq h _) (check_eq h _)) (fun hsep => ?_) fun _ => ?_
    · obtain ⟨hnext, hlt, -⟩ : P.Next σ c c' := (Bool.or_eq_true_iff.1 hsep).elim
        (fun hsemicolon => takes_semicolon h hσ (Cursor.kind_of_check hsemicolon))
        fun hcomma => takes_plain h rfl (Cursor.kind_of_check hcomma)
      exact .advance (.pure ⟨hnext, by omega, fun _ => rfl⟩)
    refine .cond (word_ahead_eq h _ [.word, .string, .number, .leftBracket, .star].contains)
      (fun hyes => ?_) fun _ => hmember _ _ h (Nat.le_refl _)
    obtain ⟨hnext, hlt, -⟩ :=
      next_word h (Cursor.kind_of_seesWord (Bool.and_eq_true_iff.1 hyes).1)
    exact .advance (hmember _ _ hnext (by omega))
  exact .cond (check_eq h _) (fun _ => .failed h nofun) fun _ => hseparatorOr

theorem typeMembers_agrees (hg : P.Kin n g g') (h : P.near σ c c') (hole : ¬ P.hole c)
    (hn : c.left ≤ n) :
    Agree P.faults g.typeMembers g'.typeMembers c c' (P.Kept σ c.left) := by
  refine .require h (takes_opens h hole rfl) fun _ ⟨hc, hlt, _⟩ => ?_
  refine (many_agrees hc fun d d' hd hle =>
    typeMember_agrees hg hd (List.cons_ne_nil _ _) (by omega)).bind
    fun members members' d d' ⟨hd, hled, hmembers⟩ => ?_
  refine .require hd (takes_closes hd rfl) fun _ ⟨he, hlte, _⟩ => ?_
  exact .pure ⟨he, by omega, fun hfar => by rw [hmembers (by omega)]⟩

theorem tupleElement_agrees (hg : P.Kin n g g') (h : P.near σ c c') (hready : P.ready c)
    (hn : c.left < n) :
    Agree P.faults g.tupleElement g'.tupleElement c c' (P.Kept σ c.left) := by
  refine (takeHead_agrees h hready rfl rfl).bind fun _ _ d d' ⟨hd, hreadyd, hled⟩ => .look ?_
  extract_lets element element'
  have helement : ∀ e e', P.near σ e e' → P.ready e → e.left ≤ c.left →
      Agree P.faults (element ()) (element' ()) e e' (P.Kept σ c.left) := by
    intro e e' he hreadye hle
    refine (hg.type he hreadye (by omega)).bind fun type type' z z' ⟨hz, hlt, heq⟩ => ?_
    refine (takeKind_agrees hz rfl).bind fun _ _ u u' ⟨hu, hleu, _⟩ => ?_
    exact .pure ⟨hu, by omega, fun hfar => heq (by omega)⟩
  refine .cond (kind_ahead_eq hd rfl (· == .colon)) (fun hyes => ?_) fun _ => ?_
  · obtain ⟨hword, hcolon⟩ := Bool.and_eq_true_iff.1 hyes
    rw [Cursor.kindAhead_succ, beq_iff_eq] at hcolon
    obtain ⟨he, hlte, -⟩ := takes_plain hd rfl (Cursor.kind_of_check hword)
    have hnext := takes_plain he rfl hcolon
    have hlt := hnext.left
    exact .advance <| .advance <| helement _ _ hnext.near (hnext.ready hcolon rfl) (by omega)
  · have hlabel : (d.check .word && d.kindAhead 1 == .question && d.kindAhead 2 == .colon) =
        (d'.check .word && d'.kindAhead 1 == .question && d'.kindAhead 2 == .colon) := by
      rw [Bool.and_assoc, Bool.and_assoc]
      refine and_eq_and (check_eq hd _) fun hword => ?_
      rw [Cursor.kindAhead_succ d 0, Cursor.kindAhead_succ d 1, Cursor.kindAhead_succ d' 0,
        Cursor.kindAhead_succ d' 1]
      exact kind_ahead_eq (takes_plain hd rfl (Cursor.kind_of_check hword)).near rfl (· == .colon)
    refine .cond hlabel (fun hyes => ?_) fun _ => helement _ _ hd hreadyd hled
    simp only [Bool.and_eq_true, Cursor.kindAhead_succ d, beq_iff_eq] at hyes
    obtain ⟨⟨hword, hquestion⟩, hcolon⟩ := hyes
    rw [Cursor.kindAhead_succ] at hcolon
    obtain ⟨he, hlte, -⟩ := takes_plain hd rfl (Cursor.kind_of_check hword)
    obtain ⟨hz, hltz, -⟩ := takes_plain he rfl hquestion
    have hnext := takes_plain hz rfl hcolon
    have hlt := hnext.left
    exact .advance <| .advance <| .advance <|
      helement _ _ hnext.near (hnext.ready hcolon rfl) (by omega)

theorem tupleType_agrees (hg : P.Kin n g g') (h : P.near σ c c') (hn : c.left ≤ n) :
    Agree P.faults g.tupleType g'.tupleType c c' (P.Kept σ c.left) := by
  refine .require h (fun hkind => takes_opens h (not_hole_of_kind hkind nofun) rfl hkind)
    fun hbracket hnext => ?_
  have hlt := hnext.left
  refine (commaList_agrees (I := P.ready) hnext.near (hnext.ready hbracket rfl)
    (fun _ _ hd hcomma => hd.ready hcomma rfl)
    fun d d' hd hI hle => (tupleElement_agrees hg hd hI (by omega)).mono
      fun _ _ _ _ he => he.mono (by omega)).bind fun elements elements' d d' ⟨hd, hled, heq⟩ => ?_
  refine .require hd (takes_closes hd rfl) fun _ ⟨he, hlte, _⟩ => ?_
  exact .pure ⟨he, by omega, fun hfar => by rw [heq (by omega)]⟩

theorem importedPathRound_agrees (h : P.near σ c c') :
    Agree P.faults importedPathRound importedPathRound c c' (P.Round σ c.left) := by
  refine .takeKind h (takes_plain h rfl) (fun _ ⟨hnext, hlt, _⟩ => ?_)
    fun _ => .pure ⟨h, Nat.le_refl _, rfl, nofun⟩
  exact (word_agrees hnext).bind fun _ _ _ _ ⟨hd, hltd, _⟩ =>
    .pure ⟨hd, by omega, rfl, fun _ => by omega⟩

/-- The first word of the path is an `import` in front of a parenthesis. -/
theorem importedPath_agrees (h : P.near σ c c') (hkind : c.kind = .word) :
    Agree P.faults importedPath importedPath c c' (P.Same σ c.left) := by
  obtain ⟨hc, hlt, -⟩ := next_word h hkind
  rw [importedPath_eq]
  refine .advance <| (passGroup_agrees hc).bind fun _ _ d d' ⟨hd, hltd, _⟩ => ?_
  exact (skipWhile_agrees hd fun _ _ he _ => importedPathRound_agrees he).mono
    fun _ _ _ _ ⟨he, hle, heq⟩ => ⟨he, by omega, heq⟩

theorem referenceType_agrees (hg : P.Kin n g g') (h : P.near σ c c') (hn : c.left ≤ n) :
    Agree P.faults g.referenceType g'.referenceType c c' (P.Kept σ c.left) := by
  refine (qualifiedName_agrees h).bind fun name name' d d' ⟨hd, hltd, hname⟩ => ?_
  refine (typeArgsIfAny_agrees hg hd (by omega)).bind fun args args' e e' ⟨he, hle, hargs⟩ => ?_
  exact .pure ⟨he, by omega, fun hfar => by rw [hname (by omega), hargs hfar]⟩

theorem namedType_agrees (hg : P.Kin n g g') (h : P.near σ c c') (hkind : c.kind = .word)
    (hn : c.left ≤ n) :
    Agree P.faults g.namedType g'.namedType c c' (P.Kept σ c.left) := by
  have hquery : ∀ d d', P.near σ d d' → d.left < c.left → Agree P.faults (do
      let _ ← g.typeArgsIfAny
      return TypeNode.verbatim .query (← textSince c)) (do
      let _ ← g'.typeArgsIfAny
      return TypeNode.verbatim .query (← textSince c')) d d' (P.Kept σ c.left) := by
    intro d d' hd hlt
    refine (typeArgsIfAny_agrees hg hd (by omega)).bind fun _ _ e e' ⟨he, hle, _⟩ => ?_
    exact textSince_agrees _ h he (by omega) (by omega)
  have hc := next_word h hkind
  have hlt := hc.left
  refine .look ?_
  extract_lets importStarts
  have himport : ∀ d d', P.near σ d d' → importStarts d = importStarts d' := fun d d' hd =>
    word_ahead_eq hd "import" (· == .leftParen)
  refine .cond (seesAnyWord_eq h _) (fun _ => ?_) fun _ => ?_
  · exact .advance (.pure ⟨hc.near, by omega, fun _ => by rw [seesWord_eq h]⟩)
  refine .cond (seesWord_eq h _) (fun _ => ?_) fun _ => ?_
  · refine .advance <| .look <| .cond (himport _ _ hc.near) (fun hyes => ?_) fun _ => ?_
    · exact (importedPath_agrees hc.near
        (Cursor.kind_of_seesWord (Bool.and_eq_true_iff.1 hyes).1)).bind
        fun _ _ d d' ⟨hd, hltd, _⟩ => hquery _ _ hd (by omega)
    · exact (qualifiedName_agrees hc.near).bind
        fun _ _ d d' ⟨hd, hltd, _⟩ => hquery _ _ hd (by omega)
  refine .cond (himport _ _ h) (fun _ => ?_) fun _ => ?_
  · exact (importedPath_agrees h hkind).bind fun _ _ d d' ⟨hd, hltd, _⟩ => hquery _ _ hd hltd
  rw [← P.text_eq h]
  split
  · refine .cond (by rw [hc.kindAhead_eq]) (fun _ => referenceType_agrees hg h hn) fun _ => ?_
    exact .advance (.pure ⟨hc.near, by omega, fun _ => rfl⟩)
  · exact referenceType_agrees hg h hn

theorem primaryType_agrees (hg : P.Kin n g g') (h : P.near σ c c') (hready : P.ready c)
    (hn : c.left ≤ n) :
    Agree P.faults g.primaryType g'.primaryType c c' (P.Kept σ c.left) := by
  refine .look ?_
  rw [← P.kind_eq h]
  split
  next hparen =>
    have hnext := takes_opens h (not_hole_of_kind hparen nofun) rfl hparen
    have hlt := hnext.left
    refine .advance <| (hg.type hnext.near (hnext.ready hparen rfl) (by omega)).bind
      fun inner inner' d d' ⟨hd, hltd, heq⟩ => ?_
    refine .require hd (takes_closes hd rfl) fun _ ⟨he, hlte, _⟩ => ?_
    exact .pure ⟨he, by omega, fun hfar => by rw [heq (by omega)]⟩
  next hbrace =>
    have hole := not_hole h hready
    refine .cond (startsMappedType_agree h hole hbrace) (fun _ => ?_) fun _ => ?_
    · exact (passGroup_agrees h).bind fun _ _ _ _ ⟨hd, hlt, _⟩ =>
        textSince_agrees _ h hd (by omega) (by omega)
    · exact (typeMembers_agrees hg h hole hn).bind fun _ _ _ _ ⟨hd, hlt, heq⟩ =>
        .pure ⟨hd, hlt, fun hfar => by rw [heq hfar]⟩
  next => exact tupleType_agrees hg h hn
  next hstring =>
    exact (takeString_agrees h (by rw [hstring]; rfl)).bind fun _ _ _ _ ⟨hd, hlt, heq⟩ =>
      .pure ⟨hd, hlt, fun _ => by rw [heq]⟩
  next htemplate =>
    obtain ⟨hnext, hlt, -⟩ := takes_plain h rfl htemplate
    exact .advance (textSince_agrees _ h hnext (by omega) (by omega))
  next hnumber =>
    exact (takeText_agrees h (by rw [hnumber]; rfl)).bind fun _ _ _ _ ⟨hd, hlt, heq⟩ =>
      .pure ⟨hd, hlt, fun _ => by rw [heq]⟩
  next hword => exact namedType_agrees hg h hword hn
  next =>
    have hminus : (c.kind == .minus && c.kindAhead 1 == .number) =
        (c.kind == .minus && c'.kindAhead 1 == .number) :=
      and_eq_and rfl fun hminus => by
        rw [(takes_plain h rfl (eq_of_beq hminus)).kindAhead_eq]
    refine .cond hminus (fun hyes => ?_) fun _ => .fail h nofun
    obtain ⟨hkind, hnumber⟩ := Bool.and_eq_true_iff.1 hyes
    rw [Cursor.kindAhead_succ, beq_iff_eq] at hnumber
    obtain ⟨hd, hlt, -⟩ := takes_plain h rfl (eq_of_beq hkind)
    refine .advance <| (takeText_agrees hd (isPlain_of_eq hnumber rfl)).bind
      fun _ _ _ _ ⟨he, hlte, heq⟩ => ?_
    exact .pure ⟨he, by omega, fun _ => by rw [heq]⟩

theorem typeSuffix_agrees (hg : P.Kin n g g') (hs : P.near τ s s') (h : P.near σ c c')
    (hlt : c.left < s.left) (hn : c.left ≤ n) {type type' : TypeNode}
    (htype : P.horizon ≤ c.left → type = type') :
    Agree P.faults (g.typeSuffix s type) (g'.typeSuffix s' type') c c' (P.Found σ c.left) := by
  have hnewline := P.newline_eq h (Nat.lt_of_lt_of_le hlt (P.left_le hs))
  refine .look <| .cond (by rw [check_eq h, hnewline]) (fun hyes => ?_)
    fun _ => .pure ⟨h, Nat.le_refl _⟩
  have hbracket := Cursor.kind_of_check (Bool.and_eq_true_iff.1 hyes).1
  have hnext := takes_opens h (not_hole_of_kind hbracket nofun) rfl hbracket
  have hltc := hnext.left
  refine .advance <| .takeKind hnext.near (takes_closes hnext.near rfl)
    (fun _ ⟨hd, hltd, _⟩ => ?_) fun _ => ?_
  · exact .pure ⟨hd, by omega, fun hfar => by rw [htype (by omega)]⟩
  · refine (hg.type hnext.near (hnext.ready hbracket rfl) (by omega)).bind
      fun _ _ d d' ⟨hd, hltd, _⟩ => ?_
    refine .require hd (takes_closes hd rfl) fun _ ⟨he, hlte, _⟩ => ?_
    exact textSince_found _ hs he (by omega) (by omega)

theorem operandTypeRule_agrees (hg : P.Kin n g g') (h : P.near σ c c') (hready : P.ready c)
    (hn : c.left ≤ n) :
    Agree P.faults g.operandTypeRule g'.operandTypeRule c c' (P.Kept σ c.left) := by
  refine .look <| .cond (words_ahead_eq h _ fun kind => !endsOperand kind) (fun hyes => ?_)
    fun _ => ?_
  · have hwords := (Bool.and_eq_true_iff.1 hyes).1
    have hnext := next_word h (Cursor.kind_of_seesAnyWord hwords)
    have hlt := hnext.left
    have hreadyc : P.ready c.advance := by
      have hheads : ∀ word ∈ ["keyof", "unique", "readonly"],
          Token.headWords.contains word = true := by decide
      obtain ⟨word, hmem, hword⟩ := List.any_eq_true.1 hwords
      exact hnext.ready_word hword (hheads word hmem)
    refine .advance <| (hg.operandType hnext.near hreadyc (by omega)).bind
      fun inner inner' d d' ⟨hd, hltd, heq⟩ => ?_
    by_cases hfar : P.horizon ≤ d.left
    · obtain rfl := heq hfar
      refine .cond (by rw [seesWord_eq h]) (fun _ => .pure ⟨hd, by omega, fun _ => rfl⟩) fun _ => ?_
      exact textSince_agrees _ h hd (by omega) (by omega)
    · have hfree : ∀ type type' : TypeNode, P.Kept σ c.left type type' d d' := fun _ _ =>
        ⟨hd, by omega, fun h => absurd h hfar⟩
      split <;> split <;> exact hfree _ _
  refine .cond (word_ahead_eq h _ (· == .word)) (fun hyes => ?_) fun _ => ?_
  · obtain ⟨hinfer, hword⟩ := Bool.and_eq_true_iff.1 hyes
    rw [Cursor.kindAhead_succ, beq_iff_eq] at hword
    obtain ⟨hc, hlt, -⟩ := next_word h (Cursor.kind_of_seesWord hinfer)
    obtain ⟨hd, hltd, -⟩ := next_word hc hword
    exact .advance <| .advance <| textSince_agrees _ h hd (by omega) (by omega)
  · refine (primaryType_agrees hg h hready hn).bind fun type type' d d' ⟨hd, hltd, heq⟩ => ?_
    exact (iterate_kept hd heq fun t t' e e' he hle ht =>
      typeSuffix_agrees hg h he (by omega) (by omega) ht).mono fun _ _ _ _ he => he.mono (by omega)

theorem intersectionType_agrees (hg : P.Kin n g g') (h : P.near σ c c') (hready : P.ready c)
    (hn : c.left ≤ n) :
    Agree P.faults g.intersectionType g'.intersectionType c c' (P.Kept σ c.left) := by
  refine (takeHead_agrees h hready rfl rfl).bind fun _ _ d d' ⟨hd, hreadyd, hled⟩ => ?_
  refine (separated_agrees (I := P.ready) rfl hd hreadyd (fun _ _ he hsep => he.ready hsep rfl)
    fun e e' he hI hle => operandTypeRule_agrees hg he hI (by omega)).bind
    fun parts parts' z z' ⟨hz, hlt, heq⟩ => ?_
  exact .pure ⟨hz, by omega, fun hfar => by rw [heq hfar]⟩

theorem unionType_agrees (hg : P.Kin n g g') (h : P.near σ c c') (hready : P.ready c)
    (hn : c.left ≤ n) :
    Agree P.faults g.unionType g'.unionType c c' (P.Kept σ c.left) := by
  refine (takeHead_agrees h hready rfl rfl).bind fun _ _ d d' ⟨hd, hreadyd, hled⟩ => ?_
  refine (separated_agrees (I := P.ready) rfl hd hreadyd (fun _ _ he hsep => he.ready hsep rfl)
    fun e e' he hI hle => intersectionType_agrees hg he hI (by omega)).bind
    fun arms arms' z z' ⟨hz, hlt, heq⟩ => ?_
  exact .pure ⟨hz, by omega, fun hfar => by rw [heq hfar]⟩

theorem typeRule_agrees (hg : P.Kin n g g') (h : P.near σ c c') (hready : P.ready c)
    (hn : c.left ≤ n) :
    Agree P.faults g.typeRule g'.typeRule c c' (P.Kept σ c.left) := by
  refine .look <| .cond (or_eq_or (check_eq h _) (P.arrow_eq h))
    (fun _ => functionType_agrees hg h h (Nat.le_refl _) hn _) fun _ => ?_
  refine .cond (or_eq_or (seesWord_eq h _) (word_word_eq h _ _)) (fun hyes => ?_) fun _ => ?_
  · have hconstructor : ∀ d d', P.near σ d d' → d.left ≤ c.left → d.seesWord "new" = true →
        Agree P.faults (do advance; g.functionType c .constructor)
          (do advance; g'.functionType c' .constructor) d d' (P.Kept σ c.left) := by
      intro d d' hd hle hnew
      obtain ⟨hnext, hlt, -⟩ := next_word hd (Cursor.kind_of_seesWord hnew)
      exact .advance <| (functionType_agrees hg h hnext (by omega) (by omega) _).mono
        fun _ _ _ _ he => he.mono (by omega)
    refine .takeWord h (fun habstract hnext => ?_) fun hother => ?_
    · have hlt := hnext.left
      refine hconstructor _ _ hnext.near (by omega) ?_
      have hold : c.seesWord "new" = false := by
        rw [Cursor.isWord_token, Cursor.text_of_seesWord habstract]
        exact Bool.and_false _
      rw [hold, Bool.false_or, Cursor.wordAt_succ] at hyes
      exact (Bool.and_eq_true_iff.1 hyes).2
    · rw [hother, Bool.false_and, Bool.or_false] at hyes
      exact hconstructor _ _ h (Nat.le_refl _) hyes
  · refine (unionType_agrees hg h hready hn).bind fun type type' d d' ⟨hd, hltd, heq⟩ => ?_
    refine .takeWord hd (fun hextends hnext => ?_) fun _ => .pure ⟨hd, hltd, heq⟩
    have hlt := hnext.left
    refine (unionType_agrees hg hnext.near (hnext.ready_word hextends rfl) (by omega)).bind
      fun _ _ e e' ⟨he, hlte, _⟩ => ?_
    refine .require he (takes_plain he rfl) fun hquestion hnext' => ?_
    have hlt' := hnext'.left
    refine (hg.type hnext'.near (hnext'.ready hquestion rfl) (by omega)).bind
      fun _ _ z z' ⟨hz, hltz, _⟩ => ?_
    refine .require hz (takes_plain hz rfl) fun hcolon hnext'' => ?_
    have hlt'' := hnext''.left
    refine (hg.type hnext''.near (hnext''.ready hcolon rfl) (by omega)).bind
      fun _ _ u u' ⟨hu, hltu, _⟩ => ?_
    exact textSince_agrees _ h hu (by omega) (by omega)

end HandlerWeave.Source.Grammar
