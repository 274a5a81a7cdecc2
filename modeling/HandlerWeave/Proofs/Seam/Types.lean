import HandlerWeave.Proofs.Seam.Groups

/-!
Types in front of a token that goes on with nothing in them. Production by production, a type that
is read to the end of a text is read to the same place when the token follows.
-/
namespace HandlerWeave.Source

open Source.Parser Source.Group Seam

variable {X : Seam} {α β : Type} {c c' d d' s s' : Cursor} {n m : Nat} {kind closer : Token.Kind}
  {g g' : Grammar}

namespace Seam

/-- The first run paired with itself, its open brackets being those that the grammar has entered. -/
def brackets (X : Seam) : Pairing := (Trail.brackets X.listing X.bodied).diagonal

theorem Near.brackets (h : X.Near c c') : X.brackets.near [] c c := by
  obtain ⟨passed, halong, hnested⟩ := h
  exact ⟨rfl, passed, c.ahead, halong.front, halong.here, hnested⟩

/-- What is nested in a production with fewer than `n` tokens ahead is carried over, and both
grammars read it alike wherever two runs look alike. -/
structure Kin (X : Seam) (n : Nat) (g g' : Grammar) : Prop where
  self : ∀ P : Pairing, P.Kin n g g
  pair : ∀ P : Pairing, P.Kin n g g'
  type : ∀ {c c'}, X.Near c c' → X.Starts c → c.left < n →
    Carries g.type g'.type c c' fun _ => X.Meets c.left
  operandType : ∀ {c c'}, X.Near c c' → X.Starts c → c.left < n →
    Carries g.operandType g'.operandType c c' fun _ => X.Meets c.left

/-- A parenthesis that is closed in the text is followed by an arrow in both runs or in none. -/
theorem Near.arrow_eq (h : X.Near c c') {seen later : List Token} (hahead : c.ahead = seen ++ later)
    (hne : seen ≠ []) (hseen : Nested seen) :
    Grammar.atArrowParams c = Grammar.atArrowParams c' := by
  rw [Grammar.atArrowParams, Grammar.atArrowParams]
  refine and_eq_and (h.check_eq rfl) fun hparen => ?_
  obtain ⟨t, ts, rfl⟩ := List.exists_cons_of_ne_nil hne
  have hkind : t.kind = .leftParen := by
    have hkind := Cursor.kind_of_check hparen
    simpa [Cursor.kind, Cursor.kindAhead, Cursor.tokenAt, hahead] using hkind
  have hopens : t.kind.closing? = some .rightParen := by
    rw [hkind]
    rfl
  obtain ⟨u, hu, hafter⟩ := open?_cons_eq_some.1 hseen
  rw [open1?_opens hopens] at hu
  cases hu
  obtain ⟨m, hm, hfound⟩ := closingIndex?_of_open (w := [.rightParen]) (v := []) hafter
    (List.cons_ne_nil _ _) (Nat.zero_le _)
  have hindex (rest : List Token) : closingIndex? 0 (t :: (ts ++ rest)) = some (m + 1) := by
    rw [closingIndex?, if_pos (by rw [hopens]; rfl)]
    exact congrArg (Option.map (· + 1)) (hfound rest)
  obtain ⟨passed, halong, -⟩ := h
  have hahead' : c'.ahead = t :: (ts ++ (later ++ X.next :: X.more)) := by
    rw [halong.ahead, hahead]
    simp
  rw [hahead', hahead, List.cons_append, hindex, hindex]
  refine halong.kindAhead_eq rfl ?_
  simp only [Cursor.left, hahead, List.length_append, List.length_cons]
  omega

end Seam

/-- A parser that takes a token when it succeeds has one ahead, and sees the parameters of an arrow
there in both runs or in none. -/
theorem Seam.Near.consumed {p : Parser α} (h : X.Near c c')
    (hself : Agree X.brackets.faults p p c c (X.brackets.Kept [] c.left)) {a : α}
    (hrun : p c = .ok (a, d)) :
    c.ahead ≠ [] ∧ Grammar.atArrowParams c = Grammar.atArrowParams c' := by
  obtain ⟨_, _, -, ⟨⟨-, passed', ahead', hfront', rfl, hopen'⟩, hlt, -⟩⟩ := hself.outcome hrun
  have hne : c.ahead ≠ [] := List.length_pos_iff.1 (Nat.zero_lt_of_lt hlt)
  obtain ⟨passed, halong, hnested⟩ := id h
  have hfront : passed ++ c.ahead = passed' ++ ahead' := halong.front.symm.trans hfront'
  obtain ⟨seen, rfl, hahead⟩ | ⟨seen, rfl, rfl⟩ := List.append_eq_append_iff.1 hfront
  · have hseen : Nested seen := by
      have hopen' : open? [] (passed ++ seen) = some [] := hopen'
      rw [open?_append, hnested] at hopen'
      exact hopen'
    refine ⟨hne, h.arrow_eq hahead (fun hnil => ?_) hseen⟩
    subst hnil
    simp [Cursor.left, hahead] at hlt
  · rw [Cursor.between_left, Cursor.left, List.length_append] at hlt
    omega

theorem Carries.consumes {p p' : Parser α} {Q : α → Cursor → Cursor → Prop} (h : X.Near c c')
    (hself : Agree X.brackets.faults p p c c (X.brackets.Kept [] c.left))
    (hf : c.ahead ≠ [] → Grammar.atArrowParams c = Grammar.atArrowParams c' →
      Carries p p' c c' Q) : Carries p p' c c' Q := by
  intro a d hrun
  obtain ⟨hne, harrow⟩ := h.consumed hself hrun
  exact hf hne harrow a d hrun

namespace Grammar

theorem nameRound_carries (h : X.Near c c') :
    Carries nameRound nameRound c c' fun o d d' =>
      if o.isSome then X.Meets c.left d d' else d = c ∧ d' = c' := by
  have hdots : (c.check .dot && c.kindAhead 1 == .word) =
      (c'.check .dot && c'.kindAhead 1 == .word) := by
    refine and_eq_and (h.check_eq rfl) fun hdot => ?_
    have hkind := Cursor.kind_of_check hdot
    refine (h.takes hkind rfl).word_ahead_eq fun hend hword => ?_
    exact X.no_path hword _ (h.last (h.stands (by rw [hkind]; decide)) hend).1 hkind
  refine .look (.cond hdots (fun hyes => ?_) fun _ => .pure ⟨rfl, rfl⟩)
  have hnext := h.takes (Cursor.kind_of_check (Bool.and_eq_true_iff.1 hyes).1) rfl
  have hleft := hnext.left
  exact .advance ((Carries.word hnext.near).bind fun _ _ _ hd => .pure (hd.mono (by omega)))

theorem qualifiedName_carries (h : X.Near c c') :
    Carries qualifiedName qualifiedName c c' fun _ => X.Meets c.left := by
  refine (Carries.word h).bind fun first d d' hd => ?_
  refine (many_carries (N := X.Meets c.left) (E := X.Meets c.left) hd.near (fun e e' he =>
    (nameRound_carries he.near).mono fun o z z' hz => ?_) hd).bind fun rest e e' he => ?_
  · cases o with
    | none =>
        obtain ⟨rfl, rfl⟩ := hz
        exact he
    | some name => exact hz.mono (Nat.le_of_lt he.left)
  · split <;> exact .pure he

theorem typeArgs_carries (hg : X.Kin n g g') (h : X.Near c c') (hn : c.left ≤ n) :
    Carries g.typeArgs g'.typeArgs c c' fun _ => X.Meets c.left := by
  refine .require h rfl fun hless => ?_
  have hnext := h.takes hless rfl
  have hleft := hnext.left
  refine .commaList (I := X.Starts) hnext.near (hnext.starts_kind hless rfl) rfl rfl
    (fun _ _ hd hcomma => hd.starts_kind hcomma rfl) (fun d d' hd hI hle a e ha _ => ?_)
    fun args d d' hd hgreater hle => .pure ((hd.meets (by rw [hgreater]; rfl)).mono (by omega))
  obtain ⟨e', ha', he⟩ := hg.type hd hI (by omega) a e ha
  exact ⟨e', ha', he.near, Nat.le_of_lt he.left⟩

theorem typeArgsIfAny_carries (hg : X.Kin n g g') (h : X.Meets m c c') (hn : c.left ≤ n) :
    Carries g.typeArgsIfAny g'.typeArgsIfAny c c' fun _ => X.Meets m :=
  .look <| .cond (h.near.check_eq rfl)
    (fun _ => (typeArgs_carries hg h.near hn).mono fun _ _ _ hd => hd.mono (Nat.le_of_lt h.left))
    fun _ => .pure h

theorem referenceType_carries (hg : X.Kin n g g') (h : X.Near c c') (hn : c.left ≤ n) :
    Carries g.referenceType g'.referenceType c c' fun _ => X.Meets c.left := by
  refine (qualifiedName_carries h).bind fun name d d' hd => ?_
  exact (typeArgsIfAny_carries hg hd (Nat.le_trans (Nat.le_of_lt hd.left) hn)).bind
    fun _ _ _ he => .pure he

theorem importedPath_carries (h : X.Near c c') (hkind : c.kind = .word) :
    Carries importedPath importedPath c c' fun _ => X.Meets c.left := by
  have hnext := h.next_word hkind
  have hleft := hnext.left
  refine .advance <| (passGroup_carries hnext.near).bind fun _ d d' hd => ?_
  refine (skipWhile_carries (N := X.Meets c.left) (E := X.Meets c.left) hd.near
    (fun e e' he => ?_) (hd.mono (by omega))).mono fun _ _ _ he => he
  refine .takeKind (he.near.check_eq rfl) (fun hdot => ?_) fun _ => .pure he
  have hnext := he.near.takes hdot rfl
  have hleft := hnext.left
  have hlt := he.left
  exact (Carries.word hnext.near).bind fun _ _ _ hz => .pure (hz.mono (by omega))

theorem word_fails {what : String} (h : c.kind ≠ .word) :
    word what c = fail (.expected what) c := by
  show (if c.check .word = true then takeText else fail (.expected what) : Parser String) c = _
  rw [if_neg (by simpa [Cursor.check] using h)]

theorem namedType_carries (hg : X.Kin n g g') (h : X.Near c c') (hkind : c.kind = .word)
    (hn : c.left ≤ n) : Carries g.namedType g'.namedType c c' fun _ => X.Meets c.left := by
  have hne := h.stands (by rw [hkind]; decide)
  have hnext := h.next_word hkind
  have hleft := hnext.left
  have hends := hnext.meets (by rw [hkind]; rfl)
  have hquery : ∀ d d', X.Meets c.left d d' → Carries (do
      let _ ← g.typeArgsIfAny
      return TypeNode.verbatim .query (← textSince c)) (do
      let _ ← g'.typeArgsIfAny
      return TypeNode.verbatim .query (← textSince c')) d d' fun _ => X.Meets c.left := by
    intro d d' hd
    have hlt := hd.left
    exact (typeArgsIfAny_carries hg hd (by omega)).bind fun _ _ _ he =>
      .textSince _ h he.near fun _ => he
  refine .look ?_
  extract_lets importStarts
  have himport : ∀ d d', X.Near d d' → d.ahead ≠ [] → importStarts d = importStarts d' :=
    fun d d' hd hned => and_eq_and (hd.seesWord_eq hned _) fun _ => Near.kindAhead_eq hd hned rfl
  refine .cond (h.seesAnyWord_eq hne _) (fun _ => ?_) fun _ => ?_
  · rw [← h.seesWord_eq hne]
    exact .advance (.pure hends)
  refine .cond (h.seesWord_eq hne _) (fun _ => .advance ?_) fun _ => ?_
  · by_cases hend : c.advance.ahead = []
    · -- nothing is left for the run to name
      have hfile := hnext.near.file_iff.2 hend
      refine .vacuous fun a d hrun => ?_
      have himport : importStarts c.advance = false := by
        show (c.advance.seesWord "import" && _) = false
        rw [Cursor.isWord_token, hfile]
        rfl
      obtain ⟨_, _, hlook, hrun⟩ := bind_eq_ok.1 hrun
      cases hlook
      rw [himport] at hrun
      obtain ⟨_, _, hword, -⟩ := bind_eq_ok.1 (bind_eq_ok.1 hrun).choose_spec.choose_spec.1
      rw [word_fails (by rw [hfile]; decide)] at hword
      cases hword
    refine .look <| .cond (himport _ _ hnext.near hend) (fun hyes => ?_) fun _ => ?_
    · exact (importedPath_carries hnext.near
        (Cursor.kind_of_seesWord (Bool.and_eq_true_iff.1 hyes).1)).bind
        fun _ d d' hd => hquery _ _ (hd.mono (by omega))
    · exact (qualifiedName_carries hnext.near).bind
        fun _ d d' hd => hquery _ _ (hd.mono (by omega))
  refine .cond (himport _ _ h hne) (fun _ => ?_) fun _ => ?_
  · exact (importedPath_carries h hkind).bind fun _ d d' hd => hquery _ _ hd
  rw [← h.text_eq hne]
  split
  · refine .cond (hnext.kindAhead_eq rfl) (fun _ => referenceType_carries hg h hn) fun _ => ?_
    exact .advance (.pure hends)
  · exact referenceType_carries hg h hn

theorem type_readsInside {opening : Token.Kind} (hg : ∀ P : Pairing, P.Kin n g g') :
    ReadsInside False n opening closer g.type g'.type :=
  fun P _ _ _ hinside h _ hn => ((hg P).type h (hinside.ready _) hn).mono
    fun _ _ _ _ hd => hd.mono (Nat.le_succ _)

theorem typeMembers_readsInside {opening : Token.Kind} (hg : ∀ P : Pairing, P.Kin n g g') :
    ReadsInside False n opening closer (many g.typeMember) (many g'.typeMember) :=
  fun P _ _ _ hinside h _ hn => many_agrees h fun _ _ hd hle =>
    typeMember_agrees (hg P) hd hinside.ne_nil (by omega)

theorem tupleElements_readsInside {opening : Token.Kind} (hg : ∀ P : Pairing, P.Kin n g g') :
    ReadsInside False n opening closer (commaList .rightBracket g.tupleElement)
      (commaList .rightBracket g'.tupleElement) :=
  fun P _ c _ hinside h _ hn => commaList_agrees (I := P.ready) h (hinside.ready _)
    (fun _ _ _ _ => hinside.ready _) fun _ _ hd hI hle =>
      (tupleElement_agrees (hg P) hd hI (by omega)).mono fun _ _ _ _ he => he.mono (Nat.le_succ _)

theorem params_readsInside {opening : Token.Kind} (hg : ∀ P : Pairing, P.Kin n g g') :
    ReadsInside False n opening closer (commaList .rightParen g.param)
      (commaList .rightParen g'.param) :=
  fun P _ _ _ _ h _ hn => commaList_agrees (I := fun _ => True) h trivial
    (fun _ _ _ _ => trivial) fun _ _ hd _ hle => (param_agrees (hg P) hd (by omega)).mono
      fun _ _ _ _ he => he.mono (Nat.le_succ _)

theorem ahead_ne_nil_of_advance (h : c.advance.ahead ≠ []) : c.ahead ≠ [] := fun hnil => h <| by
  rw [Cursor.advance, hnil]
  exact hnil

theorem pastReadonly_along {passed : List Token} (h : X.Along passed c c')
    (hne : (pastReadonly c).ahead ≠ []) :
    ∃ passed, X.Along passed (pastReadonly c) (pastReadonly c') := by
  have hahead : c.ahead ≠ [] := by
    rw [pastReadonly] at hne
    split at hne
    · exact ahead_ne_nil_of_advance hne
    · exact hne
  have hword : c.seesWord "readonly" = c'.seesWord "readonly" :=
    congrArg (Token.isWord · "readonly") (h.token_eq hahead)
  rw [pastReadonly, pastReadonly, ← hword]
  split
  · exact ⟨_, h.advance hahead⟩
  · exact ⟨_, h⟩

theorem pastSign_along {passed : List Token} (h : X.Along passed c c')
    (hne : (pastSign c).ahead ≠ []) : ∃ passed, X.Along passed (pastSign c) (pastSign c') := by
  have hahead : c.ahead ≠ [] := by
    rw [pastSign] at hne
    split at hne
    · exact ahead_ne_nil_of_advance hne
    · exact hne
  rw [pastSign, pastSign, ← h.check_eq rfl, ← h.check_eq rfl]
  split
  · exact ⟨_, h.advance hahead⟩
  · exact ⟨_, h⟩

theorem atMappedKey_of_along {passed : List Token} (h : X.Along passed c c')
    (hkey : atMappedKey c = true) : atMappedKey c' = true := by
  have hcheck {passed : List Token} {d d' : Cursor} {kind : Token.Kind} (hd : X.Along passed d d')
      (hkind : kind ≠ .endOfFile) (hcheck : d.check kind = true) :
      d.ahead ≠ [] ∧ d'.check kind = true := by
    have hne : d.ahead ≠ [] := mt hd.file_iff.2 fun hfile =>
      hkind ((Cursor.kind_of_check hcheck).symm.trans hfile)
    exact ⟨hne, (congrArg (·.kind == kind) (hd.token_eq hne)).symm.trans hcheck⟩
  simp only [atMappedKey, Cursor.kindAhead_succ, Cursor.wordAt_succ, Bool.and_eq_true] at hkey ⊢
  obtain ⟨⟨hbracket, hword⟩, hin⟩ := hkey
  obtain ⟨hne, hbracket'⟩ := hcheck h (by decide) hbracket
  obtain ⟨hne', hword'⟩ := hcheck (h.advance hne) (by decide) hword
  have hlater := (h.advance hne).advance hne'
  obtain ⟨hne'', -⟩ := hcheck hlater (by decide)
    (beq_iff_eq.2 (Cursor.kind_of_seesWord hin) : _ = true)
  exact ⟨⟨hbracket', hword'⟩,
    (congrArg (Token.isWord · "in") (hlater.token_eq hne'')).symm.trans hin⟩

/-- A mapped type of the text is one in both runs. -/
theorem startsMappedType_of_near (h : X.Near c c') (hne : c.ahead ≠ [])
    (hmapped : startsMappedType c = true) : startsMappedType c' = true := by
  obtain ⟨passed, halong, -⟩ := h
  rw [startsMappedType_eq] at hmapped ⊢
  have hfinal (d : Cursor) : d.advance.final = d.final := by
    rw [Cursor.advance]
    split <;> rfl
  have hkey : (pastReadonly (pastSign c.advance)).ahead ≠ [] := fun hnil => by
    have hfile : (pastReadonly (pastSign c.advance)).final = X.file := by
      have hc : c.final = X.file := by rw [halong.here]; rfl
      rw [pastReadonly, pastSign]
      split <;> split <;> simp only [hfinal, hc]
    have hbracket := (Bool.and_eq_true_iff.1 (Bool.and_eq_true_iff.1 hmapped).1).1
    rw [Cursor.check, Cursor.kind, Cursor.kindAhead, Cursor.tokenAt, hnil] at hbracket
    have hbracket : ((pastReadonly (pastSign c.advance)).final.kind == .leftBracket) = true :=
      hbracket
    rw [hfile, X.file_kind] at hbracket
    cases hbracket
  have hreadonly : (pastSign c.advance).ahead ≠ [] := by
    rw [pastReadonly] at hkey
    split at hkey
    · exact ahead_ne_nil_of_advance hkey
    · exact hkey
  obtain ⟨_, hsign⟩ := pastSign_along (halong.advance hne) hreadonly
  obtain ⟨_, hread⟩ := pastReadonly_along hsign hkey
  exact atMappedKey_of_along hread hmapped

theorem shape_carries (hg : X.Kin n g g') (h : X.Near c c') (hkind : c.kind = .leftBrace)
    (hmapped : startsMappedType c = false) (hn : c.left ≤ n) :
    Carries (do return TypeNode.shape (← g.typeMembers)) (do
      if startsMappedType c' = true then
        passGroup
        return .verbatim .mapped (← textSince c')
      else return .shape (← g'.typeMembers)) c c' fun _ => X.Meets c.left := by
  have hopens : c.kind.closing? = some .rightBrace := by rw [hkind]; rfl
  have hself : ReadsInside False n c.kind .rightBrace (many g.typeMember) (many g.typeMember) :=
    typeMembers_readsInside hg.self
  have hpair : ReadsInside False n c.kind .rightBrace (many g.typeMember) (many g'.typeMember) :=
    typeMembers_readsInside hg.pair
  have hmembers : Carries g.typeMembers g'.typeMembers c c' fun _ => X.Meets c.left :=
    .require h rfl fun _ => .inside hself hpair False.elim h hopens hn fun _ _ _ hd => .pure hd
  intro type d hrun
  obtain ⟨members, e, hread, hrun⟩ := bind_eq_ok.1 hrun
  have hmapped' : startsMappedType c' = false := by
    obtain ⟨_, _, hrequire, hrest⟩ := bind_eq_ok.1 hread
    obtain ⟨-, rfl⟩ := require_eq_ok hrequire
    obtain ⟨members', z, hmany, hrest⟩ := bind_eq_ok.1 hrest
    obtain ⟨_, _, hrequire, -⟩ := bind_eq_ok.1 hrest
    obtain ⟨F, -, hnear, -⟩ := hself.fenced False.elim h hopens hn hmany (require_eq_ok hrequire).1
    have hnear : F.pairing.near [.endOfFile] c.advance c'.advance := hnear
    rw [startsMappedType_eq, ← atMappedKey_eq (pastReadonly_near (pastSign_near hnear)),
      ← startsMappedType_eq, hmapped]
  rw [if_neg (by simp [hmapped'])]
  have hshape : Carries (do return TypeNode.shape (← g.typeMembers))
      (do return TypeNode.shape (← g'.typeMembers)) c c' fun _ => X.Meets c.left :=
    hmembers.bind fun _ _ _ hd => .pure hd
  exact hshape type d (bind_eq_ok.2 ⟨members, e, hread, hrun⟩)

theorem primaryType_carries (hg : X.Kin n g g') (h : X.Near c c') (hn : c.left ≤ n) :
    Carries g.primaryType g'.primaryType c c' fun _ => X.Meets c.left := by
  by_cases hend : c.ahead = []
  · refine .look ?_
    rw [h.file_iff.2 hend]
    exact .vacuous fun _ _ hrun => by cases hrun
  refine .look ?_
  rw [← h.kind_eq hend]
  split
  next hparen =>
    exact .advance <| .inside (type_readsInside hg.self) (type_readsInside hg.pair) False.elim h
      (by rw [hparen]; rfl) hn fun _ _ _ hd => .pure hd
  next hbrace =>
    cases hmapped : startsMappedType c with
    | true =>
        rw [startsMappedType_of_near h hend hmapped]
        exact (passGroup_carries h).bind fun _ _ _ hd => .textSince _ h hd.near fun _ => hd
    | false => exact shape_carries hg h hbrace hmapped hn
  next hbracket =>
    exact .require h rfl fun _ => .inside (tupleElements_readsInside hg.self)
      (tupleElements_readsInside hg.pair) False.elim h
        (by rw [hbracket]; rfl) hn fun _ _ _ hd => .pure hd
  next hstring =>
    exact (Carries.takeString h (by rw [hstring]; rfl) (by rw [hstring]; rfl)).bind
      fun _ _ _ hd => .pure hd
  next htemplate =>
    have hnext := h.takes htemplate rfl
    have hends := hnext.meets (by rw [htemplate]; rfl)
    exact .advance (.textSince _ h hnext.near fun _ => hends)
  next hnumber =>
    exact (Carries.takeText h (by rw [hnumber]; rfl) (by rw [hnumber]; rfl)).bind
      fun _ _ _ hd => .pure hd
  next hword => exact namedType_carries hg h hword hn
  next =>
    have hminus : (c.kind == .minus && c.kindAhead 1 == .number) =
        (c.kind == .minus && c'.kindAhead 1 == .number) :=
      and_eq_and rfl fun _ => Near.kindAhead_eq h hend rfl
    refine .cond hminus (fun hyes => ?_) fun _ => .fail
    obtain ⟨hkind, hnumber⟩ := Bool.and_eq_true_iff.1 hyes
    rw [Cursor.kindAhead_succ, beq_iff_eq] at hnumber
    have hnumber : c.advance.kind = .number := hnumber
    have hnext := h.takes (eq_of_beq hkind) rfl
    have hleft := hnext.left
    exact .advance <|
      (Carries.takeText hnext.near (by rw [hnumber]; rfl) (by rw [hnumber]; rfl)).bind
      fun _ _ _ hd => .pure (hd.mono (by omega))

theorem typeSuffix_carries (hg : X.Kin n g g') (hs : X.Near s s') (h : X.Meets m c c')
    (hn : c.left ≤ n) (type : TypeNode) :
    Carries (g.typeSuffix s type) (g'.typeSuffix s' type) c c' fun _ => X.Meets m := by
  have hbracket : (c.check .leftBracket && !c.newlineBefore) =
      (c'.check .leftBracket && !c'.newlineBefore) := by
    refine and_eq_and (h.near.check_eq rfl) fun hbracket => ?_
    have hne := h.near.stands (by rw [Cursor.kind_of_check hbracket]; decide)
    exact congrArg (fun t => !Token.newlineBefore t) (h.near.token_eq hne)
  refine .look <| .cond hbracket (fun hyes => .advance ?_) fun _ => .pure h
  have hkind := Cursor.kind_of_check (Bool.and_eq_true_iff.1 hyes).1
  have hopens : c.kind.closing? = some .rightBracket := by rw [hkind]; rfl
  have hle := Nat.le_of_lt h.left
  have hne := h.near.stands (by rw [hkind]; decide)
  have hclosing : c.advance.check .rightBracket = c'.advance.check .rightBracket := by
    rw [Cursor.check, Cursor.check, Cursor.kind, Cursor.kind, ← Cursor.kindAhead_succ,
      ← Cursor.kindAhead_succ]
    exact Near.kindAhead_eq h.near hne rfl
  refine .takeKind hclosing
    (fun hclose => .pure ((h.near.closed hopens hclose).mono hle)) fun _ => ?_
  exact .inside (type_readsInside hg.self) (type_readsInside hg.pair) False.elim h.near hopens hn
    fun _ d d' hd => .textSince _ hs hd.near fun _ => hd.mono hle

/-- Where a type starts with the last token of the text, the token behind it does not go on with it.
-/
theorem bindsNext_of_starts (h : X.Near c c') (hstarts : X.Starts c) (hne : c.ahead ≠ [])
    (hend : c.advance.ahead = []) :
    ((c.token.isWord "infer" && X.next.kind == .word) ||
      (c.token.isWord "abstract" && X.next.isWord "new")) = false := by
  have hsettled := h.settled hne hend
  have hleads : c.before.elim X.alone Token.leadsType = true := by
    refine hstarts.resolve_left fun hle => ?_
    have hleft := Cursor.advance_left hne
    have hzero : c.advance.left = 0 := congrArg List.length hend
    omega
  rw [Token.bindsNext, hleads, Bool.or_eq_false_iff, Bool.or_eq_false_iff] at hsettled
  exact hsettled.1.1

theorem operandType_stands (hg : X.Kin n g g') (h : X.Near c c') (hn : c.left < n) {type : TypeNode}
    (hrun : g.operandType c = .ok (type, d)) : c.ahead ≠ [] := by
  obtain ⟨_, _, -, -, hlt, -⟩ :=
    ((hg.self X.brackets).operandType h.brackets trivial hn).outcome hrun
  exact List.length_pos_iff.1 (Nat.zero_lt_of_lt hlt)

theorem kindAhead_one_eq (h : X.Next c c') (hend : c.advance.ahead ≠ []) :
    c.kindAhead 1 = c'.kindAhead 1 := by
  rw [Cursor.kindAhead_succ, Cursor.kindAhead_succ]
  exact h.near.kind_eq hend

/-- An `infer` binds a name in both runs, or in none. -/
theorem infer_ahead_eq (h : X.Near c c') (hstarts : X.Starts c) (hne : c.ahead ≠ []) :
    (c.seesWord "infer" && c.kindAhead 1 == .word) =
      (c'.seesWord "infer" && c'.kindAhead 1 == .word) := by
  refine and_eq_and (h.seesWord_eq hne _) fun hsees => ?_
  refine (h.next_word (Cursor.kind_of_seesWord hsees)).word_ahead_eq fun hend hword => ?_
  have hbinds := (Bool.or_eq_false_iff.1 (bindsNext_of_starts h hstarts hne hend)).1
  have hsees : c.token.isWord "infer" = true := hsees
  rw [hsees, hword] at hbinds
  cases hbinds

theorem operandTypeRule_carries (hg : X.Kin n g g') (h : X.Near c c') (hstarts : X.Starts c)
    (hn : c.left ≤ n) :
    Carries g.operandTypeRule g'.operandTypeRule c c' fun _ => X.Meets c.left := by
  refine .consumes h
    (operandTypeRule_agrees (hg.self _) h.brackets trivial hn) fun hne _ => .look ?_
  by_cases hbare : c.seesAnyWord ["keyof", "unique", "readonly"] = true ∧ c.advance.ahead = []
  · -- the operand is missing
    obtain ⟨hsees, hend⟩ := hbare
    have hnext := h.next_word (Cursor.kind_of_seesAnyWord hsees)
    have hleft := hnext.left
    have hfile : c.kindAhead 1 = .endOfFile := by
      rw [Cursor.kindAhead_succ]
      exact hnext.near.file_iff.2 hend
    refine .vacuous fun type d hrun => ?_
    rw [if_pos (by rw [hsees, hfile]; rfl)] at hrun
    obtain ⟨_, _, hadvance, hrun⟩ := bind_eq_ok.1 hrun
    cases hadvance
    obtain ⟨_, _, hoperand, -⟩ := bind_eq_ok.1 hrun
    exact operandType_stands hg hnext.near (by omega) hoperand hend
  have hoperator : (c.seesAnyWord ["keyof", "unique", "readonly"] && !endsOperand (c.kindAhead 1)) =
      (c'.seesAnyWord ["keyof", "unique", "readonly"] && !endsOperand (c'.kindAhead 1)) :=
    and_eq_and (h.seesAnyWord_eq hne _) fun hsees => congrArg (!endsOperand ·) <|
      kindAhead_one_eq (h.next_word (Cursor.kind_of_seesAnyWord hsees))
        fun hend => hbare ⟨hsees, hend⟩
  refine .cond hoperator (fun hyes => ?_) fun _ =>
    .cond (infer_ahead_eq h hstarts hne) (fun hyes => ?_) fun _ => ?_
  · have hsees := (Bool.and_eq_true_iff.1 hyes).1
    have hnext := h.next_word (Cursor.kind_of_seesAnyWord hsees)
    have hleft := hnext.left
    have hstarts : X.Starts c.advance := by
      have hleads : ∀ word ∈ ["keyof", "unique", "readonly"], ["extends", "is", "as", "satisfies",
        "keyof", "unique", "readonly"].contains word = true := by decide
      obtain ⟨word, hmem, hword⟩ := List.any_eq_true.1 hsees
      exact hnext.starts_word hword (hleads word hmem)
    refine .advance <| (hg.operandType hnext.near hstarts (by omega)).bind fun inner d d' hd => ?_
    have hends : X.Meets c.left d d' := hd.mono (by omega)
    exact .cond (by rw [h.seesWord_eq hne]) (fun _ => .pure hends)
      fun _ => .textSince _ h hd.near fun _ => hends
  · obtain ⟨hsees, hword⟩ := Bool.and_eq_true_iff.1 hyes
    rw [Cursor.kindAhead_succ, beq_iff_eq] at hword
    have hword : c.advance.kind = .word := hword
    have hnext := h.next_word (Cursor.kind_of_seesWord hsees)
    have hleft := hnext.left
    have hends := (hnext.near.next_word hword).meets (by rw [hword]; rfl)
    exact .advance <| .advance <| .textSince _ h hends.near fun _ => hends.mono (by omega)
  · refine (primaryType_carries hg h hn).bind fun type d d' hd => ?_
    refine iterate_carries (N := X.Meets c.left) (E := X.Meets c.left) hd.near
      (fun type e e' he => ?_) type hd
    have hlt := he.left
    exact (typeSuffix_carries hg h he (by omega) type).mono fun o z z' hz => by cases o <;> exact hz

theorem intersectionType_carries (hg : X.Kin n g g') (h : X.Near c c') (hstarts : X.Starts c)
    (hn : c.left ≤ n) :
    Carries g.intersectionType g'.intersectionType c c' fun _ => X.Meets c.left := by
  have hoperands : ∀ d d', X.Near d d' → X.Starts d → d.left ≤ c.left →
      Carries (do return joined .intersection (← separated .ampersand g.operandTypeRule))
        (do return joined .intersection (← separated .ampersand g'.operandTypeRule)) d d'
        fun _ => X.Meets c.left := fun d d' hd hstarts hle =>
    (separated_carries (I := X.Starts) rfl rfl hd hstarts
      (fun _ _ he hsep => he.starts_kind hsep rfl) fun e e' he hI hle' =>
        operandTypeRule_carries hg he hI (by omega)).bind fun _ _ _ he => .pure (he.mono hle)
  refine .takeKind (h.check_eq rfl) (fun hsign => ?_) fun _ => hoperands _ _ h hstarts
    (Nat.le_refl _)
  have hnext := h.takes hsign rfl
  have hleft := hnext.left
  exact hoperands _ _ hnext.near (hnext.starts_kind hsign rfl) (by omega)

theorem unionType_carries (hg : X.Kin n g g') (h : X.Near c c') (hstarts : X.Starts c)
    (hn : c.left ≤ n) :
    Carries g.unionType g'.unionType c c' fun _ => X.Meets c.left := by
  have harms : ∀ d d', X.Near d d' → X.Starts d → d.left ≤ c.left →
      Carries (do return joined .union (← separated .pipe g.intersectionType))
        (do return joined .union (← separated .pipe g'.intersectionType)) d d'
        fun _ => X.Meets c.left := fun d d' hd hstarts hle =>
    (separated_carries (I := X.Starts) rfl rfl hd hstarts
      (fun _ _ he hsep => he.starts_kind hsep rfl) fun e e' he hI hle' =>
        intersectionType_carries hg he hI (by omega)).bind fun _ _ _ he => .pure (he.mono hle)
  refine .takeKind (h.check_eq rfl) (fun hsign => ?_) fun _ => harms _ _ h hstarts (Nat.le_refl _)
  have hnext := h.takes hsign rfl
  have hleft := hnext.left
  exact harms _ _ hnext.near (hnext.starts_kind hsign rfl) (by omega)

theorem typeParamWordRound_eq (c : Cursor) : typeParamWordRound c =
    if c.seesAnyWord ["const", "in", "out"] && c.kindAhead 1 == .word then .ok (true, c.advance)
    else .ok (false, c) := by
  show (if _ then _ else _ : Parser Bool) c = _
  split <;> rfl

/-- The words in front of the name of a type parameter, when more than the name follows in the text.
-/
theorem typeParamWords_carries (h : X.Near c c') (hleft : 2 ≤ d.left)
    (hrun : skipWhile typeParamWordRound c = .ok ((), d)) :
    ∃ d', skipWhile typeParamWordRound c' = .ok ((), d') ∧ X.Near d d' ∧ d.left ≤ c.left := by
  refine skipWhile_carries_to (N := fun e e' => X.Near e e' ∧ e.left ≤ c.left)
    (E := fun e e' => X.Near e e' ∧ e.left ≤ c.left) (G := fun e => 2 ≤ e.left) h
    (fun e e' ⟨he, hle⟩ more z hround hend => ?_) ⟨h, Nat.le_refl _⟩ hleft hrun
  rw [typeParamWordRound_eq] at hround ⊢
  have htest (hlefte : 2 ≤ e.left) :
      (e.seesAnyWord ["const", "in", "out"] && e.kindAhead 1 == .word) =
        (e'.seesAnyWord ["const", "in", "out"] && e'.kindAhead 1 == .word) := by
    have hne : e.ahead ≠ [] := List.length_pos_iff.1 (Nat.zero_lt_of_lt hlefte)
    refine and_eq_and (he.seesAnyWord_eq hne _) fun hsees => congrArg (· == Token.Kind.word) ?_
    have hnext := he.next_word (Cursor.kind_of_seesAnyWord hsees)
    have hleft := hnext.left
    exact kindAhead_one_eq hnext (List.length_pos_iff.1 (by rw [← Cursor.left]; omega))
  split at hround
  next hyes =>
    obtain ⟨rfl, rfl⟩ := Prod.mk.inj (Except.ok.inj hround)
    obtain ⟨hsees, hword⟩ := Bool.and_eq_true_iff.1 hyes
    rw [Cursor.kindAhead_succ, beq_iff_eq] at hword
    have hnext := he.next_word (Cursor.kind_of_seesAnyWord hsees)
    have hleft := hnext.left
    have hnext' := hnext.near.next_word hword
    have hleft' := hnext'.left
    rw [← htest (by omega), if_pos hyes]
    exact ⟨_, rfl, hnext.near, by omega⟩
  next hno =>
    obtain ⟨rfl, rfl⟩ := Prod.mk.inj (Except.ok.inj hround)
    rw [← htest (hend rfl), if_neg hno]
    exact ⟨_, rfl, he, hle⟩

theorem fallback_carries (hg : X.Kin n g g') (h : X.Near c c') (hn : c.left ≤ n)
    (hend : d.kind ≠ .endOfFile) {fallback : Option TypeNode}
    (hrun : after .equals g.type c = .ok (fallback, d)) :
    ∃ d', after .equals g'.type c' = .ok (fallback, d') ∧ X.Near d d' ∧ d.left ≤ c.left := by
  obtain ⟨more, e, htake, hrun⟩ := bind_eq_ok.1 hrun
  have hequals : c.check .equals = c'.check .equals := h.check_eq rfl
  cases hcheck : c.check .equals with
  | false =>
      have hstays {c : Cursor} (hcheck : c.check .equals = false) :
          takeKind .equals c = .ok (false, c) := if_neg (by simp [hcheck])
      rw [hstays hcheck] at htake
      obtain ⟨rfl, rfl⟩ := Prod.mk.inj (Except.ok.inj htake)
      obtain ⟨rfl, rfl⟩ := Prod.mk.inj (Except.ok.inj hrun)
      exact ⟨c', bind_eq_ok.2 ⟨false, c', hstays (hequals ▸ hcheck), rfl⟩, h, Nat.le_refl _⟩
  | true =>
      have htakes {c : Cursor} (hcheck : c.check .equals = true) :
          takeKind .equals c = .ok (true, c.advance) := if_pos hcheck
      rw [htakes hcheck] at htake
      obtain ⟨rfl, rfl⟩ := Prod.mk.inj (Except.ok.inj htake)
      obtain ⟨type, z, htype, hrun⟩ := bind_eq_ok.1 hrun
      obtain ⟨rfl, rfl⟩ := Prod.mk.inj (Except.ok.inj hrun)
      have hnext := h.takes (Cursor.kind_of_check hcheck) rfl
      have hleft := hnext.left
      -- the type has a token of its own, and one is left behind it
      obtain ⟨_, _, -, hnear, hlt, -⟩ :=
        ((hg.self X.brackets).type hnext.near.brackets trivial (by omega)).outcome htype
      have hpos : 0 < z.left := List.length_pos_iff.2 (mt (X.brackets.file_iff hnear).2 hend)
      obtain ⟨d', htype', hd⟩ := hg.type hnext.near (.inl (by omega)) (by omega) type z htype
      have hltz := hd.left
      exact ⟨d', bind_eq_ok.2 ⟨true, _, htakes (hequals ▸ hcheck),
        bind_eq_ok.2 ⟨type, d', htype', rfl⟩⟩, hd.near, by omega⟩

theorem Near.extends_eq (h : X.Near c c') : c.seesWord "extends" = c'.seesWord "extends" := by
  by_cases hend : c.ahead = []
  · obtain ⟨passed, halong, -⟩ := h
    obtain ⟨hfile, hnext⟩ := halong.kind_end hend
    have hnext : c'.seesWord "extends" = false :=
      (congrArg (Token.isWord · "extends") hnext).trans X.next_not_extends
    rw [hnext, Cursor.isWord_token, hfile]
    rfl
  · exact h.seesWord_eq hend _

theorem namedTypeParam_carries (hg : X.Kin n g g') (h : X.Near c c') (hn : c.left ≤ n)
    (hend : d.kind ≠ .endOfFile) {p : TypeParam} (hrun : g.namedTypeParam c = .ok (p, d)) :
    ∃ d', g'.namedTypeParam c' = .ok (p, d') ∧ X.Near d d' ∧ d.left ≤ c.left := by
  obtain ⟨name, e, hname, hrun⟩ := bind_eq_ok.1 hrun
  obtain ⟨e', hname', he⟩ := Carries.word h name e hname
  have hlt := he.left
  have hrest : ∀ constraint z z', X.Near z z' → z.left ≤ e.left →
      (do
        let fallback ← after .equals g.type
        return (⟨name, constraint, fallback⟩ : TypeParam)) z =
        .ok (p, d) → ∃ d', (do
          let fallback ← after .equals g'.type
          return (⟨name, constraint, fallback⟩ : TypeParam)) z' = .ok (p, d') ∧
        X.Near d d' ∧ d.left ≤ c.left := by
    intro constraint z z' hz hle hrun
    obtain ⟨fallback, u, hfallback, hrun⟩ := bind_eq_ok.1 hrun
    obtain ⟨rfl, rfl⟩ := Prod.mk.inj (Except.ok.inj hrun)
    obtain ⟨d', hfallback', hd, hled⟩ := fallback_carries hg hz (by omega) hend hfallback
    exact ⟨d', bind_eq_ok.2 ⟨fallback, d', hfallback', rfl⟩, hd, by omega⟩
  obtain ⟨more, z, htake, hrun⟩ := bind_eq_ok.1 hrun
  have hextends := Near.extends_eq he.near
  cases hsees : e.seesWord "extends" with
  | false =>
      have hstays {c : Cursor} (hsees : c.seesWord "extends" = false) :
          takeWord "extends" c = .ok (false, c) := if_neg (by simp [hsees])
      rw [hstays hsees] at htake
      obtain ⟨rfl, rfl⟩ := Prod.mk.inj (Except.ok.inj htake)
      obtain ⟨d', hrun', hd⟩ := hrest none e e' he.near (Nat.le_refl _) hrun
      exact ⟨d', bind_eq_ok.2 ⟨name, e', hname',
        bind_eq_ok.2 ⟨false, e', hstays (hextends ▸ hsees), hrun'⟩⟩, hd⟩
  | true =>
      have htakes {c : Cursor} (hsees : c.seesWord "extends" = true) :
          takeWord "extends" c = .ok (true, c.advance) := if_pos hsees
      rw [htakes hsees] at htake
      obtain ⟨rfl, rfl⟩ := Prod.mk.inj (Except.ok.inj htake)
      have hnext := he.near.next_word (Cursor.kind_of_seesWord hsees)
      have hleft := hnext.left
      obtain ⟨constraint, z, hconstraint, hrun⟩ := bind_eq_ok.1 hrun
      have hcarries : Carries (some <$> g.type) (some <$> g'.type) e.advance e'.advance
          fun _ z z' => X.Near z z' ∧ z.left ≤ e.left :=
        (hg.type hnext.near (hnext.starts_word hsees rfl) (by omega)).map fun _ z z' hz =>
          ⟨hz.near, by have hlt := hz.left; omega⟩
      obtain ⟨z', hconstraint', hz, hle⟩ := hcarries constraint z hconstraint
      obtain ⟨d', hrun', hd⟩ := hrest constraint z z' hz hle hrun
      exact ⟨d', bind_eq_ok.2 ⟨name, e', hname', bind_eq_ok.2 ⟨true, _, htakes (hextends ▸ hsees),
        bind_eq_ok.2 ⟨constraint, z', hconstraint', hrun'⟩⟩⟩, hd⟩

/-- A type parameter with something of the text behind it. -/
theorem typeParam_carries (hg : X.Kin n g g') (h : X.Near c c') (hn : c.left ≤ n)
    (hend : d.kind ≠ .endOfFile) {p : TypeParam} (hrun : g.typeParam c = .ok (p, d)) :
    ∃ d', g'.typeParam c' = .ok (p, d') ∧ X.Near d d' ∧ d.left ≤ c.left := by
  obtain ⟨_, e, hwords, hrun⟩ := bind_eq_ok.1 hrun
  obtain ⟨_, _, -, hnear, hle, -⟩ := (skipWhile_agrees (P := X.brackets) h.brackets
    fun _ _ hd _ => typeParamWordRound_agrees hd).outcome hwords
  obtain ⟨_, _, -, hneard, hlt, -⟩ :=
    (namedTypeParam_agrees (hg.self X.brackets) hnear (by omega)).outcome hrun
  have hpos : 0 < d.left := List.length_pos_iff.2 (mt (X.brackets.file_iff hneard).2 hend)
  obtain ⟨e', hwords', he, hlee⟩ := typeParamWords_carries h (by omega) hwords
  obtain ⟨d', hrun', hd, hled⟩ := namedTypeParam_carries hg he (by omega) hend hrun
  exact ⟨d', bind_eq_ok.2 ⟨(), e', hwords', hrun'⟩, hd, by omega⟩

theorem typeParams_carries (hg : X.Kin n g g') (h : X.Near c c') (hn : c.left ≤ n) :
    Carries g.typeParams g'.typeParams c c' fun _ d d' => X.Near d d' ∧ d.left ≤ c.left := by
  refine .takeKind (h.check_eq rfl) (fun hless => ?_) fun _ => .pure ⟨h, Nat.le_refl _⟩
  have hnext := h.takes hless rfl
  have hleft := hnext.left
  refine .commaList (I := fun _ => True) hnext.near trivial rfl rfl (fun _ _ _ _ => trivial)
    (fun d d' hd _ hle p e hp hend => typeParam_carries hg hd (by omega) hend hp)
    fun params d d' hd _ hle => .pure ⟨hd.near, ?_⟩
  have hled := hd.left
  omega

theorem params_carries (hg : X.Kin n g g') (h : X.Near c c') (hn : c.left ≤ n) :
    Carries g.params g'.params c c' fun _ => X.Meets c.left :=
  .require h rfl fun hparen => .inside (params_readsInside hg.self)
    (params_readsInside hg.pair) False.elim h
    (by rw [hparen]; rfl) hn fun _ _ _ hd => .pure hd

/-- The token behind the text does not make a predicate of a type that ends in a word. -/
theorem bindsNext_is (h : X.Near c c') (hne : c.ahead ≠ []) (hend : c.advance.ahead = [])
    (hkind : c.kind = .word)
    (hbefore : c.before.any (fun t => t.kind == .arrow || t.isWord "asserts") = true) :
    X.next.isWord "is" = false := by
  have hsettled := (Bool.or_eq_false_iff.1 (h.settled hne hend)).2
  have hkind : c.token.kind = .word := hkind
  rw [hbefore, hkind] at hsettled
  exact hsettled

theorem asserts_ahead_eq (h : X.Near c c') (harrow : c.before.any (·.kind == .arrow) = true)
    (hne : c.ahead ≠ []) :
    (c.seesWord "asserts" && c.kindAhead 1 == .word) =
      (c'.seesWord "asserts" && c'.kindAhead 1 == .word) := by
  refine and_eq_and (h.seesWord_eq hne _) fun hsees => ?_
  refine (h.next_word (Cursor.kind_of_seesWord hsees)).word_ahead_eq fun hend hword => ?_
  have hsettled := (Bool.or_eq_false_iff.1 (Bool.or_eq_false_iff.1 (h.settled hne hend)).1).2
  have hsees : c.token.isWord "asserts" = true := hsees
  rw [harrow, hsees, hword] at hsettled
  cases hsettled

theorem is_ahead_eq (h : X.Near c c') (harrow : c.before.any (·.kind == .arrow) = true)
    (hne : c.ahead ≠ []) :
    (c.check .word && c.wordAt 1 "is") = (c'.check .word && c'.wordAt 1 "is") := by
  refine and_eq_and (congrArg (·.kind == Token.Kind.word) (h.token_eq hne)) fun hword => ?_
  have hkind := Cursor.kind_of_check hword
  refine (h.next_word hkind).wordAt_eq fun hend => bindsNext_is h hne hend hkind ?_
  cases hbefore : c.before with
  | none => rw [hbefore] at harrow; cases harrow
  | some t =>
      rw [hbefore] at harrow
      exact Bool.or_eq_true_iff.2 (.inl harrow)

/-- Behind the name that `asserts` is about. -/
theorem asserted_eq (h : X.Next c c') (hsees : c.seesWord "asserts" = true)
    (hword : c.advance.kind = .word) :
    c.advance.advance.seesWord "is" = c'.advance.advance.seesWord "is" := by
  have hne : c.advance.ahead ≠ [] := h.near.stands (by rw [hword]; decide)
  rw [Cursor.seesWord, Cursor.seesWord, ← Cursor.wordAt_succ c.advance 0,
    ← Cursor.wordAt_succ c'.advance 0]
  refine (h.near.next_word hword).wordAt_eq fun hend => bindsNext_is h.near hne hend hword ?_
  rw [h.before]
  exact Bool.or_eq_true_iff.2 (.inr hsees)

theorem returnType_carries (hg : X.Kin n g g') (h : X.Near c c')
    (harrow : c.before.any (·.kind == .arrow) = true) (hn : c.left < n) :
    Carries g.returnType g'.returnType c c' fun _ => X.Meets c.left := by
  refine .consumes h (returnType_agrees (hg.self _) h.brackets trivial hn) fun hne _ => .look ?_
  have hstarts : X.Starts c := by
    refine .inr ?_
    cases hbefore : c.before with
    | none => rw [hbefore] at harrow; cases harrow
    | some t =>
        rw [hbefore] at harrow
        have hkind : t.kind = .arrow := eq_of_beq harrow
        simp [Token.leadsType, hkind]
  -- a type behind `is` ends the predicate
  have hpredicate : ∀ d d', X.Near d d' → d.left < c.left → d.seesWord "is" = true → Carries (do
      let _ ← g.type
      return TypeNode.verbatim .predicate (← textSince c)) (do
      let _ ← g'.type
      return TypeNode.verbatim .predicate (← textSince c')) d.advance d'.advance
        fun _ => X.Meets c.left := by
    intro d d' hd hlt his
    have hnext := hd.next_word (Cursor.kind_of_seesWord his)
    have hleft := hnext.left
    exact (hg.type hnext.near (hnext.starts_word his rfl) (by omega)).bind fun _ z z' hz =>
      .textSince _ h hz.near fun _ => hz.mono (by omega)
  refine .cond (asserts_ahead_eq h harrow hne) (fun hyes => ?_) fun _ =>
    .cond (is_ahead_eq h harrow hne) (fun hyes => ?_) fun _ => hg.type h hstarts hn
  · obtain ⟨hsees, hword⟩ := Bool.and_eq_true_iff.1 hyes
    rw [Cursor.kindAhead_succ, beq_iff_eq] at hword
    have hword : c.advance.kind = .word := hword
    have hnext := h.next_word (Cursor.kind_of_seesWord hsees)
    have hleft := hnext.left
    have hnext' := hnext.near.next_word hword
    have hleft' := hnext'.left
    have hends := (hnext'.meets (by rw [hword]; rfl)).mono (Nat.le_of_lt (by omega : _ < c.left))
    refine .advance <| .advance <| .takeWord (asserted_eq hnext hsees hword) (fun his => ?_)
      fun _ => .textSince _ h hends.near fun _ => hends
    exact hpredicate _ _ hends.near hends.left his
  · obtain ⟨hword, his⟩ := Bool.and_eq_true_iff.1 hyes
    rw [Cursor.wordAt_succ] at his
    have hnext := h.next_word (Cursor.kind_of_check hword)
    have hleft := hnext.left
    exact .advance <| .advance <| hpredicate _ _ hnext.near (by omega) his

theorem functionType_carries (hg : X.Kin n g g') (hs : X.Near s s') (h : X.Near c c')
    (hn : c.left ≤ n) (kind : VerbatimKind) :
    Carries (g.functionType s kind) (g'.functionType s' kind) c c' fun _ => X.Meets c.left := by
  refine (typeParams_carries hg h hn).bind fun _ d d' ⟨hd, hle⟩ => ?_
  refine (params_carries hg hd (by omega)).bind fun _ e e' he => ?_
  have hlt := he.left
  refine .require he.near rfl fun harrow => ?_
  have hnext := he.near.takes harrow rfl
  have hleft := hnext.left
  refine (returnType_carries hg hnext.near ?_ (by omega)).bind fun _ z z' hz => ?_
  · rw [hnext.before]
    exact beq_iff_eq.2 harrow
  · exact .textSince _ hs hz.near fun _ => hz.mono (by omega)

/-- An `abstract` stands in front of a `new` in both runs, or in none. -/
theorem abstract_ahead_eq (h : X.Near c c') (hstarts : X.Starts c) (hne : c.ahead ≠ []) :
    (c.seesWord "abstract" && c.wordAt 1 "new") =
        (c'.seesWord "abstract" && c'.wordAt 1 "new") := by
  refine and_eq_and (h.seesWord_eq hne _) fun hsees => ?_
  refine (h.next_word (Cursor.kind_of_seesWord hsees)).wordAt_eq fun hend => ?_
  have hbinds := (Bool.or_eq_false_iff.1 (bindsNext_of_starts h hstarts hne hend)).2
  have hsees : c.token.isWord "abstract" = true := hsees
  rwa [hsees, Bool.true_and] at hbinds

theorem typeRule_carries (hg : X.Kin n g g') (h : X.Near c c') (hstarts : X.Starts c)
    (hn : c.left ≤ n) : Carries g.typeRule g'.typeRule c c' fun _ => X.Meets c.left := by
  refine .consumes h (typeRule_agrees (hg.self _) h.brackets trivial hn)
    fun hne harrow => .look ?_
  refine .cond (or_eq_or (h.check_eq rfl) harrow) (fun _ => functionType_carries hg h h hn _)
    fun _ => .cond (or_eq_or (h.seesWord_eq hne _) (abstract_ahead_eq h hstarts hne))
      (fun hyes => ?_) fun _ => ?_
  · have hconstructor : ∀ d d', X.Near d d' → d.left ≤ c.left → d.seesWord "new" = true →
        Carries (do advance; g.functionType c .constructor)
          (do advance; g'.functionType c' .constructor) d d' fun _ => X.Meets c.left := by
      intro d d' hd hle hnew
      have hnext := hd.next_word (Cursor.kind_of_seesWord hnew)
      have hleft := hnext.left
      exact .advance <| (functionType_carries hg h hnext.near (by omega) _).mono
        fun _ _ _ he => he.mono (by omega)
    refine .takeWord (h.seesWord_eq hne _) (fun habstract => ?_) fun hother => ?_
    · have hnext := h.next_word (Cursor.kind_of_seesWord habstract)
      have hleft := hnext.left
      refine hconstructor _ _ hnext.near (by omega) ?_
      have hold : c.seesWord "new" = false := by
        rw [Cursor.isWord_token, Cursor.text_of_seesWord habstract]
        exact Bool.and_false _
      rw [hold, Bool.false_or, Cursor.wordAt_succ] at hyes
      exact (Bool.and_eq_true_iff.1 hyes).2
    · rw [hother, Bool.false_and, Bool.or_false] at hyes
      exact hconstructor _ _ h (Nat.le_refl _) hyes
  · refine (unionType_carries hg h hstarts hn).bind fun type d d' hd => ?_
    have hlt := hd.left
    refine .takeWord (Near.extends_eq hd.near) (fun hextends => ?_) fun _ => .pure hd
    have hnext := hd.near.next_word (Cursor.kind_of_seesWord hextends)
    have hleft := hnext.left
    refine (unionType_carries hg hnext.near (hnext.starts_word hextends rfl) (by omega)).bind
      fun _ e e' he => ?_
    have hlte := he.left
    refine .require he.near rfl fun hquestion => ?_
    have hnext' := he.near.takes hquestion rfl
    have hleft' := hnext'.left
    refine (hg.type hnext'.near (hnext'.starts_kind hquestion rfl) (by omega)).bind
      fun _ z z' hz => ?_
    have hltz := hz.left
    refine .require hz.near rfl fun hcolon => ?_
    have hnext'' := hz.near.takes hcolon rfl
    have hleft'' := hnext''.left
    refine (hg.type hnext''.near (hnext''.starts_kind hcolon rfl) (by omega)).bind
      fun _ u u' hu => ?_
    exact .textSince _ h hu.near fun _ => hu.mono (by omega)

/-- What types are read alike at any depth of nesting. -/
theorem withLevels_carries {levels levels' : Nat} (hn : n ≤ levels) (hn' : n ≤ levels') :
    X.Kin n (withLevels levels) (withLevels levels') := by
  induction n generalizing levels levels' with
  | zero =>
      exact ⟨fun P => withLevels_kin P hn hn, fun P => withLevels_kin P hn hn',
        fun _ _ h => absurd h (Nat.not_lt_zero _), fun _ _ h => absurd h (Nat.not_lt_zero _)⟩
  | succ n ih =>
      obtain ⟨levels, rfl⟩ := Nat.exists_eq_add_one_of_ne_zero (Nat.ne_zero_of_lt hn)
      obtain ⟨levels', rfl⟩ := Nat.exists_eq_add_one_of_ne_zero (Nat.ne_zero_of_lt hn')
      have hkin := ih (Nat.le_of_succ_le_succ hn) (Nat.le_of_succ_le_succ hn')
      exact ⟨fun P => withLevels_kin P hn hn, fun P => withLevels_kin P hn hn',
        fun h hstarts hlt => typeRule_carries hkin h hstarts (Nat.le_of_lt_succ hlt),
        fun h hstarts hlt => operandTypeRule_carries hkin h hstarts (Nat.le_of_lt_succ hlt)⟩

end Grammar

end HandlerWeave.Source
