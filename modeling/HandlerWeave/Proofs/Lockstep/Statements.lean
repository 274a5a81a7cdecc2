import HandlerWeave.Proofs.Lockstep.Declarations
import HandlerWeave.Proofs.Source.Size

/-!
Paired runs of statements. The braces of classes, interfaces, enumerations and imports are read
token by token. Where such a brace is a hole, nothing is said of the second run, and the first one
does not come back from behind it.
-/
namespace HandlerWeave.Source

open Source.Parser Pairing

variable {P : Pairing} {α β : Type} {n m : Nat} {g g' : Grammar} {σ τ : List Token.Kind}
  {c c' d d' s s' : Cursor}

/-- An outcome behind a hole: a failure, or a place with fewer tokens ahead than the hole has. -/
def Pairing.Lost (P : Pairing) (outcome : Except SyntaxError (α × Cursor)) : Prop :=
  ∃ hole, P.hole hole ∧ ∀ a d, outcome = .ok (a, d) → d.left < hole.left

/-- Both runs end alike, unless the first one has been lost in a hole. -/
def Follows (P : Pairing) (p p' : Parser α) (c c' : Cursor)
    (Q : α → α → Cursor → Cursor → Prop) : Prop :=
  P.Lost (p c) ∨ Agree P.faults p p' c c' Q

namespace Follows

variable {p p' q q' : Parser α} {f f' : α → Parser β} {Q R : α → α → Cursor → Cursor → Prop}
  {S : β → β → Cursor → Cursor → Prop}

theorem mono (h : Follows P p p' c c' Q) (hQR : ∀ a a' d d', Q a a' d d' → R a a' d d') :
    Follows P p p' c c' R := h.imp_right fun h => h.mono hQR

theorem bind (hp : Agree P.faults p p' c c' Q)
    (hf : ∀ a a' d d', Q a a' d d' → Follows P (f a) (f' a') d d' S) :
    Follows P (p >>= f) (p' >>= f') c c' S := by
  have hbind (p : Parser α) (f : α → Parser β) (c : Cursor) :
      (p >>= f) c = p c >>= fun x => f x.1 x.2 := rfl
  unfold Agree at hp
  rw [Follows, Agree, hbind, hbind]
  split at hp
  next h h' =>
    rw [h, h']
    exact hf _ _ _ _ hp
  next h h' =>
    rw [h, h']
    exact .inr hp
  · exact hp.elim

theorem map {g g' : α → β} (hp : Follows P p p' c c' Q)
    (h : ∀ a a' d d', Q a a' d d' → S (g a) (g' a') d d') :
    Follows P (do return g (← p)) (do return g' (← p')) c c' S := by
  obtain ⟨hole, hhole, hlost⟩ | hp := hp
  · refine .inl ⟨hole, hhole, fun b d hok => ?_⟩
    obtain ⟨a, e, ha, hb⟩ := Parser.bind_eq_ok.1 hok
    cases hb
    exact hlost a _ ha
  · exact .inr (hp.bind fun a a' d d' hd => .pure (h a a' d d' hd))

theorem look {f f' : Cursor → Parser β} (h : Follows P (f c) (f' c') c c' S) :
    Follows P (get >>= f) (get >>= f') c c' S := h

theorem cond {b b' : Bool} (hb : b = b') (hp : b = true → Follows P p p' c c' Q)
    (hq : b = false → Follows P q q' c c' Q) :
    Follows P (if b = true then p else q) (if b' = true then p' else q') c c' Q := by
  subst hb
  cases b with
  | true => exact hp rfl
  | false => exact hq rfl

theorem requireWord {f f' : Unit → Parser α} {word : String} (h : P.near σ c c')
    (hf : c.seesWord word = true → P.Next σ c c' →
        Follows P (f ()) (f' ()) c.advance c'.advance Q) :
    Follows P (Parser.requireWord word >>= f) (Parser.requireWord word >>= f') c c' Q :=
  .bind (Q := fun _ _ d d' => c.seesWord word = true ∧ P.Next σ c c' ∧ d = c.advance ∧
    d' = c'.advance) (by
      rw [← bind_pure (Parser.requireWord word)]
      exact .requireWord h fun hword hnext => .pure ⟨hword, hnext, rfl, rfl⟩) fun _ _ _ _ hd => by
    obtain ⟨hword, hnext, rfl, rfl⟩ := hd
    exact hf hword hnext

end Follows

/-- The first grammar reads its own tokens alike in two runs over them, also those behind a hole. -/
def Pairing.Enters (P : Pairing) (n : Nat) (g : Grammar) : Prop :=
  ∀ {σ c c'}, P.near σ c c' → P.hole c →
    ∃ D : Pairing, (∀ τ, D.near τ c c) ∧ ¬ D.hole c ∧ D.exprs ∧ D.Kin n g g

/-- A production that starts with a brace is followed, or lost when the brace is a hole. -/
theorem follows_of_brace {p p' : Parser α} {Q : α → α → Cursor → Cursor → Prop}
    (henters : P.Enters n g) (h : P.near σ c c')
    (hagree : ¬ P.hole c → Agree P.faults p p' c c' Q)
    (hself : ∀ D : Pairing, (∀ τ, D.near τ c c) → ¬ D.hole c → D.exprs → D.Kin n g g →
      Agree D.faults p p c c fun _ _ d _ => d.left < c.left) :
    Follows P p p' c c' Q := by
  by_cases hole : P.hole c
  · obtain ⟨D, hD, hfree, hexprs, hkin⟩ := henters h hole
    have hrun := hself D hD hfree hexprs hkin
    refine .inl ⟨c, hole, fun a d hok => ?_⟩
    unfold Agree at hrun
    rw [hok] at hrun
    exact hrun
  · exact .inr (hagree hole)

namespace Grammar

/-- What stands in front of the braces of a class. -/
structure ClassHead where
  name : String
  typeParams : List TypeParam
  base : Option Heritage
  interfaces : List Heritage

def classHead (g : Grammar) : Parser ClassHead := do
  requireWord "class"
  let c ← get
  let name ←
    if c.check .word && !c.seesAnyWord ["extends", "implements"] then takeText
    else pure namelessClass
  let typeParams ← g.typeParams
  let base ← if ← takeWord "extends" then some <$> g.heritage else pure none
  let interfaces ← g.heritageAfter "implements"
  return ⟨name, typeParams, base, interfaces⟩

/-- The braces of a class. -/
def classBlock (g : Grammar) (modifiers : Modifiers) (decorators : List Decorator)
    (head : ClassHead) : Parser ClassDef := do
  require .leftBrace "`\x7b` to open class body"
  let members ← many (g.classRound head.name)
  require .rightBrace "`\x7d` to close class body"
  return ⟨head.name, modifiers, decorators, head.typeParams, head.base, head.interfaces,
    members.filterMap id⟩

theorem classDef_eq (g : Grammar) (modifiers : Modifiers) (decorators : List Decorator) :
    g.classDef modifiers decorators = g.classHead >>= g.classBlock modifiers decorators := by
  simp only [classDef, classHead, bind_assoc, pure_bind, ite_bind]
  rfl

theorem classHead_agrees (hg : P.Kin n g g') (h : P.near σ c c') (hn : c.left ≤ n) :
    Agree P.faults g.classHead g'.classHead c c' fun head head' d d' =>
      P.Kept σ c.left head head' d d' ∧ head.name = head'.name := by
  refine .requireWord h fun _ ⟨hc, hltc, _⟩ => .look ?_
  extract_lets rest rest'
  have hrest : ∀ name name' d d', P.near σ d d' → d.left < c.left → name = name' →
      Agree P.faults (rest name) (rest' name') d d' fun head head' e e' =>
        P.Kept σ c.left head head' e e' ∧ head.name = head'.name := by
    rintro name _ d d' hd hltd rfl
    refine (typeParams_agrees hg hd (by omega)).bind fun tps tps' e e' ⟨he, hlee, htps⟩ => ?_
    have hinterfaces : ∀ base base' z z', P.near σ z z' → z.left ≤ e.left →
        (P.horizon ≤ z.left → base = base') → Agree P.faults (do
          let interfaces ← g.heritageAfter "implements"
          return (⟨name, tps, base, interfaces⟩ : ClassHead)) (do
          let interfaces ← g'.heritageAfter "implements"
          return (⟨name, tps', base', interfaces⟩ : ClassHead)) z z' fun head head' u u' =>
            P.Kept σ c.left head head' u u' ∧ head.name = head'.name := by
      intro base base' z z' hz hlez hbase
      exact (heritageAfter_agrees hg hz (by omega) _).bind fun is is' u u' ⟨hu, hleu, his⟩ =>
        .pure ⟨⟨hu, by omega, fun hfar => by rw [htps (by omega), hbase (by omega), his hfar]⟩, rfl⟩
    refine .takeWord he (fun _ ⟨hnext, hlt, _⟩ => ?_)
      fun _ => hinterfaces none none _ _ he (Nat.le_refl _) fun _ => rfl
    refine ((heritage_agrees hg hnext (by omega)).map (S := P.Kept σ e.left)
      fun _ _ _ _ ⟨hz, hltz, heq⟩ => ⟨hz, by omega, fun hfar => by rw [heq hfar]⟩).bind
      fun base base' z z' ⟨hz, hltz, hbase⟩ => hinterfaces _ _ _ _ hz (by omega) hbase
  refine .cond (by rw [check_eq hc, seesAnyWord_eq hc]) (fun hyes => ?_)
    fun _ => hrest _ _ _ _ hc (by omega) rfl
  have hword := Cursor.kind_of_check (Bool.and_eq_true_iff.1 hyes).1
  exact (takeText_agrees hc (isPlain_of_eq hword rfl)).bind
    fun _ _ _ _ ⟨hd, hltd, hname⟩ => hrest _ _ _ _ hd (by omega) hname

theorem classRound_agrees (hg : P.Kin n g g') (h : P.near σ c c') (hσ : σ ≠ []) (hn : c.left ≤ n)
    (name : String) :
    Agree P.faults (g.classRound name) (g'.classRound name) c c' (P.Found σ c.left) := by
  refine .look <| .cond (check_eq h _) (fun _ => .pure ⟨h, Nat.le_refl _⟩) fun _ => ?_
  refine .cond (check_eq h _) (fun _ => .failed h nofun) fun _ => ?_
  exact (classMember_agrees hg h hσ hn).bind fun _ _ _ _ ⟨hd, hlt, heq⟩ => .pure ⟨hd, hlt, heq⟩

theorem classBlock_agrees (hg : P.Kin n g g') (h : P.near σ c c') (hole : ¬ P.hole c)
    (hn : c.left ≤ n) (mods : Modifiers) {decorators decorators' : List Decorator}
    (hdecorators : P.horizon ≤ c.left → decorators = decorators') {head head' : ClassHead}
    (hhead : P.horizon ≤ c.left → head = head') (hname : head.name = head'.name) :
    Agree P.faults (g.classBlock mods decorators head) (g'.classBlock mods decorators' head') c c'
      (P.Kept σ c.left) := by
  refine .require h (takes_opens h hole rfl) fun _ ⟨hc, hltc, _⟩ => ?_
  rw [← hname]
  refine (many_agrees hc fun d d' hd hled =>
    classRound_agrees hg hd (List.cons_ne_nil _ _) (by omega) _).bind
    fun members members' d d' ⟨hd, hled, hmembers⟩ => ?_
  refine .require hd (takes_closes hd rfl) fun _ ⟨he, hlte, _⟩ => ?_
  refine .pure ⟨he, by omega, fun hfar => ?_⟩
  rw [hmembers (by omega), hdecorators (by omega), hhead (by omega)]

theorem classDef_follows (hg : P.Kin n g g') (henters : P.Enters n g) (h : P.near σ c c')
    (hn : c.left ≤ n) (mods : Modifiers) {decorators decorators' : List Decorator}
    (hdecorators : P.horizon ≤ c.left → decorators = decorators') :
    Follows P (g.classDef mods decorators) (g'.classDef mods decorators') c c'
      (P.Kept σ c.left) := by
  rw [classDef_eq, classDef_eq]
  refine .bind (classHead_agrees hg h hn) fun head head' d d' ⟨⟨hd, hltd, hhead⟩, hname⟩ => ?_
  refine (follows_of_brace henters hd (fun hole => classBlock_agrees hg hd hole (by omega) mods
    (fun hfar => hdecorators (by omega)) hhead hname) fun _ hD hfree _ hkin => ?_).mono
    fun _ _ _ _ he => he.mono (by omega)
  exact (classBlock_agrees hkin (hD σ) hfree (by omega) mods (fun _ => rfl) (fun _ => rfl) rfl).mono
    fun _ _ _ _ he => he.left

theorem interfaceDef_follows (hg : P.Kin n g g') (henters : P.Enters n g) (h : P.near σ c c')
    (hn : c.left ≤ n) (mods : Modifiers) :
    Follows P (g.interfaceDef mods) (g'.interfaceDef mods) c c' (P.Kept σ c.left) := by
  refine .requireWord h fun _ ⟨hc, hltc, _⟩ => ?_
  refine .bind (word_agrees hc) fun name name' d d' ⟨hd, hltd, hname⟩ => ?_
  refine .bind (typeParams_agrees hg hd (by omega)) fun tps tps' e e' ⟨he, hlee, htps⟩ => ?_
  refine .bind (heritageAfter_agrees hg he (by omega) _) fun bs bs' z z' ⟨hz, hlez, hbs⟩ => ?_
  refine .map (follows_of_brace henters hz (fun hole => typeMembers_agrees hg hz hole (by omega))
    fun _ hD hfree _ hkin => (typeMembers_agrees hkin (hD σ) hfree (by omega)).mono
      fun _ _ _ _ hu => hu.left) fun members members' u u' ⟨hu, hltu, hmembers⟩ => ?_
  refine ⟨hu, by omega, fun hfar => ?_⟩
  rw [hname, htps (by omega), hbs (by omega), hmembers hfar]

/-- The braces of an enumeration. -/
def enumBlock (g : Grammar) (modifiers : Modifiers) (isConst : Bool) (name : String) :
    Parser EnumDef := do
  require .leftBrace "`\x7b` to open enum body"
  let members ← commaList .rightBrace g.enumMember
  require .rightBrace "`\x7d` to close enum body"
  return ⟨name, modifiers, isConst, members⟩

theorem enumBlock_agrees (hg : P.Kin n g g') (hexprs : P.exprs) (h : P.near σ c c')
    (hole : ¬ P.hole c) (hn : c.left ≤ n) (mods : Modifiers) (isConst : Bool) (name : String) :
    Agree P.faults (g.enumBlock mods isConst name) (g'.enumBlock mods isConst name) c c'
      (P.Kept σ c.left) := by
  refine .require h (takes_opens h hole rfl) fun _ ⟨hc, hltc, _⟩ => ?_
  refine (commaList_agrees (I := fun _ => True) hc trivial (fun _ _ _ _ => trivial)
    fun d d' hd _ hle => (enumMember_agrees hg hexprs hd (by omega)).mono
      fun _ _ _ _ he => he.mono (by omega)).bind fun members members' d d' ⟨hd, hled, heq⟩ => ?_
  refine .require hd (takes_closes hd rfl) fun _ ⟨he, hlte, _⟩ => ?_
  exact .pure ⟨he, by omega, fun hfar => by rw [heq (by omega)]⟩

theorem enumDef_follows (hg : P.Kin n g g') (henters : P.Enters n g) (hexprs : P.exprs)
    (h : P.near σ c c') (hn : c.left ≤ n) (mods : Modifiers) :
    Follows P (g.enumDef mods) (g'.enumDef mods) c c' (P.Kept σ c.left) := by
  have hconst : Agree P.faults (takeWord "const") (takeWord "const") c c'
      (P.Same σ (c.left + 1)) := by
    rw [← bind_pure (takeWord "const")]
    exact .takeWord h (fun _ ⟨hc, hltc, _⟩ => .pure ⟨hc, by omega, rfl⟩)
      fun _ => .pure ⟨h, by omega, rfl⟩
  refine .bind hconst fun isConst isConst' d d' ⟨hd, hled, hisConst⟩ => ?_
  refine .requireWord hd fun _ ⟨he, hlte, _⟩ => ?_
  refine .bind (word_agrees he) fun name name' z z' ⟨hz, hltz, hname⟩ => ?_
  subst hisConst hname
  exact (follows_of_brace henters hz
    (fun hole => enumBlock_agrees hg hexprs hz hole (by omega) mods isConst name)
    fun _ hD hfree hexprs hkin => (enumBlock_agrees hkin hexprs (hD σ) hfree (by omega) mods isConst
      name).mono fun _ _ _ _ hu => hu.left).mono fun _ _ _ _ hu => hu.mono (by omega)

/-- An import behind its default name. -/
def importTail (typeOnly : Bool) (defaultName : Option String) :
    Parser (Option ImportStatement) := do
  let bindings ← importBindings
  requireWord "from"
  if !(← get).check .string then fail (.expected "module specifier")
  let source ← takeString
  let c ← get
  if c.seesAnyWord ["with", "assert"] && c.kindAhead 1 == .leftBrace then
    advance
    passGroup
  let _ ← takeKind .semicolon
  return some ⟨source, defaultName, bindings, typeOnly⟩

theorem importBindings_agrees (h : P.near σ c c') (hole : ¬ P.hole c) :
    Agree P.faults importBindings importBindings c c' (P.Kept σ (c.left + 1)) := by
  refine .takeKind h (takes_plain h rfl) (fun _ ⟨hc, hltc, _⟩ => ?_) fun _ => .otherwise ?_
  · refine .requireWord hc fun _ ⟨hd, hltd, _⟩ => ?_
    exact (word_agrees hd).bind fun _ _ _ _ ⟨he, hlte, heq⟩ =>
      .pure ⟨he, by omega, fun _ => by rw [heq]⟩
  refine .takeKind h (takes_opens h hole rfl) (fun _ ⟨hc, hltc, _⟩ => ?_)
    fun _ => .pure ⟨h, by omega, fun _ => rfl⟩
  refine (commaList_agrees (I := fun _ => True) hc trivial (fun _ _ _ _ => trivial)
    fun d d' hd _ _ => (importSpecifier_agrees hd).mono
      fun _ _ _ _ he => he.mono (by omega)).bind fun specs specs' d d' ⟨hd, hled, hspecs⟩ => ?_
  refine .require hd (takes_closes hd rfl) fun _ ⟨he, hlte, _⟩ => ?_
  exact .pure ⟨he, by omega, fun hfar => by rw [hspecs (by omega)]⟩

theorem importTail_agrees (h : P.near [] c c') (hole : ¬ P.hole c) (typeOnly : Bool)
    (defaultName : Option String) :
    Agree P.faults (importTail typeOnly defaultName) (importTail typeOnly defaultName) c c'
      (P.Done c.left) := by
  refine (importBindings_agrees h hole).bind fun binds binds' d d' ⟨hd, hled, hbinds⟩ => ?_
  refine .requireWord hd fun _ ⟨he, hlte, _⟩ => .look ?_
  extract_lets tail tail'
  refine .cond (by rw [check_eq he]) (fun _ => .failed he nofun) fun hstring => ?_
  have hplain : d.advance.kind.isPlain = true :=
    isPlain_of_eq (Cursor.kind_of_check (by simpa using hstring)) rfl
  refine (takeString_agrees he hplain).bind fun source source' z z' ⟨hz, hltz, hsource⟩ => .look ?_
  have hend : ∀ u u', P.near [] u u' → u.left ≤ z.left → Agree P.faults (do
      let _ ← takeKind .semicolon
      return some (⟨source, defaultName, binds, typeOnly⟩ : ImportStatement)) (do
      let _ ← takeKind .semicolon
      return some (⟨source', defaultName, binds', typeOnly⟩ : ImportStatement)) u u'
      (P.Done c.left) := fun u u' hu hleu =>
    semicolon_done hu (fun hfar => by rw [hsource, hbinds (by omega)]) (by omega)
  refine .cond (words_ahead_eq hz _ (· == .leftBrace)) (fun hyes => ?_)
    fun _ => hend _ _ hz (Nat.le_refl _)
  obtain ⟨hu, hltu, -⟩ :=
    next_word hz (Cursor.kind_of_seesAnyWord (Bool.and_eq_true_iff.1 hyes).1)
  exact .advance <| (passGroup_agrees hu).bind fun _ _ v v' ⟨hv, hltv, _⟩ => hend _ _ hv (by omega)

theorem importTail_follows (henters : P.Enters n g) (h : P.near [] c c') (typeOnly : Bool)
    (defaultName : Option String) :
    Follows P (importTail typeOnly defaultName) (importTail typeOnly defaultName) c c'
      (P.Done c.left) :=
  follows_of_brace henters h (fun hole => importTail_agrees h hole typeOnly defaultName)
    fun _ hD hfree _ _ => (importTail_agrees (hD []) hfree typeOnly defaultName).mono
      fun _ _ _ _ hd => hd.left

theorem importStatement_follows (henters : P.Enters n g) (h : P.near [] c c') :
    Follows P importStatement importStatement c c' (P.Done c.left) := by
  refine .requireWord h fun _ ⟨hc, hltc, _⟩ => .look ?_
  refine .cond (check_eq hc _) (fun hstring => .inr ?_) fun _ => .look ?_
  · have hplain := isPlain_of_eq (Cursor.kind_of_check hstring) rfl
    exact (takeString_agrees hc hplain).bind fun source source' d d' ⟨hd, hltd, hsource⟩ =>
      semicolon_done hd (fun _ => by rw [hsource]) (by omega)
  extract_lets typeOnly tail clause typeOnly' tail' clause'
  have htypeOnly : typeOnly = typeOnly' := by
    refine and_eq_and (seesWord_eq hc _) fun hword => ?_
    have hnext := next_word hc (Cursor.kind_of_seesWord hword)
    rw [hnext.kindAhead_eq, hnext.wordAt_eq]
  have htail : ∀ defaultName e e', P.near [] e e' → e.left < c.left →
      Follows P (tail defaultName) (tail' defaultName) e e' (P.Done c.left) := by
    intro defaultName e e' he hlte
    have heq : tail' defaultName = importTail typeOnly defaultName := by
      rw [htypeOnly]
      rfl
    rw [heq]
    exact (importTail_follows henters he typeOnly defaultName).mono
      fun _ _ _ _ hz => hz.mono (by omega)
  have hclause : ∀ d d', P.near [] d d' → d.left < c.left →
      Follows P (clause ()) (clause' ()) d d' (P.Done c.left) := by
    intro d d' hd hltd
    refine .look ?_
    extract_lets named named'
    have hnamed : named = named' :=
      and_eq_and (check_eq hd _) fun _ => by rw [seesWord_eq hd]
    have hword (hyes : named = true) : d.kind = .word :=
      Cursor.kind_of_check (Bool.and_eq_true_iff.1 hyes).1
    have hassigns : (named && d.kindAhead 1 == .equals) = (named' && d'.kindAhead 1 == .equals) :=
      and_eq_and hnamed fun hyes => by rw [(next_word hd (hword hyes)).kindAhead_eq]
    refine .cond hassigns (fun _ => .inr ?_) fun _ => .cond hnamed (fun hyes => ?_) fun _ => ?_
    · exact (passStatement_agrees (m := c.left) hd (by omega) (by omega)).bind
        fun _ _ _ _ ⟨he, hlte, _⟩ => .pure ⟨he, hlte, fun _ => rfl⟩
    · refine .bind (word_agrees hd) fun name name' e e' ⟨he, hlte, hname⟩ => ?_
      refine .bind (takeKind_agrees he rfl) fun _ _ z z' ⟨hz, hlez, _⟩ => ?_
      rw [hname]
      exact htail (some name') _ _ hz (by omega)
    · exact htail none _ _ hd hltd
  refine .cond htypeOnly (fun hyes => ?_) fun _ => hclause _ _ hc (by omega)
  obtain ⟨hd, hltd, -⟩ :=
    next_word hc (Cursor.kind_of_seesWord (Bool.and_eq_true_iff.1 hyes).1)
  exact hclause _ _ hd (by omega)

/-- Where there is a token, a declaration takes one. -/
theorem declaration_follows (hg : P.Kin n g g') (henters : P.Enters n g) (hexprs : P.exprs)
    (h : P.near [] c c') (hn : c.left ≤ n) (hm : c.left ≤ m) (hpos : 0 < m) (mods : Modifiers)
    {decorators decorators' : List Decorator}
    (hdecorators : P.horizon ≤ c.left → decorators = decorators') :
    Follows P (g.declaration mods decorators) (g'.declaration mods decorators') c c'
      (P.Done m) := by
  have hitem {α : Type} (wrap : α → Item) {p p' : Parser α}
      (hp : Follows P p p' c c' (P.Done c.left)) :
      Follows P (do return some (wrap (← p))) (do return some (wrap (← p'))) c c' (P.Done m) :=
    hp.map fun _ _ _ _ ⟨hd, hlt, heq⟩ => ⟨hd, by omega, fun hfar => by rw [heq hfar]⟩
  have himport : (c.seesWord "import" && c.kindAhead 1 != .leftParen && c.kindAhead 1 != .dot) =
      (c'.seesWord "import" && c'.kindAhead 1 != .leftParen && c'.kindAhead 1 != .dot) := by
    rw [Bool.and_assoc, Bool.and_assoc]
    exact word_ahead_eq h _ fun kind => kind != .leftParen && kind != .dot
  have halias : (c.seesWord "type" && c.kindAhead 1 == .word &&
        (c.kindAhead 2 == .equals || c.kindAhead 2 == .less)) =
      (c'.seesWord "type" && c'.kindAhead 1 == .word &&
        (c'.kindAhead 2 == .equals || c'.kindAhead 2 == .less)) := by
    rw [Bool.and_assoc, Bool.and_assoc]
    refine and_eq_and (seesWord_eq h _) fun htype => ?_
    have hnext := (next_word h (Cursor.kind_of_seesWord htype)).near
    simp only [Cursor.kindAhead_succ c, Cursor.kindAhead_succ c']
    exact kind_ahead_eq hnext rfl fun kind => kind == .equals || kind == .less
  refine .look <| .cond himport (fun _ => ?_) fun _ => ?_
  · exact (importStatement_follows henters h).map fun _ _ _ _ ⟨hd, hlt, heq⟩ =>
      ⟨hd, by omega, fun hfar => by rw [heq hfar]⟩
  refine .cond (seesWord_eq h _) (fun _ => ?_) fun _ => ?_
  · exact hitem .classDef <|
      (classDef_follows hg henters h hn mods hdecorators).mono fun _ _ _ _ => Kept.done
  refine .cond (word_ahead_eq h _ (· == .word)) (fun _ => ?_) fun _ => ?_
  · exact hitem .interfaceDef <|
      (interfaceDef_follows hg henters h hn mods).mono fun _ _ _ _ => Kept.done
  refine .cond (or_eq_or (seesWord_eq h _) (word_word_eq h _ _)) (fun _ => ?_) fun _ => ?_
  · exact hitem .enumDef <|
      (enumDef_follows hg henters hexprs h hn mods).mono fun _ _ _ _ => Kept.done
  refine .cond halias (fun _ => ?_) fun _ => ?_
  · exact hitem .aliasDef <| .inr (aliasDef_agrees hg h hn mods)
  refine .cond (words_ahead_eq h _ [.word, .leftBrace, .leftBracket].contains) (fun hyes => ?_)
    fun _ => .inr ?_
  · have hkind := Cursor.kind_of_seesAnyWord (Bool.and_eq_true_iff.1 hyes).1
    exact hitem .variableStatement <| .inr (variableStatement_agrees hg hexprs h hkind hn mods)
  · exact (passStatement_agrees h hm hpos).bind fun _ _ _ _ ⟨hd, hlt, _⟩ =>
      .pure ⟨hd, hlt, fun _ => rfl⟩

/-- What stands in front of a declaration, and whether an export follows that declares nothing. -/
def statementHead (g : Grammar) : Parser (Bool × Modifiers × List Decorator) := do
  let first ← g.decorators
  let modifiers ← modifiers
  if atReexport (← get) then return (true, modifiers, first)
  let second ← g.decorators
  return (false, modifiers, first ++ second)

theorem statement_eq (g : Grammar) : g.statement = (do
    let head ← g.statementHead
    if head.1 then
      passStatement
      return none
    g.declaration head.2.1 head.2.2) := by
  simp only [statement, statementHead, bind_assoc, pure_bind, ite_bind, if_true,
    Bool.false_eq_true, if_false]

theorem statementHead_agrees (hg : P.Kin n g g') (h : P.near [] c c') (hn : c.left ≤ n) :
    Agree P.faults g.statementHead g'.statementHead c c' fun head head' d d' =>
      P.Kept [] (c.left + 1) head head' d d' ∧ head.1 = head'.1 ∧ head.2.1 = head'.2.1 := by
  refine (decorators_agrees hg h hn).bind fun first first' d d' ⟨hd, hled, hfirst⟩ => ?_
  refine (modifiers_agrees hd).bind fun mods mods' e e' ⟨he, hlee, hmods⟩ => .look ?_
  subst hmods
  refine .cond (atReexport_eq he) (fun _ => ?_) fun _ => ?_
  · exact .pure ⟨⟨he, by omega, fun hfar => by rw [hfirst (by omega)]⟩, rfl, rfl⟩
  exact (decorators_agrees hg he (by omega)).bind fun second second' z z' ⟨hz, hlez, hsecond⟩ =>
    .pure ⟨⟨hz, by omega, fun hfar => by rw [hfirst (by omega), hsecond hfar]⟩, rfl, rfl⟩

theorem statement_follows (hg : P.Kin n g g') (henters : P.Enters n g) (hexprs : P.exprs)
    (h : P.near [] c c') (hn : c.left ≤ n) (hpos : 0 < c.left) :
    Follows P g.statement g'.statement c c' (P.Done c.left) := by
  rw [statement_eq, statement_eq]
  refine .bind (statementHead_agrees hg h hn)
    fun head head' d d' ⟨⟨hd, hled, hhead⟩, hexport, hmods⟩ => ?_
  rw [← hmods]
  refine .cond hexport (fun _ => .inr ?_) fun _ => ?_
  · exact (passStatement_agrees (m := c.left) hd (by omega) hpos).bind
      fun _ _ _ _ ⟨hz, hlt, _⟩ => .pure ⟨hz, hlt, fun _ => rfl⟩
  · exact declaration_follows hg henters hexprs hd (by omega) (by omega) hpos _
      fun hfar => by rw [hhead hfar]

theorem statementRound_follows (hg : P.Kin n g g') (henters : P.Enters n g) (hexprs : P.exprs)
    (h : P.near [] c c') (hn : c.left ≤ n) (hfile : c.kind ≠ .endOfFile) :
    Follows P g.statementRound g'.statementRound c c' fun o o' d d' =>
      P.Done c.left o o' d d' ∧ o.isSome = true ∧ o'.isSome = true := by
  have hpos : 0 < c.left := List.length_pos_iff.2 (stands h hfile)
  have htake : Agree P.faults (takeKind .semicolon) (takeKind .semicolon) c c'
      fun taken taken' d d' => taken = taken' ∧
        if taken then P.ended d d' ∧ d.left < c.left else d = c ∧ d' = c' := by
    have hlt := Cursor.advance_left (stands h hfile)
    rw [← bind_pure (takeKind .semicolon)]
    exact .byKind h (fun hkind => .pure ⟨rfl, P.last h hkind, by omega⟩)
      fun _ => .pure ⟨rfl, rfl, rfl⟩
  refine .look <| .cond (check_eq h _) (fun hyes => absurd (Cursor.kind_of_check hyes) hfile)
    fun _ => .bind htake fun taken taken' d d' ⟨htaken, hd⟩ => ?_
  subst htaken
  cases taken with
  | true => exact .inr (.pure ⟨⟨hd.1, hd.2, fun _ => rfl⟩, rfl, rfl⟩)
  | false =>
      obtain ⟨rfl, rfl⟩ := hd
      exact (statement_follows hg henters hexprs h hn hpos).map fun _ _ _ _ ⟨he, hlt, heq⟩ =>
        ⟨⟨he, hlt, fun hfar => by rw [heq hfar]⟩, rfl, rfl⟩

/-- Without holes, and with nothing special about the end of a statement, statements are read alike.
-/
theorem statementRound_agrees (hended : ∀ {c c'}, P.ended c c' → P.near [] c c')
    (hhole : ∀ {c}, ¬ P.hole c) (hg : P.Kin n g g') (hexprs : P.exprs) (h : P.near [] c c')
    (hn : c.left ≤ n) :
    Agree P.faults g.statementRound g'.statementRound c c' (P.Found [] c.left) := by
  by_cases hfile : c.kind = .endOfFile
  · have hcheck : c.check .endOfFile = true := beq_iff_eq.2 hfile
    exact .look (.cond (check_eq h _) (fun _ => .pure ⟨h, Nat.le_refl _⟩) fun hne =>
      absurd hcheck (by rw [hne]; exact Bool.false_ne_true))
  obtain ⟨hole, hyes, -⟩ | hround :=
    statementRound_follows hg (fun _ hyes => absurd hyes hhole) hexprs h hn hfile
  · exact absurd hyes hhole
  refine hround.mono fun o o' d d' ⟨⟨hd, hlt, heq⟩, hsome, hsome'⟩ => ?_
  match o, o', hsome, hsome' with
  | some a, some a', _, _ => exact ⟨hended hd, hlt, fun hfar => Option.some.inj (heq hfar)⟩

end Grammar

end HandlerWeave.Source
