import HandlerWeave.Proofs.Source.Keeps

/-!
What the trees are like that come out of the grammar: their names are words, their numbers are
numerals, unions and intersections have two parts at least, and no part of a type binds less than
its place allows. Trees that a program puts together need not be so.
-/
namespace HandlerWeave.Source

open Source.Parser

/-- The type binds like a single name, so that it can be the element of an array. -/
def TypeNode.IsOperand : TypeNode → Prop
  | .union _ | .intersection _ => False
  | .verbatim kind _ => kind ≠ .function ∧ kind ≠ .constructor
  | _ => True

def TypeNode.IsUnion : TypeNode → Prop
  | .union _ => True
  | _ => False

def LiteralType.Regular : LiteralType → Prop
  | .number text => IsNumeral text ∨ ∃ n, IsNumeral n ∧ text = "-" ++ n
  | _ => True

namespace TypeMember

/-- The types written in a member that holds data. -/
def types : TypeMember → List TypeNode
  | .property _ _ type => type.toList
  | .index _ keyType type => [keyType, type]
  | .method _ => []

def keyName? : TypeMember → Option String
  | .index keyName _ _ => some keyName
  | _ => none

end TypeMember

inductive TypeNode.Regular : TypeNode → Prop
  | keyword (word : Keyword) : Regular (.keyword word)
  | literal {value : LiteralType} (h : value.Regular) : Regular (.literal value)
  | reference {name : QualifiedName} {args : List TypeNode} (hname : IsWord name.name)
      (hargs : ∀ t ∈ args, Regular t) : Regular (.reference name args)
  | array {element : TypeNode} (hoperand : element.IsOperand) (h : Regular element) :
      Regular (.array element)
  | tuple {elements : List TypeNode} (h : ∀ t ∈ elements, Regular t) : Regular (.tuple elements)
  | union {arms : List TypeNode} (hlength : 2 ≤ arms.length) (hparts : ∀ t ∈ arms, ¬ t.IsUnion)
      (h : ∀ t ∈ arms, Regular t) : Regular (.union arms)
  | intersection {parts : List TypeNode} (hlength : 2 ≤ parts.length)
      (hparts : ∀ t ∈ parts, t.IsOperand) (h : ∀ t ∈ parts, Regular t) :
      Regular (.intersection parts)
  | parenthesized {inner : TypeNode} (h : Regular inner) : Regular (.parenthesized inner)
  | shape {members : List TypeMember} (hkeys : ∀ m ∈ members, ∀ k ∈ m.keyName?, IsWord k)
      (h : ∀ m ∈ members, ∀ t ∈ m.types, Regular t) : Regular (.shape members)
  | verbatim (kind : VerbatimKind) (text : String) : Regular (.verbatim kind text)

def TypeMember.Regular (m : TypeMember) : Prop :=
  (∀ k ∈ m.keyName?, IsWord k) ∧ ∀ t ∈ m.types, t.Regular

def TypeParam.modifierNames : List String := ["const", "in", "out"]

structure TypeParam.Regular (p : TypeParam) : Prop where
  name : IsWord p.name
  constraint : OfSome TypeNode.Regular p.constraint
  fallback : OfSome TypeNode.Regular p.fallback
  /-- In front of another word these are modifiers. -/
  modifier : p.name ∈ TypeParam.modifierNames → p.constraint = none

structure Heritage.Regular (h : Heritage) : Prop where
  name : IsWord h.name.name
  typeArgs : ∀ t ∈ h.typeArgs, t.Regular

structure IndexSignature.Regular (s : IndexSignature) : Prop where
  keyName : IsWord s.keyName
  keyType : s.keyType.Regular
  type : s.type.Regular

structure Param.Regular (p : Param) : Prop where
  name : IsWord p.name
  type : OfSome TypeNode.Regular p.type

def ClassMember.Regular : ClassMember → Prop
  | .property p => OfSome TypeNode.Regular p.type
  | .method m => ∀ p ∈ m.params, p.Regular
  | .constructor params => ∀ p ∈ params, p.Regular
  | .index s => s.Regular

structure ClassDef.Regular (c : ClassDef) : Prop where
  name : IsWord c.name
  typeParams : ∀ p ∈ c.typeParams, p.Regular
  heritage : ∀ h ∈ c.heritage, h.Regular
  members : ∀ m ∈ c.members, m.Regular

structure InterfaceDef.Regular (i : InterfaceDef) : Prop where
  name : IsWord i.name
  typeParams : ∀ p ∈ i.typeParams, p.Regular
  bases : ∀ h ∈ i.bases, h.Regular
  members : ∀ m ∈ i.members, m.Regular

/-- A number, with a sign or without one, is a numeral. -/
def Expr.Regular : Expr → Prop
  | .number text | .negate (.number text) => IsNumeral text
  | _ => True

structure EnumDef.Regular (e : EnumDef) : Prop where
  name : IsWord e.name
  initializers : ∀ m ∈ e.members, OfSome Expr.Regular m.initializer

structure AliasDef.Regular (a : AliasDef) : Prop where
  name : IsWord a.name
  typeParams : ∀ p ∈ a.typeParams, p.Regular
  type : a.type.Regular

def Item.Regular : Item → Prop
  | .classDef d => d.Regular
  | .interfaceDef d => d.Regular
  | .enumDef d => d.Regular
  | .aliasDef d => d.Regular
  | .importStatement _ | .variableStatement _ => True

/-- What a grammar gives for the parts of a production. -/
structure Grammar.Regular (tokens : List Token) (g : Grammar) : Prop where
  type : Keeps tokens g.type TypeNode.Regular
  operandType : Keeps tokens g.operandType fun t => t.Regular ∧ t.IsOperand
  expr : Keeps tokens g.expr Expr.Regular
  unary : Keeps tokens g.unary Expr.Regular

variable {tokens : List Token} {g : Grammar} {c : Cursor}

/-- The tokens are such as a text has. -/
def AllSound (tokens : List Token) : Prop := ∀ t ∈ tokens, t.Sound

theorem Cursor.Within.isWord (h : c.Within tokens) (hs : AllSound tokens)
    (hkind : c.check .word = true) : IsWord c.text :=
  (hs _ (h.tokenAt 0)).word (by simpa [Cursor.check, Cursor.kind, Cursor.kindAhead] using hkind)

theorem Cursor.Within.isNumeral (h : c.Within tokens) (hs : AllSound tokens)
    (hkind : c.check .number = true) : IsNumeral c.text :=
  (hs _ (h.tokenAt 0)).number (by simpa [Cursor.check, Cursor.kind, Cursor.kindAhead] using hkind)

namespace Grammar

theorem empty_regular : empty.Regular tokens :=
  ⟨tooDeep_keeps, tooDeep_keeps, tooDeep_keeps, tooDeep_keeps⟩

theorem word_keeps (hs : AllSound tokens) (what : String) :
    Keeps tokens (word what) IsWord := by
  refine .lookHere fun c => ?_
  cases h : c.check .word with
  | true => exact takeText_ensures fun hc => hc.isWord hs h
  | false => exact fail_keeps c

theorem takeString_keeps : Keeps tokens takeString fun _ => True :=
  takeText_keeps.bind fun _ _ => .pure trivial

theorem typeArgs_keeps (hg : g.Regular tokens) :
    Keeps tokens g.typeArgs fun args => ∀ t ∈ args, t.Regular :=
  require_keeps.bind fun _ _ => (commaList_keeps hg.type).bind fun _ hargs =>
    require_keeps.bind fun _ _ => .pure hargs

theorem typeArgsIfAny_keeps (hg : g.Regular tokens) :
    Keeps tokens g.typeArgsIfAny fun args => ∀ t ∈ args, t.Regular :=
  .look fun _ => .ite (fun _ => typeArgs_keeps hg) fun _ => .pure fun _ h => nomatch h

theorem qualifiedName_keeps (hs : AllSound tokens) :
    Keeps tokens qualifiedName fun name => IsWord name.name := by
  refine (word_keeps hs _).bind fun first hfirst => ?_
  have hrest : Keeps tokens (many do
      let c ← get
      if c.check .dot && c.kindAhead 1 == .word then
        advance
        return some (← word "type name")
      return none) fun rest => ∀ w ∈ rest, IsWord w :=
    many_keeps <| .look fun _ => .ite
      (fun _ => advance_keeps.bind fun _ _ => (word_keeps hs _).bind fun w hw =>
        .pure (ofSome_some.2 hw))
      fun _ => .pure ofSome_none
  refine hrest.bind fun rest hrest => ?_
  cases hlast : rest.getLast? with
  | none => exact .pure hfirst
  | some last => exact .pure (hrest last (List.mem_of_getLast? hlast))

theorem callTypeArgs_keeps (hg : g.Regular tokens) :
    Keeps tokens g.callTypeArgs fun _ => True := by
  intro c
  cases hword : c.before.any (·.kind == .word) with
  | false => exact .returns (by simp only [callTypeArgs, hword]; rfl) id fun _ => trivial
  | true =>
      cases hargs : g.typeArgs c with
      | error e =>
          exact .returns (by simp only [callTypeArgs, hword, hargs]; rfl) id fun _ => trivial
      | ok out =>
          cases hparen : out.2.check .leftParen with
          | false =>
              exact .returns (by simp only [callTypeArgs, hword, hargs, hparen]; rfl) id
                fun _ => trivial
          | true =>
              refine .returns (by simp only [callTypeArgs, hword, hargs, hparen]; rfl)
                (fun hc => ?_) fun _ => trivial
              have h := typeArgs_keeps hg c hc
              rw [hargs] at h
              exact h.1

theorem passInitializer_keeps (hg : g.Regular tokens) :
    Keeps tokens g.passInitializer fun _ => True := by
  refine skipWhile_keeps (.look fun c => ?_)
  split
  iterate 6 exact .pure trivial
  iterate 3 exact passGroup_keeps.bind fun _ _ => .pure trivial
  extract_lets pass
  have hpass : Keeps tokens (pass ()) fun _ => True :=
    .ite (fun _ => .pure trivial) fun _ => advance_keeps.bind fun _ _ => .pure trivial
  exact .ite (fun _ => (callTypeArgs_keeps hg).bind fun _ _ =>
    .ite (fun _ => .pure trivial) fun _ => hpass) fun _ => hpass

theorem exprList_keeps (hg : g.Regular tokens) (closer : Token.Kind) :
    Keeps tokens (g.exprList closer) fun _ => True := by
  refine (commaList_keeps (Q := fun _ => True) ?_).any
  refine .look fun _ => .ite (fun _ => .pure trivial) fun _ => ?_
  refine takeKind_keeps.bind fun _ _ => .ite (fun _ => ?_) fun _ => hg.expr.any
  exact hg.expr.bind fun _ _ => textSince_keeps.bind fun _ _ => .pure trivial

theorem arguments_keeps (hg : g.Regular tokens) : Keeps tokens g.arguments fun _ => True :=
  require_keeps.bind fun _ _ => (exprList_keeps hg _).bind fun _ _ =>
    require_keeps.bind fun _ _ => .pure trivial

theorem argumentsIfAny_keeps (hg : g.Regular tokens) :
    Keeps tokens g.argumentsIfAny fun _ => True :=
  .look fun _ => .ite (fun _ => arguments_keeps hg) fun _ => .pure trivial

theorem decorators_keeps (hg : g.Regular tokens) (hs : AllSound tokens) :
    Keeps tokens g.decorators fun _ => True := by
  refine (many_keeps (Q := fun _ => True) ?_).any
  refine takeKind_keeps.bind fun _ _ => .ite (fun _ => ?_) fun _ => .pure fun _ _ => trivial
  exact (separated_keeps (word_keeps hs _)).bind fun _ _ =>
    (argumentsIfAny_keeps hg).bind fun _ _ => .pure fun _ _ => trivial

/-- A modifier of a type parameter stands here, in front of another word. -/
def atParamModifier (c : Cursor) : Bool :=
  c.seesAnyWord TypeParam.modifierNames && c.kindAhead 1 == .word

/-- What is skipped in front of a type parameter leaves no modifier in front of a word. -/
theorem typeParam_keeps (hg : g.Regular tokens) (hs : AllSound tokens) :
    Keeps tokens g.typeParam TypeParam.Regular := by
  intro c
  refine (skipWhile_ensures (D := fun d => atParamModifier d = false) (fun c => ?skip) c).bind
    fun _ d (hd : atParamModifier d = false) => ?_
  case skip =>
    refine .look (.ite (fun _ => ?_) fun hnot => .pure fun _ => Bool.eq_false_iff.2 hnot)
    exact (advance_keeps c).bind fun _ _ _ => .pure nofun
  refine Ensures.bind (P := fun name e => IsWord name ∧
    (name ∈ TypeParam.modifierNames → e.seesWord "extends" = false)) ?name fun name e hname => ?_
  case name =>
    refine .look (.ite (fun hword => ?_) fun _ => .fails rfl)
    refine .returns rfl Cursor.Within.advance fun hd' => ⟨hd'.isWord hs hword, fun hmem => ?_⟩
    have hsees : d.seesAnyWord TypeParam.modifierNames = true :=
      List.any_eq_true.2
        ⟨_, hmem, Bool.and_eq_true_iff.2 ⟨hword, by simp [Cursor.text, Cursor.token]⟩⟩
    rw [atParamModifier, hsees, Bool.true_and] at hd
    rw [Cursor.seesWord, Cursor.wordAt, Cursor.tokenAt_advance, Token.isWord]
    exact Bool.and_eq_false_iff.2 (.inl hd)
  refine Ensures.bind takeWord_ensures fun taken e' htaken => ?_
  have hrest : ∀ constraint, OfSome TypeNode.Regular constraint →
      (name ∈ TypeParam.modifierNames → constraint = none) →
      Keeps tokens (do
        let fallback ← after .equals g.type
        return (⟨name, constraint, fallback⟩ : TypeParam)) TypeParam.Regular :=
    fun constraint hconstraint hmodifier => (after_keeps hg.type).bind fun _ hfallback =>
      .pure ⟨hname.1, hconstraint, hfallback, hmodifier⟩
  cases taken with
  | true =>
      refine ((hg.type.map fun _ => ofSome_some.2).bind
        fun constraint hconstraint => hrest constraint hconstraint fun hmem => ?_) e'
      rw [hname.2 hmem] at htaken
      cases htaken
  | false => exact hrest none ofSome_none (fun _ => rfl) e'

theorem typeParams_keeps (hg : g.Regular tokens) (hs : AllSound tokens) :
    Keeps tokens g.typeParams fun params => ∀ p ∈ params, p.Regular :=
  takeKind_keeps.bind fun _ _ => .ite
    (fun _ => (commaList_keeps (typeParam_keeps hg hs)).bind fun _ hparams =>
      require_keeps.bind fun _ _ => .pure hparams)
    fun _ => .pure fun _ h => nomatch h

theorem bindingName_keeps (hs : AllSound tokens) (what : String) :
    Keeps tokens (bindingName what) IsWord := by
  refine .lookHere fun c => ?_
  split
  next hkind => exact takeText_ensures fun hc => hc.isWord hs (by simp [Cursor.check, hkind])
  iterate 2 exact (passGroup_keeps.bind fun _ _ => .pure (.inl (by decide))) c
  exact fail_keeps c

theorem param_keeps (hg : g.Regular tokens) (hs : AllSound tokens) :
    Keeps tokens g.param Param.Regular := by
  refine (decorators_keeps hg hs).bind fun _ _ => ?_
  refine (iterate_keeps (Q := fun _ => True) ?_ trivial).bind fun _ _ => ?_
  · exact fun _ _ => .look fun _ => .ite
      (fun _ => advance_keeps.bind fun _ _ => .pure fun _ _ => trivial)
      fun _ => .pure fun _ _ => trivial
  refine takeKind_keeps.bind fun _ _ => (bindingName_keeps hs _).bind fun _ hname =>
    takeKind_keeps.bind fun _ _ => (after_keeps hg.type).bind fun _ htype =>
    takeKind_keeps.bind fun _ _ => ?_
  exact .ite (fun _ => (passInitializer_keeps hg).bind fun _ _ => .pure ⟨hname, htype⟩)
    fun _ => .pure ⟨hname, htype⟩

theorem params_keeps (hg : g.Regular tokens) (hs : AllSound tokens) :
    Keeps tokens g.params fun params => ∀ p ∈ params, p.Regular :=
  require_keeps.bind fun _ _ => (commaList_keeps (param_keeps hg hs)).bind fun _ hparams =>
    require_keeps.bind fun _ _ => .pure hparams

theorem returnType_keeps (hg : g.Regular tokens) :
    Keeps tokens g.returnType fun _ => True := by
  have hsince : ∀ start, Keeps tokens (do return .verbatim .predicate (← textSince start))
      fun _ : TypeNode => True := fun _ => textSince_keeps.bind fun _ _ => .pure trivial
  refine .look fun _ => .ite (fun _ => ?_) fun _ => .ite (fun _ => ?_) fun _ => hg.type.any
  · exact advance_keeps.bind fun _ _ => advance_keeps.bind fun _ _ =>
      takeWord_keeps.bind fun _ _ => .ite (fun _ => hg.type.bind fun _ _ => hsince _)
        fun _ => hsince _
  · exact advance_keeps.bind fun _ _ => advance_keeps.bind fun _ _ => hg.type.bind fun _ _ =>
      hsince _

theorem passSignature_keeps (hg : g.Regular tokens) (hs : AllSound tokens) :
    Keeps tokens g.passSignature fun _ => True :=
  (typeParams_keeps hg hs).bind fun _ _ => (params_keeps hg hs).bind fun _ _ =>
    (after_keeps (returnType_keeps hg)).bind fun _ _ => .pure trivial

theorem passBody_keeps : Keeps tokens passBody fun _ => True :=
  .look fun _ => .ite (fun _ => passGroup_keeps) fun _ =>
    takeKind_keeps.bind fun _ _ => .pure trivial

theorem indexSignature_keeps (hg : g.Regular tokens) (hs : AllSound tokens) :
    Keeps tokens g.indexSignature IndexSignature.Regular :=
  require_keeps.bind fun _ _ => (word_keeps hs _).bind fun _ hname =>
    require_keeps.bind fun _ _ => hg.type.bind fun _ hkey =>
    require_keeps.bind fun _ _ => require_keeps.bind fun _ _ => hg.type.bind fun _ htype =>
    .pure ⟨hname, hkey, htype⟩

theorem memberName_keeps (what : String) : Keeps tokens (memberName what) fun _ => True := by
  refine .look fun c => ?_
  split
  · exact takeText_keeps
  · exact takeText_keeps
  · exact takeString_keeps
  · exact passGroup_keeps.bind fun _ _ => .pure trivial
  · exact fail_keeps

theorem verbatim_keeps {kind : VerbatimKind} {start : Cursor} :
    Keeps tokens (do return TypeNode.verbatim kind (← textSince start)) TypeNode.Regular :=
  textSince_keeps.bind fun _ _ => .pure (.verbatim _ _)

/-- Kept as text, and no function or constructor. -/
theorem verbatimOperand_keeps {kind : VerbatimKind} {start : Cursor}
    (hkind : kind ≠ .function ∧ kind ≠ .constructor) :
    Keeps tokens (do return TypeNode.verbatim kind (← textSince start))
      fun t => t.Regular ∧ t.IsOperand :=
  textSince_keeps.bind fun _ _ => .pure ⟨.verbatim _ _, hkind⟩

theorem functionType_keeps (hg : g.Regular tokens) (hs : AllSound tokens) (start : Cursor)
    (kind : VerbatimKind) : Keeps tokens (g.functionType start kind) TypeNode.Regular :=
  (typeParams_keeps hg hs).bind fun _ _ => (params_keeps hg hs).bind fun _ _ =>
    require_keeps.bind fun _ _ => (returnType_keeps hg).bind fun _ _ => verbatim_keeps

theorem typeMember_keeps (hg : g.Regular tokens) (hs : AllSound tokens) :
    Keeps tokens g.typeMember (OfSome (OfSome TypeMember.Regular)) := by
  have hsome : ∀ {m : TypeMember}, m.Regular →
      OfSome (OfSome TypeMember.Regular) (some (some m)) := by simp
  have hmethod : ∀ {name}, OfSome (OfSome TypeMember.Regular) (some (some (.method name))) :=
    hsome ⟨nofun, nofun⟩
  have hproperty : ∀ {name optional type}, OfSome TypeNode.Regular type →
      (TypeMember.property name optional type).Regular := fun htype =>
    ⟨nofun, fun t ht => htype t (by simpa [TypeMember.types] using ht)⟩
  refine .look fun c => .ite (fun _ => .pure ofSome_none) fun _ => ?_
  extract_lets member separatorOr
  have hmember : Keeps tokens (member ()) (OfSome (OfSome TypeMember.Regular)) := by
    refine .look fun c => .ite
      (fun _ => (passSignature_keeps hg hs).bind fun _ _ => .pure hmethod) fun _ => .ite
      (fun _ => advance_keeps.bind fun _ _ => (passSignature_keeps hg hs).bind fun _ _ =>
        .pure hmethod) fun _ => ?_
    extract_lets accessor named
    have hnamed : Keeps tokens (named ()) (OfSome (OfSome TypeMember.Regular)) := by
      refine .look fun c => .ite (fun _ => ?_) fun _ => ?_
      · refine (indexSignature_keeps hg hs).bind fun s hs => .pure (hsome ⟨?_, ?_⟩)
        · simpa [TypeMember.keyName?] using hs.keyName
        · simpa [TypeMember.types] using ⟨hs.keyType, hs.type⟩
      · exact (memberName_keeps _).bind fun _ _ => takeKind_keeps.bind fun _ _ =>
          .look fun _ => .ite
            (fun _ => (passSignature_keeps hg hs).bind fun _ _ => .pure hmethod)
            fun _ => (after_keeps hg.type).bind fun _ htype => .pure (hsome (hproperty htype))
    exact .ite (fun _ => advance_keeps.bind fun _ _ => hnamed) fun _ => hnamed
  have hseparatorOr : Keeps tokens (separatorOr ()) (OfSome (OfSome TypeMember.Regular)) :=
    .ite (fun _ => advance_keeps.bind fun _ _ => .pure (ofSome_some.2 ofSome_none)) fun _ => .ite
      (fun _ => advance_keeps.bind fun _ _ => hmember) fun _ => hmember
  exact .ite (fun _ => fail_keeps.bind fun _ (_ : True) => hseparatorOr) fun _ => hseparatorOr

theorem typeMembers_keeps (hg : g.Regular tokens) (hs : AllSound tokens) :
    Keeps tokens g.typeMembers fun members => ∀ m ∈ members, m.Regular := by
  refine require_keeps.bind fun _ _ => (many_keeps (typeMember_keeps hg hs)).bind
    fun members hmembers => require_keeps.bind fun _ _ => .pure fun m hm => ?_
  obtain ⟨o, ho, rfl⟩ := List.mem_filterMap.1 hm
  exact hmembers _ ho m rfl

theorem tupleElement_keeps (hg : g.Regular tokens) :
    Keeps tokens g.tupleElement TypeNode.Regular := by
  refine takeKind_keeps.bind fun _ _ => .look fun _ => ?_
  extract_lets element
  have helement : Keeps tokens (element ()) TypeNode.Regular :=
    hg.type.bind fun _ ht => takeKind_keeps.bind fun _ _ => .pure ht
  refine .ite (fun _ => ?_) fun _ => .ite (fun _ => ?_) fun _ => helement
  · exact advance_keeps.bind fun _ _ => advance_keeps.bind fun _ _ => helement
  · exact advance_keeps.bind fun _ _ => advance_keeps.bind fun _ _ =>
      advance_keeps.bind fun _ _ => helement

theorem tupleType_keeps (hg : g.Regular tokens) :
    Keeps tokens g.tupleType fun t => t.Regular ∧ t.IsOperand :=
  require_keeps.bind fun _ _ => (commaList_keeps (tupleElement_keeps hg)).bind fun _ helements =>
    require_keeps.bind fun _ _ => .pure ⟨.tuple helements, trivial⟩

theorem importedPath_keeps (hs : AllSound tokens) : Keeps tokens importedPath fun _ => True :=
  advance_keeps.bind fun _ _ => passGroup_keeps.bind fun _ _ =>
    skipWhile_keeps <| takeKind_keeps.bind fun _ _ => .ite
      (fun _ => (word_keeps hs _).bind fun _ _ => .pure trivial) fun _ => .pure trivial

theorem referenceType_keeps (hg : g.Regular tokens) (hs : AllSound tokens) :
    Keeps tokens g.referenceType fun t => t.Regular ∧ t.IsOperand :=
  (qualifiedName_keeps hs).bind fun _ hname => (typeArgsIfAny_keeps hg).bind fun _ hargs =>
    .pure ⟨.reference hname hargs, trivial⟩

theorem namedType_keeps (hg : g.Regular tokens) (hs : AllSound tokens) :
    Keeps tokens g.namedType fun t => t.Regular ∧ t.IsOperand := by
  have hquery : ∀ start, Keeps tokens (do
      let _ ← g.typeArgsIfAny
      return TypeNode.verbatim .query (← textSince start)) fun t => t.Regular ∧ t.IsOperand :=
    fun _ => (typeArgsIfAny_keeps hg).bind fun _ _ => verbatimOperand_keeps (by decide)
  refine .look fun start => ?_
  extract_lets importStarts
  refine .ite (fun _ => ?_) fun _ => .ite (fun _ => ?_) fun _ => .ite (fun _ => ?_) fun _ => ?_
  · exact advance_keeps.bind fun _ _ => .pure ⟨.literal trivial, trivial⟩
  · exact advance_keeps.bind fun _ _ => .look fun _ => .ite
      (fun _ => (importedPath_keeps hs).bind fun _ _ => hquery _)
      fun _ => (qualifiedName_keeps hs).bind fun _ _ => hquery _
  · exact (importedPath_keeps hs).bind fun _ _ => hquery _
  · split
    · exact .ite (fun _ => referenceType_keeps hg hs) fun _ =>
        advance_keeps.bind fun _ _ => .pure ⟨.keyword _, trivial⟩
    · exact referenceType_keeps hg hs

theorem primaryType_keeps (hg : g.Regular tokens) (hs : AllSound tokens) :
    Keeps tokens g.primaryType fun t => t.Regular ∧ t.IsOperand := by
  refine .lookHere fun start => ?_
  split
  case h_1 => exact (advance_keeps.bind fun _ _ => hg.type.bind fun _ ht =>
    require_keeps.bind fun _ _ => .pure ⟨.parenthesized ht, trivial⟩) start
  case h_2 =>
    refine .ite (fun _ => ?_) fun _ => ?_
    · exact (passGroup_keeps.bind fun _ _ => verbatimOperand_keeps (by decide)) start
    · exact ((typeMembers_keeps hg hs).bind fun _ hm => .pure
        ⟨.shape (fun m h => (hm m h).1) fun m h => (hm m h).2, trivial⟩) start
  case h_3 => exact tupleType_keeps hg start
  case h_4 => exact (takeString_keeps.bind fun _ _ => .pure ⟨.literal trivial, trivial⟩) start
  case h_5 => exact (advance_keeps.bind fun _ _ => verbatimOperand_keeps (by decide)) start
  case h_6 hkind =>
    refine (takeText_ensures (S := IsNumeral) fun hc => hc.isNumeral hs ?_).bind
      fun _ _ h => .pure ⟨.literal (.inl h), trivial⟩
    rw [Cursor.check, hkind]
    rfl
  case h_7 => exact namedType_keeps hg hs start
  case h_8 =>
    refine .ite (fun hnumber => ?_) fun _ => fail_keeps start
    refine Ensures.bind (P := fun _ d => d = start.advance) (.returns rfl Cursor.Within.advance
      fun _ => rfl) fun _ d hd => ?_
    subst hd
    refine (takeText_ensures (S := IsNumeral) fun hc => hc.isNumeral hs ?_).bind
      fun _ _ h => .pure ⟨.literal (.inr ⟨_, h, rfl⟩), trivial⟩
    rw [Cursor.check, Cursor.kind, Cursor.kindAhead, Cursor.tokenAt_advance]
    exact (Bool.and_eq_true_iff.1 hnumber).2

theorem typeSuffix_keeps (hg : g.Regular tokens) (start : Cursor) {t : TypeNode}
    (ht : t.Regular ∧ t.IsOperand) :
    Keeps tokens (g.typeSuffix start t) (OfSome fun t => t.Regular ∧ t.IsOperand) := by
  refine .look fun _ => .ite (fun _ => ?_) fun _ => .pure ofSome_none
  refine advance_keeps.bind fun _ _ => takeKind_keeps.bind fun _ _ => .ite (fun _ => ?_) fun _ => ?_
  · exact .pure (ofSome_some.2 ⟨.array ht.2 ht.1, trivial⟩)
  · exact hg.type.bind fun _ _ => require_keeps.bind fun _ _ => textSince_keeps.bind fun _ _ =>
      .pure (ofSome_some.2 ⟨.verbatim _ _, nofun, nofun⟩)

theorem operandTypeRule_keeps (hg : g.Regular tokens) (hs : AllSound tokens) :
    Keeps tokens g.operandTypeRule fun t => t.Regular ∧ t.IsOperand := by
  refine .look fun start => .ite (fun _ => ?_) fun _ => .ite (fun _ => ?_) fun _ => ?_
  · exact advance_keeps.bind fun _ _ => hg.operandType.bind fun _ ht =>
      .ite (fun _ => .pure ht) fun _ => verbatimOperand_keeps (by decide)
  · exact advance_keeps.bind fun _ _ => advance_keeps.bind fun _ _ =>
      verbatimOperand_keeps (by decide)
  · exact (primaryType_keeps hg hs).bind fun _ ht =>
      iterate_keeps (fun _ ht => typeSuffix_keeps hg start ht) ht

/-- One part stands for itself, and several are joined. -/
theorem joined_cases (join : List TypeNode → TypeNode) {parts : List TypeNode} (h : parts ≠ []) :
    (∃ t, parts = [t] ∧ joined join parts = t) ∨
      2 ≤ parts.length ∧ joined join parts = join parts := by
  match parts, h with
  | [t], _ => exact .inl ⟨t, rfl, rfl⟩
  | s :: t :: parts, _ => exact .inr ⟨Nat.le_add_left 2 _, rfl⟩

theorem intersectionType_keeps (hg : g.Regular tokens) (hs : AllSound tokens) :
    Keeps tokens g.intersectionType fun t => t.Regular ∧ ¬ t.IsUnion := by
  refine takeKind_keeps.bind fun _ _ => (separated_keeps (operandTypeRule_keeps hg hs)).bind
    fun parts hparts => .pure ?_
  obtain ⟨t, rfl, heq⟩ | ⟨hlength, heq⟩ := joined_cases .intersection hparts.1
  · obtain ⟨ht, hoperand⟩ := List.forall_mem_singleton.1 hparts.2
    rw [heq]
    refine ⟨ht, fun hunion => ?_⟩
    cases t <;> first | exact hunion | exact hoperand
  · rw [heq]
    exact ⟨.intersection hlength (fun t h => (hparts.2 t h).2) fun t h => (hparts.2 t h).1, id⟩

theorem unionType_keeps (hg : g.Regular tokens) (hs : AllSound tokens) :
    Keeps tokens g.unionType TypeNode.Regular := by
  refine takeKind_keeps.bind fun _ _ => (separated_keeps (intersectionType_keeps hg hs)).bind
    fun arms harms => .pure ?_
  obtain ⟨t, rfl, heq⟩ | ⟨hlength, heq⟩ := joined_cases .union harms.1
  · rw [heq]
    exact (List.forall_mem_singleton.1 harms.2).1
  · rw [heq]
    exact .union hlength (fun t h => (harms.2 t h).2) fun t h => (harms.2 t h).1

theorem typeRule_keeps (hg : g.Regular tokens) (hs : AllSound tokens) :
    Keeps tokens g.typeRule TypeNode.Regular := by
  refine .look fun start => .ite (fun _ => ?_) fun _ => .ite (fun _ => ?_) fun _ => ?_
  · exact functionType_keeps hg hs start _
  · exact takeWord_keeps.bind fun _ _ => advance_keeps.bind fun _ _ =>
      functionType_keeps hg hs start _
  · refine (unionType_keeps hg hs).bind fun _ ht => takeWord_keeps.bind fun _ _ => .ite
      (fun _ => ?_) fun _ => .pure ht
    exact (unionType_keeps hg hs).bind fun _ _ => require_keeps.bind fun _ _ =>
      hg.type.bind fun _ _ => require_keeps.bind fun _ _ => hg.type.bind fun _ _ => verbatim_keeps

end Grammar

end HandlerWeave.Source
