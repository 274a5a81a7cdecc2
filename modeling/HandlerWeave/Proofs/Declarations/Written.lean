import HandlerWeave.Proofs.Declarations.Printed

/-!
The declaration that a declaration's text shows: an interface, an enumeration or an alias with what
is left of its types. It is canonical, and its text is the same.
-/
namespace HandlerWeave.Source

def TypeParam.printed (scope : List String) (p : TypeParam) : TypeParam :=
  ⟨p.name, p.constraint.map (TypeNode.printed scope), p.fallback.map (TypeNode.printed scope)⟩

def Heritage.printed (scope : List String) (h : Heritage) : Heritage :=
  ⟨⟨none, h.name.name⟩, if isParameter scope h.name then [] else printedTypes scope h.typeArgs⟩

/-- Only strings and numbers are written as initializers. -/
def Expr.printed? : Expr → Option Expr
  | .string s => some (.string s)
  | .number n => some (.number n)
  | .negate (.number n) => some (.negate (.number n))
  | _ => none

def EnumMember.printed (m : EnumMember) : EnumMember := ⟨m.name, m.initializer.bind Expr.printed?⟩

structure TypeParam.Legible (scope : List String) (p : TypeParam) : Prop where
  constraint : OfSome (TypeNode.Legible scope) p.constraint
  fallback : OfSome (TypeNode.Legible scope) p.fallback

/-- A base may have any name, but with arguments that are written none of a type parameter. -/
structure Heritage.Legible (scope : List String) (h : Heritage) : Prop where
  applied : isParameter scope h.name = false → h.typeArgs = [] ∨ h.name.name ∉ scope
  typeArgs : isParameter scope h.name = false → ∀ t ∈ h.typeArgs, t.Legible scope

structure TypeMember.Legible (scope : List String) (m : TypeMember) : Prop where
  name : ∀ n ∈ m.name?, '\n' ∉ n.toList
  types : ∀ t ∈ m.types, t.Legible scope

structure EnumMember.Legible (m : EnumMember) : Prop where
  name : '\n' ∉ m.name.toList
  initializer : ∀ s, m.initializer = some (.string s) → '\n' ∉ s.toList

section

variable {scope scope' : List String} {t : TypeNode}

theorem TypeParam.Regular.printed_canonical {p : TypeParam} (hp : p.Regular) (h : p.Legible scope) :
    (p.printed scope).Canonical where
  name := hp.name
  constraint t ht := by
    obtain ⟨u, hu, rfl⟩ := Option.map_eq_some_iff.1 ht
    exact (hp.constraint u hu).printed_canonical (h.constraint u hu)
  fallback t ht := by
    obtain ⟨u, hu, rfl⟩ := Option.map_eq_some_iff.1 ht
    exact (hp.fallback u hu).printed_canonical (h.fallback u hu)
  modifier hname := by rw [TypeParam.printed, hp.modifier hname, Option.map_none]

theorem Heritage.Regular.printed_canonical {b : Heritage} (hb : b.Regular) (h : b.Legible scope) :
    (b.printed scope).Canonical where
  qualifier := rfl
  name := hb.name
  typeArgs t ht := by
    rw [Heritage.printed] at ht
    cases hparameter : isParameter scope b.name with
    | true =>
        rw [hparameter, if_pos rfl] at ht
        cases ht
    | false =>
        rw [hparameter, if_neg (by decide), printedTypes_eq] at ht
        obtain ⟨u, hu, rfl⟩ := List.mem_map.1 ht
        exact (hb.typeArgs u hu).printed_canonical (h.typeArgs hparameter u hu)

theorem Expr.Regular.printed_canonical {e : Expr} (he : e.Regular)
    (h : ∀ s, e = .string s → '\n' ∉ s.toList) : OfSome Expr.Canonical e.printed? := by
  intro e' he'
  cases e with
  | string s =>
      cases he'
      exact h s rfl
  | number n =>
      cases he'
      exact he
  | negate inner =>
      cases inner with
      | number n =>
          cases he'
          exact he
      | _ => cases he'
  | _ => cases he'

theorem EnumMember.printed_canonical {m : EnumMember} (hm : OfSome Expr.Regular m.initializer)
    (h : m.Legible) : m.printed.Canonical where
  name := h.name
  initializer e he := by
    obtain ⟨e', he', hprinted⟩ := Option.bind_eq_some_iff.1 he
    exact (hm e' he').printed_canonical (fun s hs => h.initializer s (by rw [he', hs])) e hprinted

theorem print_clause (hscope : scope' ⊆ scope) (mark : String) {o : Option TypeNode}
    (h : OfSome (TypeNode.Legible scope) o) :
    Piece.print (Declaration.clausePieces scope' mark (o.map (TypeNode.printed scope))) =
      Piece.print (Declaration.clausePieces scope mark o) := by
  cases o with
  | none => rfl
  | some t =>
      have ht : Piece.print ((t.printed scope).pieces scope') = Piece.print (t.pieces scope) :=
        (h t rfl).printed_text hscope
      simp only [Option.map_some, Declaration.clausePieces, Piece.print, ht]

theorem print_typeParamsPieces (scope : List String) (params : List TypeParam) :
    Piece.print (Declaration.typeParamsPieces scope params) =
      if params.isEmpty then ""
      else "<" ++ String.intercalate ", " (params.map fun p =>
        Piece.print (Declaration.typeParamPieces scope p)) ++ ">" := by
  rw [Declaration.typeParamsPieces]
  split
  · rfl
  · rw [print_enclosed, print_separated, List.map_map]
    rfl

theorem print_typeParams (hscope : scope' ⊆ scope) {params : List TypeParam}
    (h : ∀ p ∈ params, p.Legible scope) :
    Piece.print (Declaration.typeParamsPieces scope' (params.map (TypeParam.printed scope))) =
      Piece.print (Declaration.typeParamsPieces scope params) := by
  have hparams : params.map (fun p =>
      Piece.print (Declaration.typeParamPieces scope' (p.printed scope))) =
        params.map fun p => Piece.print (Declaration.typeParamPieces scope p) := by
    refine List.map_congr_left fun p hp => ?_
    simp only [Declaration.typeParamPieces, TypeParam.printed, Piece.print, Piece.print_append,
      print_clause hscope _ (h p hp).constraint, print_clause hscope _ (h p hp).fallback]
  simp only [print_typeParamsPieces, List.map_map, List.isEmpty_map, Function.comp_def, hparams]

/-- A base keeps its name whatever the name is. -/
theorem Heritage.Legible.printed_text (hscope : scope' ⊆ scope) {b : Heritage}
    (h : b.Legible scope) :
    (Declaration.heritageType (b.printed scope)).text scope' =
      (Declaration.heritageType b).text scope := by
  rw [Declaration.heritageType, Declaration.heritageType, reference_text, reference_text,
    Heritage.printed]
  cases hparameter : isParameter scope b.name with
  | true => simp
  | false =>
      have hargs : SameTexts _ _ := sameTexts_types fun t ht =>
        (h.typeArgs hparameter t ht).printed_text hscope
      have hempty : (isParameter scope' ⟨none, b.name.name⟩ || b.typeArgs.isEmpty) =
          b.typeArgs.isEmpty := by
        obtain hnone | hname := h.applied hparameter
        · rw [hnone]
          exact Bool.or_true _
        · have hname' : b.name.name ∉ scope' := fun h => hname (hscope h)
          simp [isParameter, hname']
      rw [if_neg (by decide), hargs, printedTypes_eq, List.isEmpty_map, hempty]
      rfl

theorem print_header (hscope : scope' ⊆ scope) (name : String) {params : List TypeParam}
    {bases : List Heritage} (hparams : ∀ p ∈ params, p.Legible scope)
    (hbases : ∀ b ∈ bases, b.Legible scope) :
    Piece.print (Declaration.headerPieces scope' name (params.map (TypeParam.printed scope))
      (bases.map (Heritage.printed scope))) =
        Piece.print (Declaration.headerPieces scope name params bases) := by
  have hbases : SameTexts
      ((bases.map (Heritage.printed scope)).map fun b => (Declaration.heritageType b).pieces scope')
      (bases.map fun b => (Declaration.heritageType b).pieces scope) := by
    rw [SameTexts, List.map_map, List.map_map, List.map_map]
    exact List.map_congr_left fun b hb => (hbases b hb).printed_text hscope
  have htexts := hbases.separated ", "
  have hparams := print_typeParams hscope hparams
  cases bases with
  | nil => simp [Declaration.headerPieces, Piece.print, Piece.print_append, hparams]
  | cons b bases =>
      simp only [Declaration.headerPieces, List.map_cons, List.isEmpty_cons, Bool.false_eq_true,
        if_false, Piece.print, Piece.print_append, hparams] at htexts ⊢
      rw [htexts]

end

namespace InterfaceDef

def scope (i : InterfaceDef) : List String := i.typeParams.map (·.name)

/-- What is left of the interface in its text. -/
def printed (i : InterfaceDef) : InterfaceDef where
  name := i.name
  modifiers := .written
  typeParams := i.typeParams.map (TypeParam.printed i.scope)
  bases := i.bases.map (Heritage.printed i.scope)
  members := printedMembers i.scope i.members

structure Legible (i : InterfaceDef) : Prop where
  typeParams : ∀ p ∈ i.typeParams, p.Legible i.scope
  bases : ∀ b ∈ i.bases, b.Legible i.scope
  members : ∀ m ∈ i.members, m.Legible i.scope

variable {i : InterfaceDef} {scope : List String}

theorem Regular.printed_canonical (hi : i.Regular) (h : i.Legible) : i.printed.Canonical where
  name := hi.name
  modifiers := rfl
  typeParams := List.forall_mem_map.2 fun p hp =>
    (hi.typeParams p hp).printed_canonical (h.typeParams p hp)
  bases := List.forall_mem_map.2 fun b hb => (hi.bases b hb).printed_canonical (h.bases b hb)
  plain := printedMembers_plain (fun m hm => (hi.members m hm).1) fun m hm => (h.members m hm).name
  members := printedMembers_types fun m hm t ht =>
    ((hi.members m hm).2 t ht).printed_canonical ((h.members m hm).types t ht)

theorem Legible.printed_text (h : i.Legible) (hscope : scope ⊆ i.scope) :
    Piece.print ((Declaration.interfaceDef i.printed).piecesIn scope) =
      (Declaration.interfaceDef i).text := by
  have hmembers : SameTexts (memberPieces scope (printedMembers i.scope i.members))
      (memberPieces i.scope i.members) :=
    sameTexts_members fun m hm t ht => ((h.members m hm).types t ht).printed_text hscope
  have hheader := print_header hscope i.name h.typeParams h.bases
  rw [Declaration.text, Declaration.piecesIn, Declaration.pieces]
  simp only [print_block, printed]
  rw [hheader, hmembers]
  rfl

end InterfaceDef

/-- The data of a class member: instance properties that are not private by name, properties made by
the constructor, index signatures. -/
def ClassMember.data : ClassMember → List TypeMember
  | .property p =>
    if p.isStatic || p.name.toList.head? == some '#' then []
    else [.property p.name p.optional p.type]
  | .constructor params =>
    (params.filter (·.property)).map fun p => .property p.name p.optional p.type
  | .index s => [.index s.keyName s.keyType s.type]
  | .method _ => []

/-- The properties that the constructor makes. -/
def ClassMember.made : ClassMember → List String
  | .constructor params => (params.filter (·.property)).map (·.name)
  | _ => []

namespace ClassDef

/-- The interface over the data of a class. -/
def overData (c : ClassDef) : InterfaceDef where
  name := c.name
  modifiers := c.modifiers
  typeParams := c.typeParams
  bases := c.heritage
  members := c.members.flatMap ClassMember.data

/-- A property made by the constructor is written without quotes, so no such name may be private. -/
structure Legible (c : ClassDef) : Prop where
  overData : c.overData.Legible
  made : ∀ n ∈ c.members.flatMap ClassMember.made, n.toList.head? ≠ some '#'

variable {c : ClassDef}

theorem Regular.overData (hc : c.Regular) : c.overData.Regular where
  name := hc.name
  typeParams := hc.typeParams
  bases := hc.heritage
  members x hx := by
    obtain ⟨m, hm, hx⟩ := List.mem_flatMap.1 hx
    have hregular := hc.members m hm
    cases m with
    | property p =>
        rw [ClassMember.data] at hx
        split at hx
        · cases hx
        · obtain rfl := List.mem_singleton.1 hx
          refine ⟨fun _ hk => ?_, fun t ht => hregular t (by simpa [TypeMember.types] using ht)⟩
          cases hk
    | method => cases hx
    | constructor params =>
        obtain ⟨p, hp, rfl⟩ := List.mem_map.1 hx
        have htype := (hregular p (List.mem_filter.1 hp).1).type
        refine ⟨fun _ hk => ?_, fun t ht => htype t (by simpa [TypeMember.types] using ht)⟩
        cases hk
    | index s =>
        obtain rfl := List.mem_singleton.1 hx
        refine ⟨fun k hk => ?_, fun t ht => ?_⟩
        · cases hk
          exact hregular.keyName
        · obtain rfl | ht := List.mem_cons.1 ht
          · exact hregular.keyType
          · obtain rfl := List.mem_singleton.1 ht
            exact hregular.type

theorem isIdentifier_of_isWord {w : String} (hw : IsWord w) (h : w.toList.head? ≠ some '#') :
    Text.isIdentifier w = true := by
  obtain hw | ⟨v, _, rfl⟩ := hw
  · exact hw
  · exact absurd (by rw [String.toList_append]; rfl) h

theorem memberPieces_append (scope : List String) (xs ys : List TypeMember) :
    memberPieces scope (xs ++ ys) = memberPieces scope xs ++ memberPieces scope ys := by
  induction xs with
  | nil => rfl
  | cons x xs ih => cases x <;> rw [List.cons_append, memberPieces, memberPieces, ih] <;> rfl

theorem memberPieces_data (scope : List String) {m : ClassMember} (hm : m.Regular)
    (hmade : ∀ n ∈ m.made, n.toList.head? ≠ some '#') :
    memberPieces scope m.data = Declaration.classMemberPieces scope m := by
  cases m with
  | property p =>
      rw [ClassMember.data, Declaration.classMemberPieces]
      split <;> rfl
  | method => rfl
  | index s => rfl
  | constructor params =>
      have hnames : ∀ p ∈ params.filter (·.property), Text.memberName p.name = p.name := by
        intro p hp
        have hword := (hm p (List.mem_filter.1 hp).1).name
        have hname := isIdentifier_of_isWord hword (hmade _ (List.mem_map_of_mem hp))
        rw [Text.memberName, if_pos hname]
      rw [ClassMember.data, Declaration.classMemberPieces]
      generalize params.filter (·.property) = made at hnames
      induction made with
      | nil => rfl
      | cons p kept ih =>
          obtain ⟨hp, hkept⟩ := List.forall_mem_cons.1 hnames
          rw [List.map_cons, List.map_cons, memberPieces, hp, ih hkept]

/-- A class is written as the interface over its data is. -/
theorem text_overData (hc : c.Regular)
    (h : ∀ n ∈ c.members.flatMap ClassMember.made, n.toList.head? ≠ some '#') :
    (Declaration.interfaceDef c.overData).text = (Declaration.classDef c).text := by
  have hmembers : ∀ scope : List String, ∀ ms : List ClassMember, (∀ m ∈ ms, m ∈ c.members) →
      memberPieces scope (ms.flatMap ClassMember.data) =
        ms.flatMap (Declaration.classMemberPieces scope) := by
    intro scope ms hms
    induction ms with
    | nil => rfl
    | cons m ms ih =>
        obtain ⟨hm, hms⟩ := List.forall_mem_cons.1 hms
        rw [List.flatMap_cons, List.flatMap_cons, memberPieces_append, ih hms,
          memberPieces_data scope (hc.members m hm)
            fun n hn => h n (List.mem_flatMap_of_mem hm hn)]
  have hpieces := hmembers (c.typeParams.map (·.name)) c.members fun _ => id
  rw [Declaration.text, Declaration.text, Declaration.pieces, Declaration.pieces]
  simp only [overData, Declaration.scope, Declaration.typeParams] at hpieces ⊢
  rw [hpieces]

end ClassDef

namespace EnumDef

def printed (e : EnumDef) : EnumDef where
  name := e.name
  modifiers := .written
  isConst := false
  members := e.members.map EnumMember.printed

def Legible (e : EnumDef) : Prop := ∀ m ∈ e.members, m.Legible

theorem Regular.printed_canonical {e : EnumDef} (he : e.Regular) (h : e.Legible) :
    e.printed.Canonical where
  name := he.name
  modifiers := rfl
  plain := rfl
  members := List.forall_mem_map.2 fun m hm =>
    EnumMember.printed_canonical (he.initializers m hm) (h m hm)

theorem printed_text (e : EnumDef) :
    (Declaration.enumDef e.printed).text = (Declaration.enumDef e).text := by
  have hmember : ∀ m : EnumMember,
      Declaration.enumMemberText m.printed = Declaration.enumMemberText m := by
    rintro ⟨w, initializer⟩
    cases initializer with
    | none => rfl
    | some e =>
        cases e with
        | negate inner => cases inner <;> rfl
        | _ => rfl
  have hmembers : e.printed.members.map Declaration.enumMemberText =
      e.members.map Declaration.enumMemberText := by
    rw [printed, List.map_map]
    exact List.map_congr_left fun m _ => hmember m
  rw [Declaration.text, Declaration.text, Declaration.pieces, Declaration.pieces, hmembers]
  rfl

end EnumDef

namespace AliasDef

def scope (a : AliasDef) : List String := a.typeParams.map (·.name)

def printed (a : AliasDef) : AliasDef where
  name := a.name
  modifiers := .written
  typeParams := a.typeParams.map (TypeParam.printed a.scope)
  type := a.type.printed a.scope

structure Legible (a : AliasDef) : Prop where
  typeParams : ∀ p ∈ a.typeParams, p.Legible a.scope
  type : a.type.Legible a.scope

variable {a : AliasDef} {scope : List String}

theorem Regular.printed_canonical (ha : a.Regular) (h : a.Legible) : a.printed.Canonical where
  name := ha.name
  modifiers := rfl
  typeParams := List.forall_mem_map.2 fun p hp =>
    (ha.typeParams p hp).printed_canonical (h.typeParams p hp)
  type := ha.type.printed_canonical h.type

theorem Legible.printed_text (h : a.Legible) (hscope : scope ⊆ a.scope) :
    Piece.print ((Declaration.aliasDef a.printed).piecesIn scope) =
      (Declaration.aliasDef a).text := by
  have hparams := print_typeParams hscope h.typeParams
  have htype : Piece.print ((a.type.printed a.scope).pieces scope) =
      Piece.print (a.type.pieces a.scope) := h.type.printed_text hscope
  rw [Declaration.text, Declaration.piecesIn, Declaration.pieces]
  simp only [printed, Piece.print, Piece.print_append, print_enclosed, hparams, htype]
  rfl

end AliasDef

end HandlerWeave.Source

namespace HandlerWeave.Declaration

open Source

/-- The declaration that the text of a declaration shows. -/
def printed : Declaration → Declaration
  | classDef c => interfaceDef c.overData.printed
  | interfaceDef i => interfaceDef i.printed
  | enumDef e => enumDef e.printed
  | aliasDef a => aliasDef a.printed

/-- Nothing in the text of the declaration is read in another way. -/
def Legible : Declaration → Prop
  | classDef c => c.Legible
  | interfaceDef i => i.Legible
  | enumDef e => e.Legible
  | aliasDef a => a.Legible

variable {d : Declaration}

theorem printed_scope (d : Declaration) : d.printed.scope = d.scope := by
  have hnames : ∀ scope (params : List TypeParam),
      (params.map (TypeParam.printed scope)).map (·.name) = params.map (·.name) := fun _ _ => by
    rw [List.map_map]
    rfl
  cases d with
  | enumDef => rfl
  | classDef | interfaceDef | aliasDef => exact hnames _ _

theorem printed_canonical (hregular : d.toItem.Regular) (h : d.Legible) : d.printed.Canonical := by
  cases d with
  | classDef c => exact (ClassDef.Regular.overData hregular).printed_canonical h.overData
  | interfaceDef i => exact InterfaceDef.Regular.printed_canonical hregular h
  | enumDef e => exact EnumDef.Regular.printed_canonical hregular h
  | aliasDef a => exact AliasDef.Regular.printed_canonical hregular h

theorem printed_piecesIn (hregular : d.toItem.Regular) (h : d.Legible) {scope : List String}
    (hscope : scope ⊆ d.scope) : Piece.print (d.printed.piecesIn scope) = d.text := by
  cases d with
  | classDef c =>
      rw [← ClassDef.text_overData hregular h.made]
      exact h.overData.printed_text hscope
  | interfaceDef i => exact InterfaceDef.Legible.printed_text h hscope
  | enumDef e => exact e.printed_text
  | aliasDef a => exact AliasDef.Legible.printed_text h hscope

theorem printed_text (hregular : d.toItem.Regular) (h : d.Legible) : d.printed.text = d.text := by
  rw [text, pieces_eq, printed_scope]
  exact printed_piecesIn hregular h (List.Subset.refl _)

/-- The text of a legible declaration is parsed to what is left of the declaration. -/
theorem parse_text (hregular : d.toItem.Regular) (h : d.Legible) :
    parse d.text = .ok [d.printed.toItem] := by
  rw [← printed_piecesIn hregular h (List.nil_subset _)]
  exact (printed_canonical hregular h).parse_text

end HandlerWeave.Declaration
