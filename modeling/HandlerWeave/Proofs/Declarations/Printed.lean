import HandlerWeave.Proofs.Declarations.Reading

/-!
What is left of a declaration in its text. Types kept as text only become `unknown`, qualifiers and
the arguments of type parameters go, properties without a type get `any`, methods leave nothing, and
a class becomes an interface. What is left has the same text.
-/
namespace HandlerWeave.Source

/-- What a name is read as where a type stands. -/
def TypeNode.named (name : String) (args : List TypeNode) : TypeNode :=
  match Keyword.ofText? name with
  | some word => .keyword word
  | none =>
    if name = "true" then .literal (.bool true)
    else if name = "false" then .literal (.bool false)
    else .reference ⟨none, name⟩ args

mutual

/-- What the text of a type shows of it, where the names in `scope` are type parameters. -/
def TypeNode.printed (scope : List String) : TypeNode → TypeNode
  | .keyword word => .keyword word
  | .literal value => .literal value
  | .reference name args =>
    .named name.name (if isParameter scope name then [] else printedTypes scope args)
  | .array element =>
    .array (if needsParentheses element then .parenthesized (TypeNode.printed scope element)
      else TypeNode.printed scope element)
  | .tuple elements => .tuple (printedTypes scope elements)
  | .union arms => .union (printedTypes scope arms)
  | .intersection parts => .intersection (printedTypes scope parts)
  | .parenthesized inner => .parenthesized (TypeNode.printed scope inner)
  | .shape members => .shape (printedMembers scope members)
  | .verbatim _ _ => .keyword .unknown

def printedTypes (scope : List String) : List TypeNode → List TypeNode
  | [] => []
  | type :: types => TypeNode.printed scope type :: printedTypes scope types

def printedOptional (scope : List String) : Option TypeNode → TypeNode
  | some type => TypeNode.printed scope type
  | none => .keyword .any

def printedMembers (scope : List String) : List TypeMember → List TypeMember
  | [] => []
  | .property name optional type :: members =>
    .property name optional (some (printedOptional scope type)) :: printedMembers scope members
  | .index keyName keyType type :: members =>
    .index keyName (TypeNode.printed scope keyType) (TypeNode.printed scope type) ::
      printedMembers scope members
  | .method _ :: members => printedMembers scope members

end

theorem printedTypes_eq (scope : List String) (types : List TypeNode) :
    printedTypes scope types = types.map (TypeNode.printed scope) := by
  induction types with
  | nil => rfl
  | cons type types ih => rw [printedTypes, ih, List.map_cons]

namespace TypeMember

def printed? (scope : List String) : TypeMember → Option TypeMember
  | property name optional type => some (property name optional (some (printedOptional scope type)))
  | index keyName keyType type => some (index keyName (keyType.printed scope) (type.printed scope))
  | method _ => none

/-- The name that a property is written with. -/
def name? : TypeMember → Option String
  | property name _ _ => some name
  | _ => none

end TypeMember

theorem printedMembers_eq (scope : List String) (members : List TypeMember) :
    printedMembers scope members = members.filterMap (TypeMember.printed? scope) := by
  induction members with
  | nil => rfl
  | cons m members ih => cases m <;> rw [printedMembers, ih] <;> rfl

/-- Nothing in the text of the type is read in another way: no string has a line break, no name is
a word that the grammar of types reserves, and a name with arguments is read as a name and as none
of the type parameters. -/
inductive TypeNode.Legible (scope : List String) : TypeNode → Prop
  | keyword (word : Keyword) : Legible scope (.keyword word)
  | literal {value : LiteralType} (h : ∀ s, value = .string s → '\n' ∉ s.toList) :
      Legible scope (.literal value)
  | parameter {name : QualifiedName} {args : List TypeNode} (hname : name.name ∉ reservedNames)
      (hparameter : isParameter scope name = true) : Legible scope (.reference name args)
  | reference {name : QualifiedName} {args : List TypeNode} (hname : name.name ∉ reservedNames)
      (hparameter : isParameter scope name = false)
      (happlied : args = [] ∨ name.name ∉ scope ∧ Keyword.ofText? name.name = none ∧
        name.name ∉ ["true", "false"])
      (hargs : ∀ t ∈ args, Legible scope t) : Legible scope (.reference name args)
  | array {element : TypeNode} (h : Legible scope element) : Legible scope (.array element)
  | tuple {elements : List TypeNode} (h : ∀ t ∈ elements, Legible scope t) :
      Legible scope (.tuple elements)
  | union {arms : List TypeNode} (h : ∀ t ∈ arms, Legible scope t) : Legible scope (.union arms)
  | intersection {parts : List TypeNode} (h : ∀ t ∈ parts, Legible scope t) :
      Legible scope (.intersection parts)
  | parenthesized {inner : TypeNode} (h : Legible scope inner) :
      Legible scope (.parenthesized inner)
  | shape {members : List TypeMember} (hnames : ∀ m ∈ members, ∀ n ∈ m.name?, '\n' ∉ n.toList)
      (h : ∀ m ∈ members, ∀ t ∈ m.types, Legible scope t) : Legible scope (.shape members)
  | verbatim (kind : VerbatimKind) (text : String) : Legible scope (.verbatim kind text)

/-- The text of the type is read as what it shows of the type where only the names in `written` are
type parameters: no string has a line break, no name is a word that the grammar of types reserves,
and a name with arguments is read as a name. -/
inductive TypeNode.Readable (scope written : List String) : TypeNode → Prop
  | keyword (word : Keyword) : Readable scope written (.keyword word)
  | literal {value : LiteralType} (h : ∀ s, value = .string s → '\n' ∉ s.toList) :
      Readable scope written (.literal value)
  | parameter {name : QualifiedName} {args : List TypeNode} (hname : name.name ∉ reservedNames)
      (hparameter : isParameter scope name = true) : Readable scope written (.reference name args)
  | reference {name : QualifiedName} {args : List TypeNode} (hname : name.name ∉ reservedNames)
      (hparameter : isParameter scope name = false)
      (happlied : args = [] ∨ name.name ∉ written ∧ Keyword.ofText? name.name = none ∧
        name.name ∉ ["true", "false"])
      (hargs : ∀ t ∈ args, Readable scope written t) : Readable scope written (.reference name args)
  | array {element : TypeNode} (h : Readable scope written element) :
      Readable scope written (.array element)
  | tuple {elements : List TypeNode} (h : ∀ t ∈ elements, Readable scope written t) :
      Readable scope written (.tuple elements)
  | union {arms : List TypeNode} (h : ∀ t ∈ arms, Readable scope written t) :
      Readable scope written (.union arms)
  | intersection {parts : List TypeNode} (h : ∀ t ∈ parts, Readable scope written t) :
      Readable scope written (.intersection parts)
  | parenthesized {inner : TypeNode} (h : Readable scope written inner) :
      Readable scope written (.parenthesized inner)
  | shape {members : List TypeMember} (hnames : ∀ m ∈ members, ∀ n ∈ m.name?, '\n' ∉ n.toList)
      (h : ∀ m ∈ members, ∀ t ∈ m.types, Readable scope written t) :
      Readable scope written (.shape members)
  | verbatim (kind : VerbatimKind) (text : String) : Readable scope written (.verbatim kind text)

section

variable {scope scope' : List String} {t : TypeNode} {w : String} {args : List TypeNode}

/-- A legible type can be read with any of its parameters known as such. -/
theorem TypeNode.Legible.readable (h : t.Legible scope) (hscope : scope' ⊆ scope) :
    t.Readable scope scope' := by
  induction h with
  | keyword word => exact .keyword word
  | literal h => exact .literal h
  | parameter hname hparameter => exact .parameter hname hparameter
  | reference hname hparameter happlied _ ih =>
      exact .reference hname hparameter
        (happlied.imp_right fun h => ⟨fun hmem => h.1 (hscope hmem), h.2⟩) ih
  | array _ ih => exact .array ih
  | tuple _ ih => exact .tuple ih
  | union _ ih => exact .union ih
  | intersection _ ih => exact .intersection ih
  | parenthesized _ ih => exact .parenthesized ih
  | shape hnames _ ih => exact .shape hnames ih
  | verbatim kind text => exact .verbatim kind text

theorem keyword_text {word : Keyword} (h : Keyword.ofText? w = some word) : word.text = w := by
  have hfound := List.find?_some h
  simpa using hfound

/-- A name is read as a keyword, a truth value or a name of its own, and each binds like a name. -/
theorem TypeNode.named_cases (w : String) (args : List TypeNode) :
    (∃ word, Keyword.ofText? w = some word ∧ TypeNode.named w args = .keyword word) ∨
      (∃ b : Bool, w = (if b then "true" else "false") ∧
        TypeNode.named w args = .literal (.bool b)) ∨
      (Keyword.ofText? w = none ∧ w ≠ "true" ∧ w ≠ "false" ∧
        TypeNode.named w args = .reference ⟨none, w⟩ args) := by
  unfold TypeNode.named
  cases hkeyword : Keyword.ofText? w with
  | some word => exact .inl ⟨word, rfl, rfl⟩
  | none =>
      by_cases htrue : w = "true"
      · exact .inr (.inl ⟨true, htrue, by simp [htrue]⟩)
      · by_cases hfalse : w = "false"
        · exact .inr (.inl ⟨false, hfalse, by simp [hfalse]⟩)
        · exact .inr (.inr ⟨rfl, htrue, hfalse, by simp [htrue, hfalse]⟩)

theorem TypeNode.isOperand_named (w : String) (args : List TypeNode) :
    (named w args).IsOperand := by
  obtain ⟨_, _, h⟩ | ⟨_, _, h⟩ | ⟨_, _, _, h⟩ := named_cases w args
  all_goals
    rw [h]
    trivial

theorem TypeNode.IsOperand.not_isUnion (h : t.IsOperand) : ¬ t.IsUnion := by
  cases t with
  | union => exact h.elim
  | _ => exact id

theorem TypeNode.IsOperand.printed (h : t.IsOperand) : (t.printed scope).IsOperand := by
  cases t with
  | reference name args => exact isOperand_named _ _
  | union | intersection => exact h.elim
  | _ => trivial

theorem TypeNode.not_isUnion_printed (h : ¬ t.IsUnion) : ¬ (t.printed scope).IsUnion := by
  cases t with
  | reference name args => exact (isOperand_named _ _).not_isUnion
  | union => exact absurd trivial h
  | _ => exact id

theorem TypeNode.named_canonical (hw : IsWord w) (hreserved : w ∉ reservedNames)
    (hargs : ∀ t ∈ args, t.Canonical) : (named w args).Canonical := by
  obtain ⟨word, _, h⟩ | ⟨b, _, h⟩ | ⟨hkeyword, htrue, hfalse, h⟩ := named_cases w args
  · rw [h]
    exact .keyword word
  · rw [h]
    exact .literal ⟨trivial, nofun⟩
  · rw [h]
    exact .reference ⟨hw, hreserved, hkeyword, htrue, hfalse⟩ hargs

theorem printedMembers_plain {members : List TypeMember}
    (hkeys : ∀ m ∈ members, ∀ k ∈ m.keyName?, IsWord k)
    (hnames : ∀ m ∈ members, ∀ n ∈ m.name?, '\n' ∉ n.toList) :
    ∀ m ∈ printedMembers scope members, m.Plain := by
  rw [printedMembers_eq]
  intro m hm
  obtain ⟨x, hx, hprinted⟩ := List.mem_filterMap.1 hm
  cases x with
  | property name optional type =>
      cases hprinted
      exact ⟨hnames _ hx name rfl, rfl⟩
  | index keyName keyType type =>
      cases hprinted
      exact hkeys _ hx keyName rfl
  | method => cases hprinted

theorem printedMembers_types {members : List TypeMember}
    (h : ∀ m ∈ members, ∀ t ∈ m.types, (t.printed scope).Canonical) :
    ∀ m ∈ printedMembers scope members, ∀ t ∈ m.types, t.Canonical := by
  rw [printedMembers_eq]
  intro m hm t ht
  obtain ⟨x, hx, hprinted⟩ := List.mem_filterMap.1 hm
  cases x with
  | property name optional type =>
      cases hprinted
      obtain rfl := List.mem_singleton.1 ht
      cases type with
      | none => exact .keyword .any
      | some type => exact h _ hx type (List.mem_singleton.2 rfl)
  | index keyName keyType type =>
      cases hprinted
      obtain rfl | ht := List.mem_cons.1 ht
      · exact h _ hx keyType List.mem_cons_self
      · obtain rfl := List.mem_singleton.1 ht
        exact h _ hx type (List.mem_cons_of_mem _ List.mem_cons_self)
  | method => cases hprinted

/-- What the text of a readable type shows is canonical. -/
theorem TypeNode.Readable.printed_canonical (h : t.Readable scope scope') (hregular : t.Regular) :
    (t.printed scope).Canonical := by
  have hlist : ∀ {types : List TypeNode}, (∀ t ∈ types, (t.printed scope).Canonical) →
      ∀ t ∈ printedTypes scope types, t.Canonical := by
    intro types h
    rw [printedTypes_eq]
    exact List.forall_mem_map.2 h
  induction hregular with
  | keyword word => exact .keyword word
  | literal hvalue =>
      cases h with
      | literal hline => exact .literal ⟨hvalue, hline⟩
  | reference hname _ ih =>
      rw [TypeNode.printed]
      cases h with
      | parameter hreserved hparameter =>
          rw [if_pos hparameter]
          exact named_canonical hname hreserved nofun
      | reference hreserved hparameter _ hargs =>
          rw [hparameter]
          exact named_canonical hname hreserved (hlist fun t ht => ih t ht (hargs t ht))
  | array hoperand _ ih =>
      cases h with
      | array h =>
          rw [TypeNode.printed, hoperand.needsNone]
          exact .array hoperand.printed (ih h)
  | tuple _ ih =>
      cases h with
      | tuple h => exact .tuple (hlist fun t ht => ih t ht (h t ht))
  | union hlength hparts _ ih =>
      cases h with
      | union h =>
          have harms := hlist fun t ht => ih t ht (h t ht)
          rw [TypeNode.printed]
          rw [printedTypes_eq] at harms ⊢
          exact .union (by simpa using hlength)
            (List.forall_mem_map.2 fun t ht => not_isUnion_printed (hparts t ht)) harms
  | intersection hlength hparts _ ih =>
      cases h with
      | intersection h =>
          have hmembers := hlist fun t ht => ih t ht (h t ht)
          rw [TypeNode.printed]
          rw [printedTypes_eq] at hmembers ⊢
          exact .intersection (by simpa using hlength)
            (List.forall_mem_map.2 fun t ht => (hparts t ht).printed) hmembers
  | parenthesized _ ih =>
      cases h with
      | parenthesized h => exact .parenthesized (ih h)
  | shape hkeys _ ih =>
      cases h with
      | shape hnames h =>
          exact .shape (printedMembers_plain hkeys hnames)
            (printedMembers_types fun m hm t ht => ih m hm t ht (h m hm t ht))
  | verbatim kind text => exact .keyword .unknown

theorem TypeNode.Regular.printed_canonical (hregular : t.Regular) (h : t.Legible scope) :
    (t.printed scope).Canonical :=
  (h.readable (List.Subset.refl _)).printed_canonical hregular

theorem print_separated (separator : String) (parts : List (List Piece)) :
    Piece.print (Piece.separated separator parts) =
      String.intercalate separator (parts.map Piece.print) := by
  induction parts with
  | nil => rfl
  | cons part parts ih =>
      cases parts with
      | nil => simp [Piece.separated]
      | cons next parts =>
          simp [Piece.separated, Piece.print_append, Piece.print, Piece.text, ih,
            String.intercalate_cons_cons, String.append_assoc]

/-- The two lists of pieces print the same texts. -/
def SameTexts (parts parts' : List (List Piece)) : Prop :=
  parts.map Piece.print = parts'.map Piece.print

theorem SameTexts.separated {parts parts' : List (List Piece)} (h : SameTexts parts parts')
    (separator : String) :
    Piece.print (Piece.separated separator parts) =
      Piece.print (Piece.separated separator parts') := by
  rw [print_separated, print_separated, h]

theorem print_enclosed (left right : String) (pieces : List Piece) :
    Piece.print (Piece.enclosed left pieces right) = left ++ Piece.print pieces ++ right := by
  simp [Piece.enclosed, Piece.print, Piece.print_append, Piece.text, String.append_assoc]

theorem sameTexts_types {types : List TypeNode}
    (h : ∀ t ∈ types, (t.printed scope).text scope' = t.text scope) :
    SameTexts (typePieces scope' (printedTypes scope types)) (typePieces scope types) := by
  rw [SameTexts, printedTypes_eq, typePieces_eq, typePieces_eq, List.map_map, List.map_map,
    List.map_map]
  exact List.map_congr_left h

theorem printedOptional_text {type : Option TypeNode}
    (h : OfSome (fun t => (t.printed scope).text scope' = t.text scope) type) :
    (printedOptional scope type).text scope' = optionalTypeText scope type := by
  cases type with
  | none => rfl
  | some t => exact h t rfl

theorem sameTexts_members {members : List TypeMember}
    (h : ∀ m ∈ members, ∀ t ∈ m.types, (t.printed scope).text scope' = t.text scope) :
    SameTexts (memberPieces scope' (printedMembers scope members))
      (memberPieces scope members) := by
  induction members with
  | nil => rfl
  | cons m members ih =>
      obtain ⟨hm, hmembers⟩ := List.forall_mem_cons.1 h
      have htail := ih hmembers
      rw [SameTexts] at htail ⊢
      cases m with
      | property name optional type =>
          have htype : Piece.print ((printedOptional scope type).pieces scope') =
              Piece.print (optionalPieces scope type) :=
            printedOptional_text fun t ht => hm t (by simpa [TypeMember.types] using ht)
          simp only [printedMembers, memberPieces, List.map_cons, htail, Piece.property,
            optionalPieces, print_enclosed, htype]
      | index keyName keyType type =>
          have hkey : Piece.print ((keyType.printed scope).pieces scope') =
              Piece.print (keyType.pieces scope) := hm _ (by simp [TypeMember.types])
          have htype : Piece.print ((type.printed scope).pieces scope') =
              Piece.print (type.pieces scope) := hm _ (by simp [TypeMember.types])
          simp only [printedMembers, memberPieces, List.map_cons, htail, Piece.index,
            Piece.print_append, print_enclosed, hkey, htype]
      | method name => exact htail

/-- The text of a name, with its arguments if there are any. -/
theorem reference_text (scope : List String) (name : QualifiedName) (args : List TypeNode) :
    (TypeNode.reference name args).text scope =
      name.name ++ if isParameter scope name || args.isEmpty then ""
        else "<" ++ String.intercalate ", " ((typePieces scope args).map Piece.print) ++ ">" := by
  rw [TypeNode.text, TypeNode.pieces]
  cases isParameter scope name <;> cases args <;>
    simp [Piece.print, Piece.text, print_enclosed, print_separated]

theorem named_text (h : args = [] ∨ w ∉ scope' ∧ Keyword.ofText? w = none ∧ w ∉ ["true", "false"]) :
    (TypeNode.named w args).text scope' =
      w ++ if args.isEmpty then ""
        else "<" ++ String.intercalate ", " ((typePieces scope' args).map Piece.print) ++ ">" := by
  obtain ⟨word, hkeyword, hnamed⟩ | ⟨b, rfl, hnamed⟩ | ⟨_, _, _, hnamed⟩ :=
    TypeNode.named_cases w args
  · obtain rfl | ⟨_, hnone, _⟩ := h
    · rw [hnamed, ← keyword_text hkeyword]
      simp [TypeNode.text, TypeNode.pieces, Piece.print, Piece.text]
    · rw [hnone] at hkeyword
      cases hkeyword
  · obtain rfl | ⟨_, _, hb⟩ := h
    · rw [hnamed]
      simp [TypeNode.text, TypeNode.pieces, LiteralType.text, Piece.print, Piece.text]
    · exact absurd hb (by cases b <;> decide)
  · rw [hnamed, reference_text]
    obtain rfl | ⟨hscope, _⟩ := h
    · simp
    · simp [isParameter, hscope]

theorem needsParentheses_printed (h : needsParentheses t = false) :
    needsParentheses (t.printed scope) = false := by
  cases t with
  | reference name args => exact (TypeNode.isOperand_named _ _).needsNone
  | union | intersection => cases h
  | _ => rfl

/-- What is left of a type has the text of the type. -/
theorem TypeNode.Readable.printed_text (h : t.Readable scope scope') :
    (t.printed scope).text scope' = t.text scope := by
  induction h with
  | keyword | literal => rfl
  | @parameter name args _ hparameter =>
      rw [TypeNode.printed, if_pos hparameter, named_text (.inl rfl), reference_text, hparameter]
      rfl
  | @reference name args _ hparameter happlied _ ih =>
      have hargs := sameTexts_types ih
      have happlied' : printedTypes scope args = [] ∨ name.name ∉ scope' ∧
          Keyword.ofText? name.name = none ∧ name.name ∉ ["true", "false"] := by
        refine happlied.imp_left ?_
        rintro rfl
        rfl
      rw [TypeNode.printed, hparameter, if_neg (by decide), named_text happlied', hargs,
        reference_text, hparameter, printedTypes_eq, List.isEmpty_map]
      rfl
  | @array element _ ih =>
      have helement : Piece.print ((element.printed scope).pieces scope') =
          Piece.print (element.pieces scope) := ih
      rw [TypeNode.printed, TypeNode.text, TypeNode.text, TypeNode.pieces, TypeNode.pieces]
      cases hparens : needsParentheses element with
      | true => simp [needsParentheses, TypeNode.pieces, print_enclosed, Piece.print_append,
          Piece.print, Piece.text, helement, String.append_assoc]
      | false => simp [needsParentheses_printed hparens, Piece.print_append, helement]
  | tuple _ ih =>
      have helements := (sameTexts_types ih).separated ", "
      simp only [TypeNode.printed, TypeNode.text, TypeNode.pieces, print_enclosed, helements]
  | union _ ih => exact (sameTexts_types ih).separated " | "
  | intersection _ ih => exact (sameTexts_types ih).separated " & "
  | @parenthesized inner _ ih =>
      have hinner : Piece.print ((inner.printed scope).pieces scope') =
          Piece.print (inner.pieces scope) := ih
      simp only [TypeNode.printed, TypeNode.text, TypeNode.pieces, print_enclosed, hinner]
  | @shape members _ _ ih =>
      have hmembers := sameTexts_members ih
      have hbody := hmembers.separated " "
      rw [TypeNode.printed, TypeNode.text, TypeNode.text, TypeNode.pieces, TypeNode.pieces]
      split
      next hnone =>
        rw [hnone] at hmembers
        rw [List.map_eq_nil_iff.1 hmembers.symm]
      next hsome =>
        split
        next hnone =>
          rw [hnone] at hmembers
          exact absurd (List.map_eq_nil_iff.1 hmembers) hsome
        · rw [print_enclosed, print_enclosed, hbody]
  | verbatim => rfl

/-- Whether all names in the scope still count as type parameters or only some of them, what is left
of a type has the text of the type. -/
theorem TypeNode.Legible.printed_text (h : t.Legible scope) (hscope : scope' ⊆ scope) :
    (t.printed scope).text scope' = t.text scope := (h.readable hscope).printed_text

end

end HandlerWeave.Source
