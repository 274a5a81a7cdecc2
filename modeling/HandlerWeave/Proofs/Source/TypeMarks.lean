import HandlerWeave.Proofs.Source.Marks
import HandlerWeave.Proofs.Source.Regular
import HandlerWeave.Proofs.Types.Mentions

/-!
The marks of a type's text. A type is canonical when its text shows all of it: nothing in it is kept
as text only or has a qualifier, every property has a type, and no name is a word that the grammar
reads in another way.
-/
namespace HandlerWeave.Source

namespace Mark

/-- A word, a numeral or the like behind something on the same line. -/
def name (word : String) : Mark := ⟨.word, word, false⟩

def sign (c : Char) : Mark := ⟨(Lexer.mark? c).getD .stray, String.ofList [c], false⟩

def onLine (line : Bool) (m : Mark) : Mark := { m with line }

@[simp] theorem onLine_kind (line : Bool) (m : Mark) : (m.onLine line).kind = m.kind := rfl

@[simp] theorem onLine_text (line : Bool) (m : Mark) : (m.onLine line).text = m.text := rfl

@[simp] theorem name_kind (word : String) : (name word).kind = .word := rfl

@[simp] theorem name_text (word : String) : (name word).text = word := rfl

@[simp] theorem sign_line (c : Char) : (sign c).line = false := rfl

@[simp] theorem onLine_sign (c : Char) : (sign c).onLine false = sign c := rfl

end Mark

open Mark

/-- What a member's name is written as. -/
def nameMark (name : String) : Mark :=
  if Text.isIdentifier name then .name name else ⟨.string, Text.quote name, false⟩

def optionalMarks (optional : Bool) : List Mark := if optional then [sign '?'] else []

def separatedMarks (separator : Mark) : List (List Mark) → List Mark
  | [] => []
  | [part] => part
  | part :: parts => part ++ separator :: separatedMarks separator parts

/-- A number is a numeral, perhaps with a sign in front of it. -/
def numberMarks (text : String) : List Mark :=
  match text.toList with
  | '-' :: cs => [sign '-', ⟨.number, String.ofList cs, false⟩]
  | _ => [⟨.number, text, false⟩]

def LiteralType.marks : LiteralType → List Mark
  | .string value => [⟨.string, Text.quote value, false⟩]
  | .number text => numberMarks text
  | .bool value => [.name (if value then "true" else "false")]

mutual

def TypeNode.marks : TypeNode → List Mark
  | .keyword word => [.name word.text]
  | .literal value => value.marks
  | .reference name args =>
    .name name.name :: if args.isEmpty then [] else
      sign '<' :: (separatedMarks (sign ',') (typeMarks args) ++ [sign '>'])
  | .array element => element.marks ++ [sign '[', sign ']']
  | .tuple elements => sign '[' :: (separatedMarks (sign ',') (typeMarks elements) ++ [sign ']'])
  | .union arms => separatedMarks (sign '|') (typeMarks arms)
  | .intersection parts => separatedMarks (sign '&') (typeMarks parts)
  | .parenthesized inner => sign '(' :: (inner.marks ++ [sign ')'])
  | .shape members => sign '\x7b' :: ((memberMarks false members).flatten ++ [sign '\x7d'])
  | .verbatim _ _ => []

def typeMarks : List TypeNode → List (List Mark)
  | [] => []
  | type :: types => type.marks :: typeMarks types

def optionalTypeMarks : Option TypeNode → List Mark
  | some type => type.marks
  | none => []

/-- The marks of members. Each of them starts a line or none does. -/
def memberMarks (line : Bool) : List TypeMember → List (List Mark)
  | [] => []
  | .property name optional type :: members =>
    ((nameMark name).onLine line :: (optionalMarks optional ++ sign ':' ::
      (optionalTypeMarks type ++ [sign ';']))) :: memberMarks line members
  | .index keyName keyType type :: members =>
    ((sign '[').onLine line :: .name keyName :: sign ':' :: (keyType.marks ++
      sign ']' :: sign ':' :: (type.marks ++ [sign ';']))) :: memberMarks line members
  | .method _ :: members => memberMarks line members

end

theorem typeMarks_eq (types : List TypeNode) : typeMarks types = types.map TypeNode.marks := by
  induction types with
  | nil => rfl
  | cons type types ih => rw [typeMarks, ih, List.map_cons]

theorem typePieces_eq (scope : List String) (types : List TypeNode) :
    typePieces scope types = types.map (TypeNode.pieces scope) := by
  induction types with
  | nil => rfl
  | cons type types ih => rw [typePieces, ih, List.map_cons]

namespace TypeMember

/-- The marks of a member that holds data. -/
def marks (line : Bool) : TypeMember → List Mark
  | property name optional type =>
    (nameMark name).onLine line :: (optionalMarks optional ++ sign ':' ::
      (optionalTypeMarks type ++ [sign ';']))
  | index keyName keyType type =>
    (sign '[').onLine line :: .name keyName :: sign ':' :: (keyType.marks ++
      sign ']' :: sign ':' :: (type.marks ++ [sign ';']))
  | method _ => []

/-- The pieces of a member that holds data. -/
def pieces (scope : List String) : TypeMember → List Piece
  | property name optional type =>
    Piece.property (Text.memberName name ++ optionalMark optional) (optionalPieces scope type)
  | index keyName keyType type =>
    Piece.index keyName (keyType.pieces scope) (type.pieces scope)
  | method _ => []

end TypeMember

/-- Words that start a form of their own where a type is read. -/
def reservedNames : List String :=
  ["new", "keyof", "unique", "readonly", "infer", "typeof", "extends"]

/-- A word that is read as the name of a type. -/
structure IsTypeName (w : String) : Prop where
  word : IsWord w
  reserved : w ∉ reservedNames
  keyword : Keyword.ofText? w = none
  bool : w ≠ "true" ∧ w ≠ "false"

structure LiteralType.Canonical (v : LiteralType) : Prop where
  regular : v.Regular
  oneLine : ∀ s, v = .string s → '\n' ∉ s.toList

/-- The member has a type to show, and its name stands on one line. -/
def TypeMember.Plain : TypeMember → Prop
  | .property name _ type => '\n' ∉ name.toList ∧ type.isSome
  | .index keyName _ _ => IsWord keyName
  | .method _ => False

theorem memberMarks_eq (line : Bool) {members : List TypeMember} (h : ∀ m ∈ members, m.Plain) :
    memberMarks line members = members.map (TypeMember.marks line) := by
  induction members with
  | nil => rfl
  | cons m members ih =>
      obtain ⟨hm, hmembers⟩ := List.forall_mem_cons.1 h
      cases m with
      | property | index => rw [memberMarks, ih hmembers, List.map_cons, TypeMember.marks]
      | method => exact hm.elim

theorem memberPieces_eq (scope : List String) {members : List TypeMember}
    (h : ∀ m ∈ members, m.Plain) :
    memberPieces scope members = members.map (TypeMember.pieces scope) := by
  induction members with
  | nil => rfl
  | cons m members ih =>
      obtain ⟨hm, hmembers⟩ := List.forall_mem_cons.1 h
      cases m with
      | property | index => rw [memberPieces, ih hmembers, List.map_cons, TypeMember.pieces]
      | method => exact hm.elim

theorem TypeNode.IsOperand.needsNone {t : TypeNode} (h : t.IsOperand) :
    needsParentheses t = false := by
  cases t with
  | union | intersection => exact h.elim
  | verbatim kind => cases kind <;> simp_all [needsParentheses, TypeNode.IsOperand]
  | _ => rfl

inductive TypeNode.Canonical : TypeNode → Prop
  | keyword (word : Keyword) : Canonical (.keyword word)
  | literal {value : LiteralType} (h : value.Canonical) : Canonical (.literal value)
  | reference {name : String} {args : List TypeNode} (hname : IsTypeName name)
      (hargs : ∀ t ∈ args, Canonical t) : Canonical (.reference ⟨none, name⟩ args)
  | array {element : TypeNode} (hoperand : element.IsOperand) (h : Canonical element) :
      Canonical (.array element)
  | tuple {elements : List TypeNode} (h : ∀ t ∈ elements, Canonical t) :
      Canonical (.tuple elements)
  | union {arms : List TypeNode} (hlength : 2 ≤ arms.length) (hparts : ∀ t ∈ arms, ¬ t.IsUnion)
      (h : ∀ t ∈ arms, Canonical t) : Canonical (.union arms)
  | intersection {parts : List TypeNode} (hlength : 2 ≤ parts.length)
      (hparts : ∀ t ∈ parts, t.IsOperand) (h : ∀ t ∈ parts, Canonical t) :
      Canonical (.intersection parts)
  | parenthesized {inner : TypeNode} (h : Canonical inner) : Canonical (.parenthesized inner)
  | shape {members : List TypeMember} (hplain : ∀ m ∈ members, m.Plain)
      (h : ∀ m ∈ members, ∀ t ∈ m.types, Canonical t) : Canonical (.shape members)

section

variable {line : Bool} {c : Char} {cs rest : List Char} {ms : List Mark} {w s : String}
  {t : TypeNode} {scope : List String}

theorem Scans.sign (hc : (Lexer.mark? c).isSome) (h : Scans false rest ms) :
    Scans line (c :: rest) ((sign c).onLine line :: ms) := by
  obtain ⟨kind, hkind⟩ := Option.isSome_iff_exists.1 hc
  have hmark : Scans line (c :: rest) (⟨kind, String.ofList [c], line⟩ :: ms) := .mark hkind h
  rwa [Mark.sign, hkind]

theorem Scans.name (hw : IsWord w) (hrest : Edge rest) (h : Scans false rest ms) :
    Scans false (w.toList ++ rest) (.name w :: ms) := .word hw hrest h

theorem IsNumeral.numberMarks (h : IsNumeral s) : numberMarks s = [⟨.number, s, false⟩] := by
  obtain ⟨c, cs, hlist, hlexeme⟩ := h
  rw [Source.numberMarks, hlist]
  split
  next heq =>
    cases heq
    cases hlexeme none [] edge_nil
  · rfl

theorem numberMarks_minus (n : String) :
    Source.numberMarks ("-" ++ n) = [Mark.sign '-', ⟨.number, n, false⟩] := by
  have hminus : ("-" ++ n).toList = '-' :: n.toList := by
    rw [String.toList_append]
    rfl
  rw [Source.numberMarks, hminus]
  simp only [String.ofList_toList]

theorem Scans.number (hs : (LiteralType.number s).Regular) (hrest : Edge rest)
    (h : Scans false rest ms) : Scans false (s.toList ++ rest) (numberMarks s ++ ms) := by
  obtain hs | ⟨n, hn, rfl⟩ := hs
  · rw [hs.numberMarks]
    exact .numeral hs hrest h
  · rw [numberMarks_minus, String.toList_append, List.append_assoc]
    exact .sign (by decide) (.numeral hn hrest h)

theorem Scans.literal {v : LiteralType} (hv : v.Canonical) (hrest : Edge rest)
    (h : Scans false rest ms) : Scans false (v.text.toList ++ rest) (v.marks ++ ms) := by
  cases v with
  | string s => exact .quoted (hv.oneLine s rfl) h
  | number s => exact .number hv.regular hrest h
  | bool b => cases b <;> exact .name (.inl (by decide)) hrest h

/-- The pieces are read as these marks wherever nothing continues them. -/
def PrintsAs (pieces : List Piece) (marks : List Mark) : Prop :=
  ∀ rest ms, Edge rest → Scans false rest ms →
    Scans false ((Piece.print pieces).toList ++ rest) (marks ++ ms)

def TypeNode.Scanned (scope : List String) (t : TypeNode) : Prop :=
  PrintsAs (t.pieces scope) t.marks

/-- What stands between the parts of a list is read as one mark. -/
structure IsSeparator (text : String) (mark : Mark) : Prop where
  edge : ∀ rest, Edge (text.toList ++ rest)
  scans : ∀ rest ms, Scans false rest ms → Scans false (text.toList ++ rest) (mark :: ms)

theorem isSeparator_comma : IsSeparator ", " (sign ',') :=
  ⟨fun _ => edge_cons.2 (by decide), fun _ _ h => .sign (by decide) h.space⟩

theorem isSeparator_pipe : IsSeparator " | " (sign '|') :=
  ⟨fun _ => edge_cons.2 (by decide), fun _ _ h => .space (.sign (by decide) h.space)⟩

theorem isSeparator_ampersand : IsSeparator " & " (sign '&') :=
  ⟨fun _ => edge_cons.2 (by decide), fun _ _ h => .space (.sign (by decide) h.space)⟩

theorem scans_separated {α : Type} {text : String} {mark : Mark} (hsep : IsSeparator text mark)
    {pieces : α → List Piece} {marks : α → List Mark} {xs : List α}
    (h : ∀ x ∈ xs, PrintsAs (pieces x) (marks x)) :
    PrintsAs (Piece.separated text (xs.map pieces)) (separatedMarks mark (xs.map marks)) := by
  intro rest ms hrest hms
  induction xs with
  | nil => exact hms
  | cons x xs ih =>
      obtain ⟨hx, hxs⟩ := List.forall_mem_cons.1 h
      cases xs with
      | nil => exact hx rest ms hrest hms
      | cons y xs =>
          have htail := hx _ _ (hsep.edge _) (hsep.scans _ _ (ih hxs))
          simpa [Piece.separated, separatedMarks, Piece.print_append, Piece.print, Piece.text,
            String.toList_append] using htail

theorem scans_types {text : String} {mark : Mark} (hsep : IsSeparator text mark)
    {types : List TypeNode} (h : ∀ t ∈ types, t.Scanned scope) :
    PrintsAs (Piece.separated text (typePieces scope types))
      (separatedMarks mark (typeMarks types)) := by
  rw [typePieces_eq, typeMarks_eq]
  exact scans_separated hsep h

theorem Scans.memberName (hs : '\n' ∉ s.toList) (hrest : Edge rest) (h : Scans false rest ms) :
    Scans line ((Text.memberName s).toList ++ rest) ((nameMark s).onLine line :: ms) := by
  rw [Text.memberName, nameMark]
  cases hident : Text.isIdentifier s with
  | true => exact .word (.inl hident) hrest h
  | false => exact .quoted hs h

theorem Scans.optionalMark (optional : Bool) (h : Scans false rest ms) :
    Scans false ((optionalMark optional).toList ++ rest) (optionalMarks optional ++ ms) := by
  cases optional with
  | false => exact h
  | true => exact .sign (by decide) h

theorem edge_optionalMark (optional : Bool) (hrest : Edge rest) :
    Edge ((HandlerWeave.optionalMark optional).toList ++ rest) := by
  cases optional with
  | false => exact hrest
  | true => exact edge_cons.2 (by decide)

/-- A type behind a colon, up to the end of its member. -/
theorem Scans.ascribed (ht : t.Scanned scope) (h : Scans false rest ms) :
    Scans false (':' :: ' ' :: ((t.text scope).toList ++ ';' :: rest))
      (Mark.sign ':' :: (t.marks ++ Mark.sign ';' :: ms)) :=
  .sign (by decide) (.space (ht _ _ (edge_cons.2 (by decide)) (.sign (by decide) h)))

theorem scans_member {m : TypeMember} (hm : m.Plain) (htypes : ∀ t ∈ m.types, t.Scanned scope)
    (h : Scans false rest ms) :
    Scans line ((Piece.print (m.pieces scope)).toList ++ rest) (m.marks line ++ ms) := by
  cases m with
  | property name optional type =>
      obtain ⟨hname, htype⟩ := hm
      obtain ⟨t, rfl⟩ := Option.isSome_iff_exists.1 htype
      have ht : t.Scanned scope := htypes t (by simp [TypeMember.types])
      have hmember : Scans line _ _ := .memberName hname
        (edge_optionalMark optional (edge_cons.2 (by decide)))
        (.optionalMark optional (.ascribed ht h))
      simpa [TypeMember.pieces, TypeMember.marks, Piece.property, Piece.enclosed, Piece.print,
        Piece.print_append, Piece.text, optionalPieces, optionalTypeMarks, TypeNode.text,
        String.toList_append] using hmember
  | index keyName keyType type =>
      obtain ⟨hkey, htype⟩ : keyType.Scanned scope ∧ type.Scanned scope := by
        simpa [TypeMember.types] using htypes
      have hvalue := hkey (']' :: _) _ (edge_cons.2 (by decide))
        (.sign (by decide) (.ascribed htype h))
      have hmember : Scans line ('[' :: _) _ := .sign (by decide)
        (.name hm (edge_cons.2 (by decide)) (.sign (c := ':') (by decide) (.space hvalue)))
      simpa [TypeMember.pieces, TypeMember.marks, Piece.index, Piece.enclosed, Piece.print,
        Piece.print_append, Piece.text, TypeNode.text, String.toList_append] using hmember
  | method => exact hm.elim

/-- The members of a shape, behind its opening brace. -/
theorem scans_members {members : List TypeMember} (hne : members ≠ [])
    (hplain : ∀ m ∈ members, m.Plain) (htypes : ∀ m ∈ members, ∀ t ∈ m.types, t.Scanned scope)
    (h : Scans false rest ms) :
    Scans false ((Piece.print (Piece.separated " " (memberPieces scope members))).toList ++ rest)
      ((memberMarks false members).flatten ++ ms) := by
  rw [memberPieces_eq _ hplain, memberMarks_eq _ hplain]
  induction members with
  | nil => exact absurd rfl hne
  | cons m members ih =>
      obtain ⟨hm, hplain⟩ := List.forall_mem_cons.1 hplain
      obtain ⟨hmtypes, htypes⟩ := List.forall_mem_cons.1 htypes
      cases members with
      | nil => simpa [Piece.separated] using scans_member hm hmtypes h
      | cons m' members =>
          have htail : Scans false _ _ :=
            scans_member hm hmtypes (ih (by simp) hplain htypes).space
          simpa [Piece.separated, Piece.print, Piece.print_append, Piece.text,
            String.toList_append] using htail

theorem scans_reference {q : QualifiedName} {args : List TypeNode} (hw : IsWord q.name)
    (hparameter : args ≠ [] → isParameter scope q = false) (hargs : ∀ t ∈ args, t.Scanned scope) :
    (TypeNode.reference q args).Scanned scope := by
  intro rest ms hrest h
  cases args with
  | nil =>
      have hname := h.name hw hrest
      cases hscope : isParameter scope q <;>
        simpa [TypeNode.pieces, TypeNode.marks, hscope, Piece.print, Piece.text] using hname
  | cons arg args =>
      have hscope := hparameter (List.cons_ne_nil _ _)
      have hargs : Scans false (_ ++ '>' :: rest) _ :=
        scans_types isSeparator_comma hargs _ _ (edge_cons.2 (by decide)) (.sign (by decide) h)
      have hname : Scans false (q.name.toList ++ '<' :: _) _ :=
        .name hw (edge_cons.2 (by decide)) (.sign (by decide) hargs)
      simpa [TypeNode.pieces, TypeNode.marks, hscope, Piece.enclosed, Piece.print,
        Piece.print_append, Piece.text, String.toList_append] using hname

/-- The text of the type shows all of its marks: no name in `scope` has arguments, and what is
written is made of words, numerals and strings that stand on one line. -/
inductive TypeNode.Printable (scope : List String) : TypeNode → Prop
  | keyword (word : Keyword) : Printable scope (.keyword word)
  | literal {value : LiteralType} (h : value.Canonical) : Printable scope (.literal value)
  | reference {q : QualifiedName} {args : List TypeNode} (hname : IsWord q.name)
      (hparameter : args ≠ [] → isParameter scope q = false)
      (hargs : ∀ t ∈ args, Printable scope t) : Printable scope (.reference q args)
  | array {element : TypeNode} (hoperand : element.IsOperand) (h : Printable scope element) :
      Printable scope (.array element)
  | tuple {elements : List TypeNode} (h : ∀ t ∈ elements, Printable scope t) :
      Printable scope (.tuple elements)
  | union {arms : List TypeNode} (h : ∀ t ∈ arms, Printable scope t) :
      Printable scope (.union arms)
  | intersection {parts : List TypeNode} (h : ∀ t ∈ parts, Printable scope t) :
      Printable scope (.intersection parts)
  | parenthesized {inner : TypeNode} (h : Printable scope inner) :
      Printable scope (.parenthesized inner)
  | shape {members : List TypeMember} (hplain : ∀ m ∈ members, m.Plain)
      (h : ∀ m ∈ members, ∀ t ∈ m.types, Printable scope t) : Printable scope (.shape members)

theorem TypeNode.Canonical.printable (ht : t.Canonical) : t.Printable [] := by
  induction ht with
  | keyword word => exact .keyword word
  | literal h => exact .literal h
  | reference hname _ ih => exact .reference hname.word (fun _ => rfl) ih
  | array hoperand _ ih => exact .array hoperand ih
  | tuple _ ih => exact .tuple ih
  | union _ _ _ ih => exact .union ih
  | intersection _ _ _ ih => exact .intersection ih
  | parenthesized _ ih => exact .parenthesized ih
  | shape hplain _ ih => exact .shape hplain ih

/-- The text of a printable type is read as its marks. -/
theorem TypeNode.Printable.scanned (ht : t.Printable scope) : t.Scanned scope := by
  induction ht with
  | keyword word =>
      intro rest ms hrest h
      have hword : IsWord word.text := .inl (by cases word <;> decide)
      simpa [TypeNode.text, TypeNode.pieces, TypeNode.marks, Piece.print, Piece.text] using
        h.name hword hrest
  | literal hvalue =>
      intro rest ms hrest h
      simpa [TypeNode.text, TypeNode.pieces, TypeNode.marks, Piece.print, Piece.text] using
        h.literal hvalue hrest
  | reference hname hparameter _ ih => exact scans_reference hname hparameter ih
  | @array element hoperand _ ih =>
      intro rest ms hrest h
      have hparens := hoperand.needsNone
      have helement := ih ('[' :: ']' :: rest) _ (edge_cons.2 (by decide))
        (.sign (by decide) (.sign (by decide) h))
      simpa [TypeNode.text, TypeNode.pieces, TypeNode.marks, hparens, Piece.print,
        Piece.print_append, Piece.text, String.toList_append] using helement
  | tuple _ ih =>
      intro rest ms hrest h
      have helements : Scans false (_ ++ ']' :: rest) _ :=
        scans_types isSeparator_comma ih _ _ (edge_cons.2 (by decide)) (.sign (by decide) h)
      have htuple : Scans false ('[' :: _) _ := .sign (by decide) helements
      simpa [TypeNode.text, TypeNode.pieces, TypeNode.marks, Piece.enclosed, Piece.print,
        Piece.print_append, Piece.text, String.toList_append] using htuple
  | union _ ih =>
      intro rest ms hrest h
      simpa [TypeNode.text, TypeNode.pieces, TypeNode.marks] using
        scans_types isSeparator_pipe ih rest ms hrest h
  | intersection _ ih =>
      intro rest ms hrest h
      simpa [TypeNode.text, TypeNode.pieces, TypeNode.marks] using
        scans_types isSeparator_ampersand ih rest ms hrest h
  | parenthesized _ ih =>
      intro rest ms hrest h
      have hinner := ih (')' :: rest) _ (edge_cons.2 (by decide)) (.sign (by decide) h)
      have hparens : Scans false ('(' :: _) _ := .sign (by decide) hinner
      simpa [TypeNode.text, TypeNode.pieces, TypeNode.marks, Piece.enclosed, Piece.print,
        Piece.print_append, Piece.text, String.toList_append] using hparens
  | @shape members hplain _ ih =>
      intro rest ms hrest h
      have hclose : Scans false ('\x7d' :: rest) (sign '\x7d' :: ms) := .sign (by decide) h
      cases members with
      | nil =>
          have hshape : Scans false ('\x7b' :: _) _ := .sign (by decide) hclose
          simpa [TypeNode.text, TypeNode.pieces, TypeNode.marks, memberPieces, memberMarks,
            Piece.print, Piece.text] using hshape
      | cons m members =>
          have hmembers := scans_members (by simp) hplain ih hclose.space
          have hshape : Scans false ('\x7b' :: _) _ := .sign (by decide) hmembers.space
          have hpieces : TypeNode.pieces scope (.shape (m :: members)) =
              Piece.enclosed "\x7b " (Piece.separated " " (memberPieces scope (m :: members)))
                " \x7d" := by
            rw [TypeNode.pieces, memberPieces_eq _ hplain, List.map_cons]
          simpa [TypeNode.text, hpieces, TypeNode.marks, Piece.enclosed, Piece.print,
            Piece.print_append, Piece.text, String.toList_append] using hshape

theorem TypeNode.Canonical.scanned (ht : t.Canonical) : t.Scanned [] := ht.printable.scanned

end

section

variable {separator : Mark} {part : List Mark} {parts : List (List Mark)} {t : TypeNode}

theorem separatedMarks_cons (separator : Mark) (hne : parts ≠ []) :
    separatedMarks separator (part :: parts) =
      part ++ separator :: separatedMarks separator parts := by
  cases parts with
  | nil => exact absurd rfl hne
  | cons => rfl

theorem sublist_separatedMarks (separator : Mark) (h : part ∈ parts) :
    part.Sublist (separatedMarks separator parts) := by
  induction parts with
  | nil => cases h
  | cons p parts ih =>
      cases parts with
      | nil =>
          obtain rfl := List.mem_singleton.1 h
          exact .refl _
      | cons q parts =>
          rw [separatedMarks_cons _ (by simp)]
          obtain rfl | h := List.mem_cons.1 h
          · exact List.sublist_append_left _ _
          · exact ((ih h).cons _).trans (List.sublist_append_right _ _)

theorem sublist_types (separator : Mark) {types : List TypeNode} (h : t ∈ types) :
    t.marks.Sublist (separatedMarks separator (typeMarks types)) := by
  rw [typeMarks_eq]
  exact sublist_separatedMarks separator (List.mem_map_of_mem h)

theorem TypeMember.sublist_marks (line : Bool) {m : TypeMember} (ht : t ∈ m.types) :
    t.marks.Sublist (m.marks line) := by
  cases m with
  | property name optional type =>
      obtain rfl : type = some t := by simpa [TypeMember.types] using ht
      have htype : t.marks.Sublist (sign ':' :: (t.marks ++ [sign ';'])) :=
        (List.sublist_append_left _ _).cons _
      exact (htype.trans (List.sublist_append_right _ _)).cons _
  | index keyName keyType type =>
      have hrest : (sign ':' :: (type.marks ++ [sign ';'])).Sublist (keyType.marks ++ sign ']' ::
          sign ':' :: (type.marks ++ [sign ';'])) :=
        (List.sublist_cons_self _ _).trans (List.sublist_append_right _ _)
      have hmarks : t.marks.Sublist (keyType.marks ++ sign ']' :: sign ':' ::
          (type.marks ++ [sign ';'])) := by
        obtain rfl | ht := List.mem_cons.1 ht
        · exact List.sublist_append_left _ _
        · obtain rfl := List.mem_singleton.1 ht
          exact ((List.sublist_append_left _ _).cons _).trans hrest
      exact ((hmarks.cons _).cons _).cons _
  | method => cases ht

theorem sublist_members (line : Bool) {members : List TypeMember} (hplain : ∀ m ∈ members, m.Plain)
    {m : TypeMember} (hm : m ∈ members) (ht : t ∈ m.types) :
    t.marks.Sublist (memberMarks line members).flatten := by
  rw [memberMarks_eq line hplain]
  exact (m.sublist_marks line ht).trans
    (List.sublist_flatten_of_mem (List.mem_map_of_mem hm))

end

/-- No arrow is among the marks. -/
def ArrowFree (ms : List Mark) : Prop := ∀ m ∈ ms, m.kind ≠ .arrow

section

variable {m : Mark} {ms ns : List Mark} {t : TypeNode}

theorem sign_ne_arrow (c : Char) : (sign c).kind ≠ .arrow := by
  unfold sign Lexer.mark?
  split <;> exact nofun

@[simp] theorem arrowFree_nil : ArrowFree [] := fun _ h => nomatch h

@[simp] theorem arrowFree_cons : ArrowFree (m :: ms) ↔ m.kind ≠ .arrow ∧ ArrowFree ms :=
  List.forall_mem_cons

@[simp] theorem arrowFree_append : ArrowFree (ms ++ ns) ↔ ArrowFree ms ∧ ArrowFree ns :=
  List.forall_mem_append

theorem arrowFree_flatten {parts : List (List Mark)} (h : ∀ part ∈ parts, ArrowFree part) :
    ArrowFree parts.flatten := by
  intro m hm
  obtain ⟨part, hpart, hm⟩ := List.mem_flatten.1 hm
  exact h part hpart m hm

theorem arrowFree_separated {separator : Mark} (hsep : separator.kind ≠ .arrow)
    {parts : List (List Mark)} (h : ∀ part ∈ parts, ArrowFree part) :
    ArrowFree (separatedMarks separator parts) := by
  induction parts with
  | nil => exact arrowFree_nil
  | cons part parts ih =>
      obtain ⟨hpart, hparts⟩ := List.forall_mem_cons.1 h
      cases parts with
      | nil => exact hpart
      | cons next parts => exact arrowFree_append.2 ⟨hpart, arrowFree_cons.2 ⟨hsep, ih hparts⟩⟩

theorem arrowFree_types {separator : Mark} (hsep : separator.kind ≠ .arrow)
    {types : List TypeNode} (h : ∀ t ∈ types, ArrowFree t.marks) :
    ArrowFree (separatedMarks separator (typeMarks types)) := by
  rw [typeMarks_eq]
  exact arrowFree_separated hsep (by simpa using h)

theorem nameMark_ne_arrow (name : String) : (nameMark name).kind ≠ .arrow := by
  rw [nameMark]
  split <;> exact nofun

theorem arrowFree_members (line : Bool) {members : List TypeMember}
    (hplain : ∀ m ∈ members, m.Plain) (h : ∀ m ∈ members, ∀ t ∈ m.types, ArrowFree t.marks) :
    ArrowFree (memberMarks line members).flatten := by
  rw [memberMarks_eq line hplain]
  refine arrowFree_flatten (List.forall_mem_map.2 fun m hm => ?_)
  cases m with
  | property name optional type =>
      obtain ⟨t, rfl⟩ := Option.isSome_iff_exists.1 (hplain _ hm).2
      have ht : ArrowFree t.marks := h _ hm t (by simp [TypeMember.types])
      cases optional <;> simp [TypeMember.marks, optionalMarks, optionalTypeMarks,
        nameMark_ne_arrow, ht, sign_ne_arrow]
  | index keyName keyType type =>
      have hkey : ArrowFree keyType.marks := h _ hm _ (by simp [TypeMember.types])
      have ht : ArrowFree type.marks := h _ hm _ (by simp [TypeMember.types])
      simp [TypeMember.marks, hkey, ht, sign_ne_arrow]
  | method => exact (hplain _ hm).elim

end

end HandlerWeave.Source
