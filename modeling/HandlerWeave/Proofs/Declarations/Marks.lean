import HandlerWeave.Proofs.Source.TypeMarks

/-!
The marks of a declaration's text. As for types, a declaration is canonical when its text shows all
of it: it is an exported interface, enumeration or alias over canonical types.
-/
namespace HandlerWeave.Source

open Mark

structure TypeParam.Canonical (p : TypeParam) : Prop where
  name : IsWord p.name
  constraint : OfSome TypeNode.Canonical p.constraint
  fallback : OfSome TypeNode.Canonical p.fallback
  modifier : p.name ∈ TypeParam.modifierNames → p.constraint = none

structure Heritage.Canonical (h : Heritage) : Prop where
  qualifier : h.name.qualifier = none
  name : IsWord h.name.name
  typeArgs : ∀ t ∈ h.typeArgs, t.Canonical

/-- What stands in front of every declaration that is written. -/
def Modifiers.written : Modifiers := { exported := true }

structure InterfaceDef.Canonical (i : InterfaceDef) : Prop where
  name : IsWord i.name
  modifiers : i.modifiers = .written
  typeParams : ∀ p ∈ i.typeParams, p.Canonical
  bases : ∀ h ∈ i.bases, h.Canonical
  plain : ∀ m ∈ i.members, m.Plain
  members : ∀ m ∈ i.members, ∀ t ∈ m.types, t.Canonical

/-- The initializers that are written: strings and numbers. -/
def Expr.Canonical : Expr → Prop
  | .string s => '\n' ∉ s.toList
  | .number n | .negate (.number n) => IsNumeral n
  | _ => False

structure EnumMember.Canonical (m : EnumMember) : Prop where
  name : '\n' ∉ m.name.toList
  initializer : OfSome Expr.Canonical m.initializer

structure EnumDef.Canonical (e : EnumDef) : Prop where
  name : IsWord e.name
  modifiers : e.modifiers = .written
  plain : e.isConst = false
  members : ∀ m ∈ e.members, m.Canonical

structure AliasDef.Canonical (a : AliasDef) : Prop where
  name : IsWord a.name
  modifiers : a.modifiers = .written
  typeParams : ∀ p ∈ a.typeParams, p.Canonical
  type : a.type.Canonical

def Mark.equals : Mark := ⟨.equals, "=", false⟩

def clauseMarks (mark : Mark) : Option TypeNode → List Mark
  | some type => mark :: type.marks
  | none => []

def TypeParam.marks (p : TypeParam) : List Mark :=
  .name p.name :: (clauseMarks (.name "extends") p.constraint ++ clauseMarks .equals p.fallback)

def typeParamsMarks (params : List TypeParam) : List Mark :=
  if params.isEmpty then []
  else sign '<' :: (separatedMarks (sign ',') (params.map TypeParam.marks) ++ [sign '>'])

def Heritage.marks (h : Heritage) : List Mark := (Declaration.heritageType h).marks

def basesMarks (bases : List Heritage) : List Mark :=
  if bases.isEmpty then []
  else .name "extends" :: separatedMarks (sign ',') (bases.map Heritage.marks)

/-- A body in braces, with each part on a line of its own. -/
def bodyMarks (lines : List (List Mark)) : List Mark :=
  sign '\x7b' :: (lines.flatten ++ [(sign '\x7d').onLine true])

def headerMarks (keyword name : String) : List Mark := [.name "export", .name keyword, .name name]

def InterfaceDef.marks (i : InterfaceDef) : List Mark :=
  headerMarks "interface" i.name ++ (typeParamsMarks i.typeParams ++ basesMarks i.bases) ++
    bodyMarks (memberMarks true i.members)

def Expr.marks : Expr → List Mark
  | .string s => [⟨.string, Text.quote s, false⟩]
  | .number n => [⟨.number, n, false⟩]
  | .negate (.number n) => [sign '-', ⟨.number, n, false⟩]
  | _ => []

def initializerMarks : Option Expr → List Mark
  | some e => .equals :: e.marks
  | none => []

def EnumMember.marks (m : EnumMember) : List Mark :=
  (nameMark m.name).onLine true :: (initializerMarks m.initializer ++ [sign ','])

def EnumDef.marks (e : EnumDef) : List Mark :=
  headerMarks "enum" e.name ++ bodyMarks (e.members.map EnumMember.marks)

def AliasDef.marks (a : AliasDef) : List Mark :=
  headerMarks "type" a.name ++ (typeParamsMarks a.typeParams ++
    .equals :: (a.type.marks ++ [sign ';']))

/-- Pieces behind a name: they end it, and are read as these marks. -/
structure Trails (pieces : List Piece) (marks : List Mark) : Prop where
  edge : ∀ rest, Edge rest → Edge ((Piece.print pieces).toList ++ rest)
  scans : PrintsAs pieces marks

section

variable {pieces pieces' : List Piece} {marks marks' ms : List Mark} {rest : List Char}
  {w : String} {o : Option TypeNode}

theorem Trails.nil : Trails [] [] := ⟨fun _ h => h, fun _ _ _ h => h⟩

theorem PrintsAs.append (h : PrintsAs pieces marks) (h' : Trails pieces' marks') :
    PrintsAs (pieces ++ pieces') (marks ++ marks') := by
  intro rest ms hrest hms
  rw [Piece.print_append, String.toList_append, List.append_assoc, List.append_assoc]
  exact h _ _ (h'.edge rest hrest) (h'.scans rest ms hrest hms)

theorem Trails.append (h : Trails pieces marks) (h' : Trails pieces' marks') :
    Trails (pieces ++ pieces') (marks ++ marks') := by
  refine ⟨fun rest hrest => ?_, h.scans.append h'⟩
  rw [Piece.print_append, String.toList_append, List.append_assoc]
  exact h.edge _ (h'.edge rest hrest)

/-- A text ends the name in front of it when it starts with no part of a name. -/
theorem Trails.of_first {text : String} {c : Char} {cs : List Char} (htext : text.toList = c :: cs)
    (hc : continues c = false) (h : PrintsAs (.plain text :: pieces) marks) :
    Trails (.plain text :: pieces) marks := by
  refine ⟨fun rest _ => ?_, h⟩
  rw [Piece.print, Piece.text, String.toList_append, htext]
  exact edge_cons.2 hc

theorem trails_extends (h : PrintsAs pieces marks) :
    Trails (.plain " extends " :: pieces) (.name "extends" :: marks) := by
  refine .of_first rfl (by decide) fun rest ms hrest hms => ?_
  have hword : Scans false (' ' :: ("extends".toList ++ ' ' :: _)) _ :=
    .space (.name (.inl (by decide)) (edge_cons.2 (by decide)) (.space (h rest ms hrest hms)))
  simpa [Piece.print, Piece.text, String.toList_append] using hword

theorem trails_equals (h : PrintsAs pieces marks) :
    Trails (.plain " = " :: pieces) (.equals :: marks) := by
  refine .of_first rfl (by decide) fun rest ms hrest hms => ?_
  have hsign : Scans false (' ' :: '=' :: ' ' :: _) (.equals :: _) :=
    .space (.equals (starts_cons.2 (by decide)) (.space (h rest ms hrest hms)))
  simpa [Piece.print, Piece.text, String.toList_append] using hsign

theorem trails_clause {text : String} {mark : Mark}
    (h : ∀ {pieces marks}, PrintsAs pieces marks → Trails (.plain text :: pieces) (mark :: marks))
    (ho : OfSome TypeNode.Canonical o) :
    Trails (Declaration.clausePieces [] text o) (clauseMarks mark o) := by
  cases o with
  | none => exact .nil
  | some t => exact h (ofSome_some.1 ho).scanned

theorem prints_name (hw : IsWord w) : PrintsAs [.plain w] [.name w] := by
  intro rest ms hrest hms
  simpa [Piece.print, Piece.text] using hms.name hw hrest

theorem TypeParam.Canonical.scanned {p : TypeParam} (hp : p.Canonical) :
    PrintsAs (Declaration.typeParamPieces [] p) p.marks :=
  (prints_name hp.name).append ((trails_clause trails_extends hp.constraint).append
    (trails_clause trails_equals hp.fallback))

theorem trails_typeParams {params : List TypeParam} (h : ∀ p ∈ params, p.Canonical) :
    Trails (Declaration.typeParamsPieces [] params) (typeParamsMarks params) := by
  cases params with
  | nil => exact .nil
  | cons p params =>
      have htext : "<".toList = ['<'] := rfl
      refine .of_first htext (by decide) fun rest ms hrest hms => ?_
      have hparams :=
        scans_separated isSeparator_comma (fun p hp => (h p hp).scanned) ('>' :: rest) _
        (edge_cons.2 (by decide)) (.sign (by decide) hms)
      have hbracket : Scans false ('<' :: _) _ := .sign (by decide) hparams
      simpa [typeParamsMarks, Piece.print, Piece.print_append, Piece.text,
        String.toList_append] using hbracket

/-- A base is written like a type, but its name may be any word. -/
theorem Heritage.Canonical.scanned {h : Heritage} (hh : h.Canonical) :
    PrintsAs ((Declaration.heritageType h).pieces []) h.marks := by
  obtain ⟨⟨qualifier, w⟩, args⟩ := h
  obtain ⟨rfl, hw, hargs⟩ := hh
  exact scans_reference hw (fun _ => rfl) fun t ht => (hargs t ht).scanned

theorem trails_bases {bases : List Heritage} (h : ∀ b ∈ bases, b.Canonical) :
    Trails (if bases.isEmpty then [] else .plain " extends " :: Piece.separated ", "
      (bases.map fun b => (Declaration.heritageType b).pieces [])) (basesMarks bases) := by
  cases bases with
  | nil => exact .nil
  | cons b bases =>
      exact trails_extends (scans_separated isSeparator_comma fun b hb => (h b hb).scanned)

theorem prints_header {keyword : String} (hkeyword : IsWord keyword) (hw : IsWord w) :
    PrintsAs [.plain ("export " ++ keyword ++ " " ++ w)] (headerMarks keyword w) := by
  intro rest ms hrest hms
  have hword : Scans false ("export".toList ++ ' ' :: (keyword.toList ++ ' ' :: _)) _ :=
    .name (.inl (by decide)) (edge_cons.2 (by decide)) (.space
      (.name hkeyword (edge_cons.2 (by decide)) (.space (hms.name hw hrest))))
  simpa [headerMarks, Piece.print, Piece.text, String.toList_append] using hword

theorem trails_brace : Trails [.plain " \x7b"] [sign '\x7b'] := by
  refine .of_first rfl (by decide) fun rest ms _ hms => ?_
  have hbrace : Scans false (' ' :: '\x7b' :: rest) _ := .space (.sign (by decide) hms)
  simpa [Piece.print, Piece.text, String.toList_append] using hbrace

/-- What the lines of a body are read as, the first mark of each at the start of its line. -/
theorem scans_lines {α : Type} {pieces : α → List Piece} {marks : α → List Mark} {xs : List α}
    (h : ∀ x ∈ xs, ∀ rest ms, Scans false rest ms →
      Scans true ((Piece.print (pieces x)).toList ++ rest) (marks x ++ ms))
    (hrest : Scans true rest ms) :
    Scans true ((Piece.print ((xs.map pieces).flatMap fun line =>
      Piece.enclosed "    " line "\n")).toList ++ rest) ((xs.map marks).flatten ++ ms) := by
  induction xs with
  | nil => exact hrest
  | cons x xs ih =>
      obtain ⟨hx, hxs⟩ := List.forall_mem_cons.1 h
      have hline := (hx _ _ (ih hxs).newline).space.space.space.space
      simpa [Piece.enclosed, Piece.print, Piece.print_append, Piece.text,
        String.toList_append] using hline

theorem scans_block {α : Type} {header : List Piece} {lines : α → List Piece}
    {lineMarks : α → List Mark} {xs : List α} (hheader : PrintsAs header (marks ++ [sign '\x7b']))
    (h : ∀ x ∈ xs, ∀ rest ms, Scans false rest ms →
      Scans true ((Piece.print (lines x)).toList ++ rest) (lineMarks x ++ ms)) :
    Scans false (Piece.print (Declaration.blockPieces header (xs.map lines))).toList
      (marks ++ bodyMarks (xs.map lineMarks) ++ [.final]) := by
  have hclose : Scans true ['\x7d'] _ := .sign (by decide) scans_nil
  have hbody : Scans false ('\n' :: _) _ := (scans_lines h hclose).newline
  have hblock := hheader _ _ (edge_cons.2 (by decide)) hbody
  simpa [Declaration.blockPieces, bodyMarks, Piece.print, Piece.print_append, Piece.text,
    String.toList_append] using hblock

/-- The member of an enumeration, with the comma behind it. -/
theorem EnumMember.Canonical.scans {m : EnumMember} (hm : m.Canonical) (hms : Scans false rest ms) :
    Scans true ((Piece.print [.plain (Declaration.enumMemberText m)]).toList ++ rest)
      (m.marks ++ ms) := by
  have hcomma : Scans false (',' :: rest) (sign ',' :: ms) := .sign (by decide) hms
  have hequals : ∀ {cs ms}, Scans false cs ms →
      Scans false (' ' :: '=' :: ' ' :: cs) (.equals :: ms) := fun h =>
    .space (.equals (starts_cons.2 (by decide)) h.space)
  have hname : ∀ {c cs ms}, continues c = false → Scans false (c :: cs) ms →
      Scans true ((Text.memberName m.name).toList ++ c :: cs)
        ((nameMark m.name).onLine true :: ms) :=
    fun hc h => .memberName hm.name (edge_cons.2 hc) h
  obtain ⟨name, initializer⟩ := m
  have hplain := hname (by decide) hcomma
  cases initializer with
  | none =>
      simpa [Declaration.enumMemberText, EnumMember.marks, initializerMarks, Piece.print,
        Piece.text, String.toList_append] using hplain
  | some e =>
      have he := ofSome_some.1 hm.initializer
      cases e with
      | string s =>
          have hvalue := hname (by decide) (hequals (hcomma.quoted he))
          simpa [Declaration.enumMemberText, EnumMember.marks, initializerMarks, Expr.marks,
            Piece.print, Piece.text, String.toList_append] using hvalue
      | number n =>
          have hvalue := hname (by decide) (hequals (hcomma.numeral he (edge_cons.2 (by decide))))
          simpa [Declaration.enumMemberText, EnumMember.marks, initializerMarks, Expr.marks,
            Piece.print, Piece.text, String.toList_append] using hvalue
      | negate inner =>
          cases inner with
          | number n =>
              have hnumeral : Scans false ('-' :: _) _ :=
                .sign (by decide) (hcomma.numeral he (edge_cons.2 (by decide)))
              have hvalue := hname (by decide) (hequals hnumeral)
              simpa [Declaration.enumMemberText, EnumMember.marks, initializerMarks, Expr.marks,
                Piece.print, Piece.text, String.toList_append] using hvalue
          | _ => exact he.elim
      | _ => exact he.elim

end

theorem print_block (header : List Piece) (lines : List (List Piece)) :
    Piece.print (Declaration.blockPieces header lines) =
      Declaration.block (Piece.print header) (lines.map Piece.print) := by
  have hbody : Piece.print (lines.flatMap fun line => Piece.enclosed "    " line "\n") =
      String.join ((lines.map Piece.print).map fun line => "    " ++ line ++ "\n") := by
    induction lines with
    | nil => rfl
    | cons line lines ih =>
        rw [List.flatMap_cons, Piece.print_append, ih, List.map_cons, List.map_cons,
          String.join_cons]
        simp [Piece.enclosed, Piece.print, Piece.print_append, Piece.text, String.append_assoc]
  simp [Declaration.block, Declaration.blockPieces, Piece.print, Piece.print_append, Piece.text,
    hbody, String.append_assoc]

theorem InterfaceDef.Canonical.scans {i : InterfaceDef} (hi : i.Canonical) :
    Scans false (Piece.print (Declaration.blockPieces
      (Declaration.headerPieces [] i.name i.typeParams i.bases) (memberPieces [] i.members))).toList
      (i.marks ++ [.final]) := by
  have hkeyword : IsWord "interface" := .inl (by decide)
  have hheader : PrintsAs (Declaration.headerPieces [] i.name i.typeParams i.bases)
      (headerMarks "interface" i.name ++ (typeParamsMarks i.typeParams ++ basesMarks i.bases) ++
        [sign '\x7b']) := by
    have htrail := ((trails_typeParams hi.typeParams).append (trails_bases hi.bases)).append
      trails_brace
    simpa [Declaration.headerPieces] using (prints_header hkeyword hi.name).append htrail
  rw [InterfaceDef.marks, memberPieces_eq _ hi.plain, memberMarks_eq _ hi.plain]
  exact scans_block hheader fun m hm rest ms h =>
    scans_member (hi.plain m hm) (fun t ht => (hi.members m hm t ht).scanned) h

theorem EnumDef.Canonical.scans {e : EnumDef} (he : e.Canonical) :
    Scans false (Declaration.text (.enumDef e)).toList (e.marks ++ [.final]) := by
  have hkeyword : IsWord "enum" := .inl (by decide)
  have hheader : PrintsAs [.plain ("export enum " ++ e.name ++ " \x7b")]
      (headerMarks "enum" e.name ++ [sign '\x7b']) := by
    intro rest ms hrest hms
    have hbrace := ((prints_header hkeyword he.name).append trails_brace) rest ms hrest hms
    simpa [Piece.print, Piece.text, String.toList_append] using hbrace
  have hblock : Scans false _ (headerMarks "enum" e.name ++
      bodyMarks (e.members.map EnumMember.marks) ++ [.final]) :=
    scans_block hheader fun m hm rest ms h => (he.members m hm).scans h
  have hlines : (e.members.map fun m => [Piece.plain (Declaration.enumMemberText m)]).map
      Piece.print = e.members.map Declaration.enumMemberText := by
    simp [Function.comp_def, Piece.print, Piece.text]
  rw [print_block, hlines] at hblock
  simpa [Declaration.text, Declaration.pieces, EnumDef.marks, Piece.print, Piece.text] using hblock

theorem AliasDef.Canonical.scans {a : AliasDef} (ha : a.Canonical) :
    Scans false (Piece.print (.plain ("export type " ++ a.name) ::
      (Declaration.typeParamsPieces [] a.typeParams ++
        Piece.enclosed " = " (a.type.pieces []) ";"))).toList (a.marks ++ [.final]) := by
  have hkeyword : IsWord "type" := .inl (by decide)
  have hend : Trails [.plain ";"] [sign ';'] := by
    refine .of_first rfl (by decide) fun rest ms _ hms => ?_
    have hsign : Scans false (';' :: rest) _ := .sign (by decide) hms
    simpa [Piece.print, Piece.text] using hsign
  have htype := trails_equals (ha.type.scanned.append hend)
  have halias := ((prints_header hkeyword ha.name).append
    ((trails_typeParams ha.typeParams).append htype)) [] [.final] edge_nil scans_nil
  simpa [AliasDef.marks, Piece.enclosed, Piece.print, Piece.print_append, Piece.text,
    String.toList_append] using halias

end HandlerWeave.Source
