import HandlerWeave.Proofs.Types.Mentions
import HandlerWeave.Types.Rendering

/-!
A type or declaration is written in one go with the definition of the names it mentions. Here the
two are taken apart: the text does not depend on what the analysis has done before, and the names
are those of its mentions, which are gone over in order.
-/
namespace HandlerWeave.Types

open Source

/-- Goes over mentions in order: a name is defined, a type without a text here reported. -/
def visit (define : QualifiedName → Module → AnalysisM Unit) (m : Module) :
    List Mention → AnalysisM Unit
  | [] => return
  | .named name :: mentions => do
    define name m
    visit define m mentions
  | .unsupported text :: mentions => do
    Analysis.report (.unsupportedType m.path text)
    visit define m mentions

theorem visit_append (define : QualifiedName → Module → AnalysisM Unit) (m : Module)
    (xs ys : List Mention) :
    visit define m (xs ++ ys) = (visit define m xs >>= fun _ => visit define m ys) := by
  induction xs with
  | nil => simp [visit]
  | cons x xs ih => cases x <;> simp [visit, ih]

namespace Rendering

/-- Goes over mentions and adds their names to those collected. -/
def pass (define : QualifiedName → Module → AnalysisM Unit) (m : Module)
    (mentions : List Mention) : Rendering Unit := fun names => do
  visit define m mentions
  return ((), (mentions.filterMap Mention.name?).foldl Mention.addName names)

section

variable (define : QualifiedName → Module → AnalysisM Unit) (m : Module) (scope : List String)

@[simp] theorem pass_nil : pass define m [] = pure () := by
  funext names
  simp only [pass, visit, List.filterMap_nil, List.foldl_nil, pure_bind]
  rfl

theorem pass_append (xs ys : List Mention) :
    pass define m (xs ++ ys) = (pass define m xs >>= fun _ => pass define m ys) := by
  funext names
  change _ = StateT.bind (pass define m xs) (fun _ => pass define m ys) names
  simp [StateT.bind, pass, visit_append]

theorem pass_cons (x : Mention) (xs : List Mention) :
    pass define m (x :: xs) = (pass define m [x] >>= fun _ => pass define m xs) :=
  pass_append define m [x] xs

theorem pass_named (name : QualifiedName) :
    pass define m [.named name] =
      (modify (Mention.addName · name.name) >>= fun _ => liftM (define name m)) := by
  funext names
  simp only [pass, visit, bind_assoc, pure_bind]
  rfl

theorem pass_unsupported (text : String) :
    pass define m [.unsupported text] =
      liftM (Analysis.report (.unsupportedType m.path text)) := by
  funext names
  simp only [pass, visit, bind_assoc, pure_bind]
  rfl

/-- Writes pieces one after the other: their mentions are gone over, and they make up the text. -/
def write (pieces : List Piece) : Rendering String := do
  pass define m (Piece.mentions pieces)
  return Piece.print pieces

@[simp] theorem write_nil : write define m [] = pure "" := by
  simp [write, Piece.print]

@[simp] theorem write_plain (text : String) (pieces : List Piece) :
    write define m (.plain text :: pieces) = (text ++ ·) <$> write define m pieces := by
  simp [write, Piece.print, Piece.text]

theorem write_append (xs ys : List Piece) :
    write define m (xs ++ ys) =
      (write define m xs >>= fun x => (x ++ ·) <$> write define m ys) := by
  simp [write, Piece.mentions_append, Piece.print_append, pass_append]

@[simp] theorem write_named (name : QualifiedName) (pieces : List Piece) :
    write define m (.mention (.named name) :: pieces) =
      (modify (Mention.addName · name.name) >>= fun _ => liftM (define name m) >>= fun _ =>
        (name.name ++ ·) <$> write define m pieces) := by
  have h := pass_cons define m (.named name) (Piece.mentions pieces)
  simp [write, Piece.print, Piece.text, h, pass_named]

@[simp] theorem write_unsupported (text : String) :
    write define m [.mention (.unsupported text)] =
      (liftM (Analysis.report (.unsupportedType m.path text)) >>= fun _ => pure "unknown") := by
  simp [write, Piece.print, Piece.text, pass_unsupported]

@[simp] theorem write_enclosed (left right : String) (pieces : List Piece) :
    write define m (Piece.enclosed left pieces right) =
      (fun text => left ++ text ++ right) <$> write define m pieces := by
  simp [Piece.enclosed, write_append, String.append_assoc]

theorem write_separated (separator : String) (parts : List (List Piece)) :
    write define m (Piece.separated separator parts) =
      String.intercalate separator <$> parts.mapM (write define m) := by
  induction parts with
  | nil => simp [Piece.separated]
  | cons part parts ih =>
      cases parts with
      | nil => simp [Piece.separated]
      | cons next parts =>
          simp only [Piece.separated, write_append, write_plain, ih]
          simp [String.intercalate_cons_cons, String.append_assoc]

mutual

theorem type_eq (t : TypeNode) : type define m scope t = write define m (t.pieces scope) := by
  cases t with
  | keyword word | literal value => simp [type, TypeNode.pieces]
  | reference name args =>
      by_cases h : isParameter scope name
      · simp [type, TypeNode.pieces, h]
      · cases args with
        | nil => simp [type, TypeNode.pieces, h]
        | cons arg args =>
            have ih := types_eq (arg :: args)
            simp [type, TypeNode.pieces, h, ih, write_separated, String.append_assoc]
  | array element =>
      have ih := type_eq element
      cases h : needsParentheses element <;>
        simp [type, TypeNode.pieces, ih, h, write_append, String.append_assoc]
  | tuple nodes | union nodes | intersection nodes =>
      have ih := types_eq nodes
      simp [type, TypeNode.pieces, ih, write_separated]
  | parenthesized inner =>
      have ih := type_eq inner
      simp [type, TypeNode.pieces, ih]
  | shape shapeMembers =>
      have ih := members_eq shapeMembers
      cases h : memberPieces scope shapeMembers with
      | nil => simp [type, TypeNode.pieces, ih, h]
      | cons part parts => simp [type, TypeNode.pieces, ih, h, write_separated]
  | verbatim kind text => simp [type, TypeNode.pieces]

theorem types_eq (nodes : List TypeNode) :
    types define m scope nodes = (typePieces scope nodes).mapM (write define m) := by
  cases nodes with
  | nil => simp [types, typePieces]
  | cons node nodes =>
      have ih := type_eq node
      have ihs := types_eq nodes
      simp [types, typePieces, ih, ihs]

theorem optional_eq (node : Option TypeNode) :
    optional define m scope node = write define m (optionalPieces scope node) := by
  cases node with
  | none => simp [optional, optionalPieces]
  | some node =>
      have ih := type_eq node
      simp [optional, optionalPieces, ih]

theorem members_eq (rest : List TypeMember) :
    members define m scope rest = (memberPieces scope rest).mapM (write define m) := by
  cases rest with
  | nil => simp [members, memberPieces]
  | cons x rest =>
      have ihs := members_eq rest
      cases x with
      | property name isOptional node =>
          have ih := optional_eq node
          simp [members, memberPieces, Piece.property, ih, ihs, String.append_assoc]
      | index keyName keyNode node =>
          have ihKey := type_eq keyNode
          have ih := type_eq node
          simp [members, memberPieces, Piece.index, ihKey, ih, ihs, write_append,
            String.append_assoc]
      | method name => simp [members, memberPieces, ihs]

end

theorem clause_eq (mark : String) (node : Option TypeNode) :
    clause define m scope mark node =
      write define m (Declaration.clausePieces scope mark node) := by
  cases node <;> simp [clause, Declaration.clausePieces, type_eq]

theorem typeParam_eq (p : TypeParam) :
    typeParam define m scope p = write define m (Declaration.typeParamPieces scope p) := by
  simp [typeParam, clause_eq, Declaration.typeParamPieces, write_append, String.append_assoc]

theorem typeParams_eq (params : List TypeParam) :
    typeParams define m scope params =
      write define m (Declaration.typeParamsPieces scope params) := by
  have each : typeParam define m scope = write define m ∘ Declaration.typeParamPieces scope :=
    funext fun p => typeParam_eq define m scope p
  cases params with
  | nil => simp [typeParams, Declaration.typeParamsPieces]
  | cons p params => simp [typeParams, Declaration.typeParamsPieces, each, write_separated]

theorem interfaceHeader_eq (name : String) (params : List TypeParam) (heritage : List Heritage) :
    interfaceHeader define m scope name params heritage =
      write define m (Declaration.headerPieces scope name params heritage) := by
  cases heritage with
  | nil =>
      simp [interfaceHeader, Declaration.headerPieces, typeParams_eq, write_append,
        String.append_assoc]
  | cons h heritage =>
      simp [interfaceHeader, Declaration.headerPieces, typeParams_eq, type_eq, write_append,
        write_separated, String.append_assoc, Function.comp_def]

theorem classMember_eq (x : ClassMember) :
    classMember define m scope x =
      (Declaration.classMemberPieces scope x).mapM (write define m) := by
  cases x with
  | property p =>
      cases h : (p.isStatic || p.name.toList.head? == some '#') <;>
        simp [classMember, Declaration.classMemberPieces, Piece.property, optional_eq, h,
          String.append_assoc]
  | method decl => simp [classMember, Declaration.classMemberPieces]
  | constructor params =>
      simp [classMember, Declaration.classMemberPieces, Piece.property, optional_eq,
        String.append_assoc, Function.comp_def]
  | index s =>
      simp [classMember, Declaration.classMemberPieces, Piece.index, type_eq, write_append,
        String.append_assoc]

theorem write_block (header : List Piece) (lines : List (List Piece)) :
    write define m (Declaration.blockPieces header lines) =
      (write define m header >>= fun header =>
        Declaration.block header <$> lines.mapM (write define m)) := by
  have hlines : write define m (lines.flatMap fun line => Piece.enclosed "    " line "\n") =
      (fun texts : List String => String.join (texts.map fun line => "    " ++ line ++ "\n")) <$>
        lines.mapM (write define m) := by
    induction lines with
    | nil => simp
    | cons line lines ih => simp [write_append, ih]
  have block (header : String) : Declaration.block header = fun texts =>
      header ++ "\n" ++ String.join (texts.map fun line => "    " ++ line ++ "\n") ++ "\x7d" := rfl
  simp [Declaration.blockPieces, block, write_append, hlines, String.append_assoc]

theorem mapM_flatMap {α : Type} (f : α → List (List Piece)) (xs : List α) :
    (xs.flatMap f).mapM (write define m) =
      List.flatten <$> xs.mapM fun x => (f x).mapM (write define m) := by
  induction xs with
  | nil => simp
  | cons x xs ih => simp [ih]

theorem declaration_eq (d : Declaration) :
    declaration define m d = write define m d.pieces := by
  cases d with
  | interfaceDef i =>
      simp [declaration, Declaration.pieces, interfaceHeader_eq, members_eq, write_block]
  | classDef c =>
      have each (scope : List String) : classMember define m scope = fun x =>
          (Declaration.classMemberPieces scope x).mapM (write define m) :=
        funext fun x => classMember_eq define m scope x
      simp [declaration, Declaration.pieces, interfaceHeader_eq, each, write_block, mapM_flatMap]
  | enumDef e => simp [declaration, Declaration.pieces]
  | aliasDef a =>
      simp [declaration, Declaration.pieces, typeParams_eq, type_eq, write_append,
        String.append_assoc]

theorem mapM_write {α β : Type} (pieces : α → List Piece) (f : α → String → β) (xs : List α) :
    xs.mapM (fun x => f x <$> write define m (pieces x)) =
      (pass define m (xs.flatMap fun x => Piece.mentions (pieces x)) >>= fun _ =>
        pure (xs.map fun x => f x (Piece.print (pieces x)))) := by
  induction xs with
  | nil => simp
  | cons x xs ih =>
      rw [List.mapM_cons, ih]
      simp [write, pass_append]

theorem pass_bind_run {α : Type} (mentions : List Mention) (x : α) :
    (pass define m mentions >>= fun _ => pure x).run [] =
      (visit define m mentions >>= fun _ => pure (x, Mention.references mentions)) := by
  change StateT.bind (pass define m mentions) (fun _ => pure x) [] = _
  simp only [StateT.bind, pass, bind_assoc, pure_bind, Mention.references]
  rfl

/-- Whatever the analysis has done before, the text is the one made without it, and the names are
those of the mentions. -/
theorem declaration_run (d : Declaration) :
    (declaration define m d).run [] =
      (visit define m d.mentions >>= fun _ => pure (d.text, Mention.references d.mentions)) := by
  rw [declaration_eq, write, pass_bind_run]
  rfl

theorem type_run (t : TypeNode) :
    (type define m scope t).run [] =
      (visit define m (t.mentions scope) >>= fun _ =>
        pure (t.text scope, Mention.references (t.mentions scope))) := by
  rw [type_eq, write, pass_bind_run]
  rfl

end

end Rendering

end HandlerWeave.Types
