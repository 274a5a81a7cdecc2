import HandlerWeave.Module
import HandlerWeave.Text.Quoted

/-!
The text of types and of declarations as standalone exports, made of pieces. Some of the pieces are
mentions: the types that the text names and the types that have no text here, in the order they are
written.
-/
namespace HandlerWeave

open Source

/-- What writing a type comes across. -/
inductive Mention
  | named (name : QualifiedName)
  /-- A type kept as text only, which is written as `unknown`. -/
  | unsupported (text : String)
deriving DecidableEq, Repr

namespace Mention

def name? : Mention → Option String
  | named name => some name.name
  | unsupported _ => none

def addName (names : List String) (name : String) : List String :=
  if names.contains name then names else names ++ [name]

/-- The names mentioned, each once, in the order of their first mention. -/
def references (mentions : List Mention) : List String :=
  (mentions.filterMap name?).foldl addName []

end Mention

inductive Piece
  | plain (text : String)
  | mention (mention : Mention)
deriving DecidableEq, Repr

namespace Piece

def text : Piece → String
  | plain text => text
  | mention (.named name) => name.name
  | mention (.unsupported _) => "unknown"

def mention? : Piece → Option Mention
  | plain _ => none
  | mention x => some x

/-- The text that pieces make up. -/
def print : List Piece → String
  | [] => ""
  | piece :: pieces => piece.text ++ print pieces

def mentions (pieces : List Piece) : List Mention := pieces.filterMap mention?

def enclosed (left : String) (pieces : List Piece) (right : String) : List Piece :=
  plain left :: (pieces ++ [plain right])

def separated (separator : String) : List (List Piece) → List Piece
  | [] => []
  | [part] => part
  | part :: parts => part ++ plain separator :: separated separator parts

def property (label : String) (type : List Piece) : List Piece := enclosed (label ++ ": ") type ";"

def index (keyName : String) (key type : List Piece) : List Piece :=
  enclosed ("[" ++ keyName ++ ": ") key "]: " ++ (type ++ [plain ";"])

end Piece

/-- A name that stands for a type parameter. -/
def isParameter (scope : List String) (name : QualifiedName) : Bool :=
  name.qualifier.isNone && scope.contains name.name

/-- Element types that need parentheses in front of brackets. -/
def needsParentheses : TypeNode → Bool
  | .union _ | .intersection _ => true
  | .verbatim .function _ | .verbatim .constructor _ => true
  | _ => false

def optionalMark (optional : Bool) : String := if optional then "?" else ""

namespace Source

def LiteralType.text : LiteralType → String
  | string value => Text.quote value
  | number text => text
  | bool value => if value then "true" else "false"

mutual

/-- The pieces of a type. The names in `scope` are type parameters. -/
def TypeNode.pieces (scope : List String) : TypeNode → List Piece
  | .keyword word => [.plain word.text]
  | .literal value => [.plain value.text]
  | .reference name args =>
    if isParameter scope name then [.plain name.name]
    else if args.isEmpty then [.mention (.named name)]
    else
      .mention (.named name) ::
        Piece.enclosed "<" (Piece.separated ", " (typePieces scope args)) ">"
  | .array element =>
    if needsParentheses element then Piece.enclosed "(" (TypeNode.pieces scope element) ")[]"
    else TypeNode.pieces scope element ++ [.plain "[]"]
  | .tuple elements => Piece.enclosed "[" (Piece.separated ", " (typePieces scope elements)) "]"
  | .union arms => Piece.separated " | " (typePieces scope arms)
  | .intersection parts => Piece.separated " & " (typePieces scope parts)
  | .parenthesized inner => Piece.enclosed "(" (TypeNode.pieces scope inner) ")"
  | .shape members =>
    match memberPieces scope members with
    | [] => [.plain "\x7b\x7d"]
    | parts => Piece.enclosed "\x7b " (Piece.separated " " parts) " \x7d"
  | .verbatim _ text => [.mention (.unsupported text)]

def typePieces (scope : List String) : List TypeNode → List (List Piece)
  | [] => []
  | type :: types => TypeNode.pieces scope type :: typePieces scope types

def optionalPieces (scope : List String) : Option TypeNode → List Piece
  | some type => TypeNode.pieces scope type
  | none => [.plain "any"]

def memberPieces (scope : List String) : List TypeMember → List (List Piece)
  | [] => []
  | .property name optional type :: members =>
    Piece.property (Text.memberName name ++ optionalMark optional) (optionalPieces scope type)
      :: memberPieces scope members
  | .index keyName keyType type :: members =>
    Piece.index keyName (TypeNode.pieces scope keyType) (TypeNode.pieces scope type)
      :: memberPieces scope members
  | .method _ :: members => memberPieces scope members

end

def TypeNode.text (scope : List String) (type : TypeNode) : String :=
  Piece.print (type.pieces scope)

def TypeNode.mentions (scope : List String) (type : TypeNode) : List Mention :=
  Piece.mentions (type.pieces scope)

def optionalTypeText (scope : List String) (type : Option TypeNode) : String :=
  Piece.print (optionalPieces scope type)

def optionalTypeMentions (scope : List String) (type : Option TypeNode) : List Mention :=
  Piece.mentions (optionalPieces scope type)

end Source

namespace Declaration

/-- A header, indented lines and a closing brace. -/
def block (header : String) (lines : List String) : String :=
  header ++ "\n" ++ String.join (lines.map fun line => "    " ++ line ++ "\n") ++ "\x7d"

def enumMemberText (m : EnumMember) : String :=
  let name := Text.memberName m.name
  match m.initializer with
  | some (.string s) => name ++ " = " ++ Text.quote s ++ ","
  | some (.number n) => name ++ " = " ++ n ++ ","
  | some (.negate (.number n)) => name ++ " = -" ++ n ++ ","
  | _ => name ++ ","

def heritageType (h : Heritage) : TypeNode := .reference h.name h.typeArgs

def scope (d : Declaration) : List String := d.typeParams.map (·.name)

/-- The lines a class member leaves: instance properties that are not private by name, properties
made by the constructor, index signatures. A property made by the constructor keeps its name
unquoted. -/
def classMemberPieces (scope : List String) : ClassMember → List (List Piece)
  | .property p =>
    if p.isStatic || p.name.toList.head? == some '#' then []
    else
      [Piece.property (Text.memberName p.name ++ optionalMark p.optional)
        (optionalPieces scope p.type)]
  | .constructor params =>
    (params.filter (·.property)).map fun p =>
      Piece.property (p.name ++ optionalMark p.optional) (optionalPieces scope p.type)
  | .index s => [Piece.index s.keyName (s.keyType.pieces scope) (s.type.pieces scope)]
  | .method _ => []

def clausePieces (scope : List String) (mark : String) : Option TypeNode → List Piece
  | some type => .plain mark :: type.pieces scope
  | none => []

def typeParamPieces (scope : List String) (p : TypeParam) : List Piece :=
  .plain p.name ::
    (clausePieces scope " extends " p.constraint ++ clausePieces scope " = " p.fallback)

def typeParamsPieces (scope : List String) (params : List TypeParam) : List Piece :=
  if params.isEmpty then []
  else Piece.enclosed "<" (Piece.separated ", " (params.map (typeParamPieces scope))) ">"

def headerPieces (scope : List String) (name : String) (params : List TypeParam)
    (heritage : List Heritage) : List Piece :=
  let parents := heritage.map fun h => (heritageType h).pieces scope
  let extended := if parents.isEmpty then [] else .plain " extends " :: Piece.separated ", " parents
  .plain ("export interface " ++ name) ::
    (typeParamsPieces scope params ++ extended ++ [.plain " \x7b"])

def blockPieces (header : List Piece) (lines : List (List Piece)) : List Piece :=
  header ++ .plain "\n" ::
    (lines.flatMap (fun line => Piece.enclosed "    " line "\n") ++ [.plain "\x7d"])

/-- The declaration as an export of its own. A class becomes an interface over its data. -/
def pieces (d : Declaration) : List Piece :=
  let scope := d.scope
  match d with
  | interfaceDef i =>
    blockPieces (headerPieces scope i.name i.typeParams i.bases) (memberPieces scope i.members)
  | classDef c =>
    blockPieces (headerPieces scope c.name c.typeParams c.heritage)
      (c.members.flatMap (classMemberPieces scope))
  | enumDef e =>
    [.plain (block ("export enum " ++ e.name ++ " \x7b") (e.members.map enumMemberText))]
  | aliasDef a =>
    .plain ("export type " ++ a.name) ::
      (typeParamsPieces scope a.typeParams ++
        Piece.enclosed " = " (a.type.pieces scope) ";")

def text (d : Declaration) : String := Piece.print d.pieces

def mentions (d : Declaration) : List Mention := Piece.mentions d.pieces

end Declaration

end HandlerWeave
