import HandlerWeave.Analysis
import HandlerWeave.Types.Text

/-!
Writing types and declarations. Every name that is met on the way is defined at once, in the order
of the text, so the table of types changes while a text is made.
-/
namespace HandlerWeave.Types

open Source

/-- Steps of an analysis that collect, each once, the names they meet. -/
abbrev Rendering := StateT (List String) AnalysisM

namespace Rendering

section

variable (define : QualifiedName → Module → AnalysisM Unit) (m : Module) (scope : List String)

mutual

/-- The text of a type written in `m`. The names in `scope` are type parameters. -/
def type : TypeNode → Rendering String
  | .keyword word => return word.text
  | .literal value => return value.text
  | .reference name args => do
    if isParameter scope name then return name.name
    modify (Mention.addName · name.name)
    define name m
    if args.isEmpty then return name.name
    return name.name ++ "<" ++ String.intercalate ", " (← types args) ++ ">"
  | .array element => do
    let text ← type element
    return if needsParentheses element then "(" ++ text ++ ")[]" else text ++ "[]"
  | .tuple elements => return "[" ++ String.intercalate ", " (← types elements) ++ "]"
  | .union arms => return String.intercalate " | " (← types arms)
  | .intersection parts => return String.intercalate " & " (← types parts)
  | .parenthesized inner => return "(" ++ (← type inner) ++ ")"
  | .shape shapeMembers => do
    match ← members shapeMembers with
    | [] => return "\x7b\x7d"
    | texts => return "\x7b " ++ String.intercalate " " texts ++ " \x7d"
  | .verbatim _ text => do
    Analysis.report (.unsupportedType m.path text)
    return "unknown"

def types : List TypeNode → Rendering (List String)
  | [] => return []
  | node :: nodes => return (← type node) :: (← types nodes)

def optional : Option TypeNode → Rendering String
  | some node => type node
  | none => return "any"

/-- The members of a shape or interface; methods leave nothing. -/
def members : List TypeMember → Rendering (List String)
  | [] => return []
  | .property name isOptional node :: rest => do
    let text ← optional node
    return (Text.memberName name ++ optionalMark isOptional ++ ": " ++ text ++ ";")
      :: (← members rest)
  | .index keyName keyNode node :: rest => do
    let key ← type keyNode
    let value ← type node
    return ("[" ++ keyName ++ ": " ++ key ++ "]: " ++ value ++ ";") :: (← members rest)
  | .method _ :: rest => members rest

end

/-- A part of a type parameter, with what stands in front of it. -/
def clause (mark : String) : Option TypeNode → Rendering String
  | some node => return mark ++ (← type define m scope node)
  | none => return ""

def typeParam (p : TypeParam) : Rendering String := do
  let constraint ← clause define m scope " extends " p.constraint
  let fallback ← clause define m scope " = " p.fallback
  return p.name ++ constraint ++ fallback

def typeParams (params : List TypeParam) : Rendering String := do
  if params.isEmpty then return ""
  return "<" ++ String.intercalate ", " (← params.mapM (typeParam define m scope)) ++ ">"

def interfaceHeader (name : String) (params : List TypeParam) (heritage : List Heritage) :
    Rendering String := do
  let params ← typeParams define m scope params
  let parents ← heritage.mapM fun h => type define m scope (Declaration.heritageType h)
  let extended := if parents.isEmpty then "" else " extends " ++ String.intercalate ", " parents
  return "export interface " ++ name ++ params ++ extended ++ " \x7b"

/-- The lines a class member leaves: instance properties that are not private by name, properties
made by the constructor, index signatures. -/
def classMember : ClassMember → Rendering (List String)
  | .property p => do
    if p.isStatic || p.name.toList.head? == some '#' then return []
    let text ← optional define m scope p.type
    return [Text.memberName p.name ++ optionalMark p.optional ++ ": " ++ text ++ ";"]
  | .constructor params =>
    (params.filter (·.property)).mapM fun p => do
      let text ← optional define m scope p.type
      return p.name ++ optionalMark p.optional ++ ": " ++ text ++ ";"
  | .index s => do
    let key ← type define m scope s.keyType
    let value ← type define m scope s.type
    return ["[" ++ s.keyName ++ ": " ++ key ++ "]: " ++ value ++ ";"]
  | .method _ => return []

end

def declaration (define : QualifiedName → Module → AnalysisM Unit) (m : Module) (d : Declaration) :
    Rendering String := do
  let scope := d.scope
  match d with
  | .interfaceDef i =>
    let header ← interfaceHeader define m scope i.name i.typeParams i.bases
    return Declaration.block header (← members define m scope i.members)
  | .classDef c =>
    let header ← interfaceHeader define m scope c.name c.typeParams c.heritage
    return Declaration.block header (← c.members.mapM (classMember define m scope)).flatten
  | .enumDef e =>
    return Declaration.block ("export enum " ++ e.name ++ " \x7b")
      (e.members.map Declaration.enumMemberText)
  | .aliasDef a =>
    let params ← typeParams define m scope a.typeParams
    let text ← type define m scope a.type
    return "export type " ++ a.name ++ params ++ " = " ++ text ++ ";"

end Rendering

end HandlerWeave.Types
