import HandlerWeave.Source.Grammar.Basic

/-!
The grammar of types. Types without structure of their own (function, conditional, mapped, indexed
and the like) are read to their end and kept as text.
-/
namespace HandlerWeave.Source.Grammar

open Source.Parser

/-- A parenthesis whose closing partner an arrow follows. -/
def atArrowParams (c : Cursor) : Bool :=
  c.check .leftParen &&
    match Group.closingIndex? 0 c.ahead with
    | some n => c.kindAhead (n + 1) == .arrow
    | none => false

def functionType (g : Grammar) (start : Cursor) (kind : VerbatimKind) : Parser TypeNode := do
  let _ ← g.typeParams
  let _ ← g.params
  require .arrow "`=>` in function type"
  let _ ← g.returnType
  return .verbatim kind (← textSince start)

/-- A mapped type starts here, and not a shape. -/
def startsMappedType (c : Cursor) : Bool :=
  let n := if c.kindAhead 1 == .plus || c.kindAhead 1 == .minus then 2 else 1
  let n := if c.wordAt n "readonly" then n + 1 else n
  c.kindAhead n == .leftBracket && c.kindAhead (n + 1) == .word && c.wordAt (n + 2) "in"

/-- One member of a shape, a separator, or the end of the body. -/
def typeMember (g : Grammar) : Parser (Option (Option TypeMember)) := do
  let c ← get
  if c.check .rightBrace then return none
  if c.check .endOfFile then fail .unterminatedType
  if c.check .semicolon || c.check .comma then
    advance
    return some none
  if c.seesWord "readonly" && c.nameStartsAt 1 then advance
  let c ← get
  if c.check .leftParen || c.check .less then
    g.passSignature
    return some (some (.method "()"))
  if c.seesWord "new" && (c.kindAhead 1 == .leftParen || c.kindAhead 1 == .less) then
    advance
    g.passSignature
    return some (some (.method "new"))
  let accessor := c.seesAnyWord ["get", "set"] && c.nameStartsAt 1
  if accessor then advance
  if atIndexSignature (← get) then
    let signature ← g.indexSignature
    return some (some (.index signature.keyName signature.keyType signature.type))
  let name ← memberName "type member"
  let optional ← takeKind .question
  let c ← get
  if accessor || c.check .leftParen || c.check .less then
    g.passSignature
    return some (some (.method name))
  let type ← after .colon g.type
  return some (some (.property name optional type))

def typeMembers (g : Grammar) : Parser (List TypeMember) := do
  require .leftBrace "`\x7b`"
  let members ← many g.typeMember
  require .rightBrace "`\x7d`"
  return members.filterMap id

def tupleElement (g : Grammar) : Parser TypeNode := do
  let _ ← takeKind .ellipsis
  let c ← get
  if c.check .word && c.kindAhead 1 == .colon then
    advance
    advance
  else if c.check .word && c.kindAhead 1 == .question && c.kindAhead 2 == .colon then
    advance
    advance
    advance
  let element ← g.type
  let _ ← takeKind .question
  return element

def tupleType (g : Grammar) : Parser TypeNode := do
  require .leftBracket "`[`"
  let elements ← commaList .rightBracket g.tupleElement
  require .rightBracket "`]` after tuple elements"
  return .tuple elements

/-- The rest of a type that refers to an imported module as a whole. -/
def importedPath : Parser Unit := do
  advance
  passGroup
  skipWhile do
    if ← takeKind .dot then
      let _ ← word "name after `.`"
      return true
    return false

def referenceType (g : Grammar) : Parser TypeNode := do
  let name ← qualifiedName
  return .reference name (← g.typeArgsIfAny)

def namedType (g : Grammar) : Parser TypeNode := do
  let start ← get
  let importStarts (c : Cursor) : Bool := c.seesWord "import" && c.kindAhead 1 == .leftParen
  if start.seesAnyWord ["true", "false"] then
    advance
    return .literal (.bool (start.seesWord "true"))
  if start.seesWord "typeof" then
    advance
    if importStarts (← get) then importedPath
    else let _ ← qualifiedName
    let _ ← g.typeArgsIfAny
    return .verbatim .query (← textSince start)
  if importStarts start then
    importedPath
    let _ ← g.typeArgsIfAny
    return .verbatim .query (← textSince start)
  match Keyword.ofText? start.text with
  | some keyword =>
    if start.kindAhead 1 == .dot then g.referenceType
    else
      advance
      return .keyword keyword
  | none => g.referenceType

def primaryType (g : Grammar) : Parser TypeNode := do
  let start ← get
  match start.kind with
  | .leftParen =>
    advance
    let inner ← g.type
    require .rightParen "`)`"
    return .parenthesized inner
  | .leftBrace =>
    if startsMappedType start then
      passGroup
      return .verbatim .mapped (← textSince start)
    return .shape (← g.typeMembers)
  | .leftBracket => g.tupleType
  | .string => return .literal (.string (← takeString))
  | .template =>
    advance
    return .verbatim .templateLiteral (← textSince start)
  | .number => return .literal (.number (← takeText))
  | .word => g.namedType
  | kind =>
    if kind == .minus && start.kindAhead 1 == .number then
      advance
      return .literal (.number ("-" ++ (← takeText)))
    fail (.expected "type")

/-- Brackets behind a type on the same line make it an array or an access to one of its parts. -/
def typeSuffix (g : Grammar) (start : Cursor) (type : TypeNode) : Parser (Option TypeNode) := do
  let c ← get
  if c.check .leftBracket && !c.newlineBefore then
    advance
    if ← takeKind .rightBracket then return some (.array type)
    let _ ← g.type
    require .rightBracket "`]` in indexed access type"
    return some (.verbatim .indexedAccess (← textSince start))
  return none

def isArrayOrTuple : TypeNode → Bool
  | .array _ | .tuple _ => true
  | _ => false

/-- Tokens that show an operator word to be a name. -/
def endsOperand (kind : Token.Kind) : Bool :=
  [.comma, .rightParen, .greater, .semicolon, .equals].contains kind

/-- A type without `|`, `&` and what binds less. A `readonly` in front of an array or a tuple
leaves no mark. -/
def operandTypeRule (g : Grammar) : Parser TypeNode := do
  let start ← get
  if start.seesAnyWord ["keyof", "unique", "readonly"] && !endsOperand (start.kindAhead 1) then
    advance
    let inner ← g.operandType
    if start.seesWord "readonly" && isArrayOrTuple inner then return inner
    return .verbatim .operator (← textSince start)
  if start.seesWord "infer" && start.kindAhead 1 == .word then
    advance
    advance
    return .verbatim .infer (← textSince start)
  let type ← g.primaryType
  iterate (g.typeSuffix start) type

/-- A list of one stands for its only part. -/
def joined (join : List TypeNode → TypeNode) : List TypeNode → TypeNode
  | [type] => type
  | types => join types

def intersectionType (g : Grammar) : Parser TypeNode := do
  let _ ← takeKind .ampersand
  return joined .intersection (← separated .ampersand g.operandTypeRule)

def unionType (g : Grammar) : Parser TypeNode := do
  let _ ← takeKind .pipe
  return joined .union (← separated .pipe g.intersectionType)

def typeRule (g : Grammar) : Parser TypeNode := do
  let start ← get
  if start.check .less || atArrowParams start then
    return ← g.functionType start .function
  if start.seesWord "new" || (start.seesWord "abstract" && start.wordAt 1 "new") then
    let _ ← takeWord "abstract"
    advance
    return ← g.functionType start .constructor
  let type ← g.unionType
  if ← takeWord "extends" then
    let _ ← g.unionType
    require .question "`?` in conditional type"
    let _ ← g.type
    require .colon "`:` in conditional type"
    let _ ← g.type
    return .verbatim .conditional (← textSince start)
  return type

end HandlerWeave.Source.Grammar
