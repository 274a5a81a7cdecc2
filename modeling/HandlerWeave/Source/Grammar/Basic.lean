import HandlerWeave.Source.Parser
import HandlerWeave.Source.Tree
import HandlerWeave.Text.Quoted

/-!
What types and expressions share. A production calls itself and its kin only through a `Grammar`,
always with a token taken since the production began, so a grammar with as many levels as there are
tokens never runs out.
-/
namespace HandlerWeave.Source

/-- The parsers that a production may call for what is nested in it. -/
structure Grammar where
  type : Parser TypeNode
  operandType : Parser TypeNode
  expr : Parser Expr
  unary : Parser Expr

namespace Grammar

open Source.Parser

def empty : Grammar := ⟨tooDeep, tooDeep, tooDeep, tooDeep⟩

def takeString : Parser String := return Text.unquote (← takeText)

def typeArgs (g : Grammar) : Parser (List TypeNode) := do
  require .less "`<`"
  let args ← commaList .greater g.type
  require .greater "`>` after type arguments"
  return args

def typeArgsIfAny (g : Grammar) : Parser (List TypeNode) := do
  if (← get).check .less then g.typeArgs else return []

def qualifiedName : Parser QualifiedName := do
  let first ← word "type name"
  let rest ← many do
    let c ← get
    if c.check .dot && c.kindAhead 1 == .word then
      advance
      return some (← word "type name")
    return none
  match rest.getLast? with
  | none => return ⟨none, first⟩
  | some last => return ⟨some first, last⟩

/-- Type arguments in the middle of an expression: they count only when a call follows. Nothing is
taken otherwise. -/
def callTypeArgs (g : Grammar) : Parser Bool := fun c =>
  if c.before.any (·.kind == .word) then
    match g.typeArgs c with
    | .ok (_, after) => if after.check .leftParen then .ok (true, after) else .ok (false, c)
    | .error _ => .ok (false, c)
  else .ok (false, c)

/-- Skips an initializer up to the next separator outside brackets. -/
def passInitializer (g : Grammar) : Parser Unit := skipWhile do
  let c ← get
  match c.kind with
  | .endOfFile | .semicolon | .comma | .rightParen | .rightBracket | .rightBrace => return false
  | .leftParen | .leftBracket | .leftBrace =>
    passGroup
    return true
  | kind =>
    if kind == .less then
      if ← g.callTypeArgs then return true
    if c.atStatementBreak then return false
    advance
    return true

def exprList (g : Grammar) (closer : Token.Kind) : Parser (List Expr) := commaList closer do
  let start ← get
  -- a comma where an item should start is a hole
  if start.check .comma then return .verbatim ""
  if ← takeKind .ellipsis then
    let _ ← g.expr
    return .verbatim (← textSince start)
  g.expr

def arguments (g : Grammar) : Parser (List Expr) := do
  require .leftParen "`(`"
  let args ← g.exprList .rightParen
  require .rightParen "`)` after arguments"
  return args

def argumentsIfAny (g : Grammar) : Parser (List Expr) := do
  if (← get).check .leftParen then g.arguments else return []

def decorators (g : Grammar) : Parser (List Decorator) := many do
  if ← takeKind .atSign then
    let path ← separated .dot (word "decorator name")
    return some ⟨path, ← g.argumentsIfAny⟩
  return none

def typeParam (g : Grammar) : Parser TypeParam := do
  skipWhile do
    let c ← get
    if c.seesAnyWord ["const", "in", "out"] && c.kindAhead 1 == .word then
      advance
      return true
    return false
  let name ← word "type parameter name"
  let constraint ← if ← takeWord "extends" then some <$> g.type else pure none
  let fallback ← after .equals g.type
  return ⟨name, constraint, fallback⟩

def typeParams (g : Grammar) : Parser (List TypeParam) := do
  if ← takeKind .less then
    let params ← commaList .greater g.typeParam
    require .greater "`>` after type parameters"
    return params
  return []

def paramWords : List String := ["public", "private", "protected", "readonly", "override"]

/-- The name that stands for a pattern in braces or brackets. -/
def patternName : String := "__destructured"

/-- A plain name, or a pattern, which is skipped. -/
def bindingName (what : String) : Parser String := do
  match (← get).kind with
  | .word => takeText
  | .leftBrace | .leftBracket =>
    passGroup
    return patternName
  | _ => fail (.expected what)

def param (g : Grammar) : Parser Param := do
  let decorators ← g.decorators
  let property ← iterate (fun _ => do
    let c ← get
    if c.seesAnyWord paramWords &&
        [.word, .leftBrace, .leftBracket, .ellipsis].contains (c.kindAhead 1) then
      advance
      return some true
    return none) false
  let rest ← takeKind .ellipsis
  let name ← bindingName "parameter name"
  let optional ← takeKind .question
  let type ← after .colon g.type
  if ← takeKind .equals then g.passInitializer
  return ⟨name, type, optional, rest, property, decorators⟩

def params (g : Grammar) : Parser (List Param) := do
  require .leftParen "`(`"
  let params ← commaList .rightParen g.param
  require .rightParen "`)` after parameters"
  return params

/-- A return type, which may be a predicate on a parameter. -/
def returnType (g : Grammar) : Parser TypeNode := do
  let start ← get
  if start.seesWord "asserts" && start.kindAhead 1 == .word then
    advance
    advance
    if ← takeWord "is" then
      let _ ← g.type
    return .verbatim .predicate (← textSince start)
  if start.check .word && start.wordAt 1 "is" then
    advance
    advance
    let _ ← g.type
    return .verbatim .predicate (← textSince start)
  g.type

def passSignature (g : Grammar) : Parser Unit := do
  let _ ← g.typeParams
  let _ ← g.params
  let _ ← after .colon g.returnType

def passBody : Parser Unit := do
  if (← get).check .leftBrace then passGroup
  else let _ ← takeKind .semicolon

def indexSignature (g : Grammar) : Parser IndexSignature := do
  require .leftBracket "`[`"
  let keyName ← word "index parameter name"
  require .colon "`:` in index signature"
  let keyType ← g.type
  require .rightBracket "`]` in index signature"
  require .colon "`:` after index signature"
  let type ← g.type
  return ⟨keyName, keyType, type⟩

/-- An index signature starts here, and not a computed name. -/
def atIndexSignature (c : Cursor) : Bool :=
  c.check .leftBracket && c.kindAhead 1 == .word && c.kindAhead 2 == .colon

/-- What the name of a member in brackets is called. -/
def computedName : String := "[computed]"

/-- The name of a member: a word, a numeral, a string, or an expression in brackets. -/
def memberName (what : String) : Parser String := do
  match (← get).kind with
  | .word | .number => takeText
  | .string => takeString
  | .leftBracket =>
    passGroup
    return computedName
  | _ => fail (.expected what)

end Grammar

end HandlerWeave.Source
