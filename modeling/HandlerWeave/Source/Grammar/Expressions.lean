import HandlerWeave.Source.Grammar.Types

/-!
The grammar of expressions: literals, names, calls and member access. An expression of any other
form is skipped and kept as text. Casts leave no mark.
-/
namespace HandlerWeave.Source.Grammar

open Source.Parser

def passArrowBody (g : Grammar) : Parser Unit := do
  let _ ← after .colon g.type
  require .arrow "`=>`"
  if (← get).check .leftBrace then passGroup else g.passInitializer

/-- A member of an object literal. Only plain properties and shorthands keep their structure. -/
def objectMember (g : Grammar) : Parser ObjectMember := do
  let start ← get
  if ← takeKind .ellipsis then
    let _ ← g.expr
    return .verbatim (← textSince start)
  let modified := start.seesAnyWord ["get", "set", "async"] && start.nameStartsAt 1
  if modified then advance
  let _ ← takeKind .star
  let nameStart ← get
  let computed := nameStart.check .leftBracket
  let key ← memberName "property name"
  let c ← get
  if c.check .leftParen || c.check .less then
    g.passSignature
    passBody
    return .verbatim (← textSince start)
  if ← takeKind .colon then
    let value ← g.expr
    if computed || modified then return .verbatim (← textSince start)
    return .property key value
  if nameStart.check .word && (c.check .comma || c.check .rightBrace) then return .shorthand key
  if ← takeKind .equals then
    g.passInitializer
    return .verbatim (← textSince start)
  fail (.expected "`:` in object literal")

def objectLiteral (g : Grammar) : Parser Expr := do
  require .leftBrace "`\x7b`"
  let members ← commaList .rightBrace g.objectMember
  require .rightBrace "`\x7d` to close object literal"
  return .object members

def construction (g : Grammar) : Parser Expr := do
  let first ← word "constructor after `new`"
  let callee ← iterate (fun callee => do
    if ← takeKind .dot then return some (.member callee (← word "name after `.`"))
    return none) (Expr.name first)
  let _ ← g.typeArgsIfAny
  return .construct callee (← g.argumentsIfAny)

def passToBody : Parser Unit := do
  skipWhile do
    let c ← get
    if c.check .leftBrace then return false
    if c.check .endOfFile then fail (.expected "body")
    if c.check .leftParen || c.check .leftBracket then passGroup else advance
    return true
  passGroup

def wordExpr (g : Grammar) : Parser Expr := do
  let start ← get
  if start.seesAnyWord ["true", "false"] then
    advance
    return .bool (start.seesWord "true")
  if start.seesWord "null" then
    advance
    return .null
  if start.seesWord "new" then
    advance
    return ← g.construction
  if start.seesAnyWord ["function", "class"] then
    passToBody
    return .verbatim (← textSince start)
  if start.kindAhead 1 == .arrow then
    advance
    g.passArrowBody
    return .verbatim (← textSince start)
  if start.seesWord "async" && (start.kindAhead 1 == .leftParen || start.kindAhead 1 == .word) then
    advance
    g.passInitializer
    return .verbatim (← textSince start)
  return .name (← takeText)

/-- A template holds substitutions when a dollar sign and a brace stand in it side by side. -/
def hasSubstitution : List Char → Bool
  | '$' :: '\x7b' :: _ => true
  | _ :: cs => hasSubstitution cs
  | [] => false

def primaryExpr (g : Grammar) : Parser Expr := do
  let start ← get
  match start.kind with
  | .string => return .string (← takeString)
  | .number => return .number (← takeText)
  | .template => return .template (← takeString) (hasSubstitution start.text.toList)
  | .leftBrace => g.objectLiteral
  | .leftBracket =>
    advance
    let items ← g.exprList .rightBracket
    require .rightBracket "`]` after array elements"
    return .array items
  | .leftParen =>
    if atArrowParams start then
      passGroup
      g.passArrowBody
      return .verbatim (← textSince start)
    advance
    let inner ← g.expr
    require .rightParen "`)`"
    return inner
  | .word => g.wordExpr
  | .comma | .semicolon | .rightParen | .rightBracket | .rightBrace | .endOfFile =>
    fail (.expected "expression")
  | _ =>
    advance
    g.passInitializer
    return .verbatim (← textSince start)

/-- What can follow an operand: a member, a call, an element, a template. -/
def exprSuffix (g : Grammar) (start : Cursor) (expr : Expr) : Parser (Option Expr) := do
  let c ← get
  match c.kind with
  | .dot =>
    advance
    return some (.member expr (← word "property name after `.`"))
  | .question =>
    if c.kindAhead 1 != .dot then return none
    advance
    advance
    let c ← get
    if c.check .leftParen || c.check .leftBracket then passGroup
    else let _ ← word "property name after `?.`"
    return some (.verbatim (← textSince start))
  | .leftParen => return some (.call expr (← g.arguments))
  | .leftBracket =>
    if c.newlineBefore then return none
    passGroup
    return some (.verbatim (← textSince start))
  | .bang =>
    if c.newlineBefore || c.kindAhead 1 == .equals then return none
    advance
    return some expr
  | .template =>
    if c.newlineBefore then return none
    advance
    return some (.verbatim (← textSince start))
  | _ => return none

def operandExpr (g : Grammar) : Parser Expr := do
  let start ← get
  let expr ← g.primaryExpr
  iterate (g.exprSuffix start) expr

def unaryRule (g : Grammar) : Parser Expr := do
  if ← takeKind .minus then return .negate (← g.unary)
  let c ← get
  if c.check .plus && c.kindAhead 1 == .number then advance
  g.operandExpr

/-- The current token ends an expression. -/
def atExprEnd (c : Cursor) : Bool :=
  [.comma, .semicolon, .rightParen, .rightBracket, .rightBrace, .endOfFile].contains c.kind ||
    c.atStatementBreak

def passCasts (g : Grammar) : Parser Unit := skipWhile do
  let c ← get
  if c.seesAnyWord ["as", "satisfies"] && !c.newlineBefore then
    advance
    if !(← takeWord "const") then
      let _ ← g.type
    return true
  return false

def exprRule (g : Grammar) : Parser Expr := do
  let start ← get
  let expr ← g.unaryRule
  g.passCasts
  if atExprEnd (← get) then return expr
  g.passInitializer
  return .verbatim (← textSince start)

/-- The grammar with one more level of nesting. -/
def next (g : Grammar) : Grammar := ⟨g.typeRule, g.operandTypeRule, g.exprRule, g.unaryRule⟩

def withLevels : Nat → Grammar
  | 0 => empty
  | levels + 1 => (withLevels levels).next

end HandlerWeave.Source.Grammar
