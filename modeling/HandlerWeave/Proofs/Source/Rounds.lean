import HandlerWeave.Source.Grammar.Statements

/-!
The rounds of the loops of the grammar. Every loop repeats one parser and goes on as long as that
parser asks for it.
-/
namespace HandlerWeave.Source

namespace Parser

variable {α : Type}

/-- A list with separators between its items, which may end where an item could start. -/
def listWithin (ends : Cursor → Bool) (separator : Token.Kind) (item : Parser α) :
    Nat → Parser (List α)
  | 0 => tooDeep
  | rounds + 1 => do
    if ends (← get) then return []
    let a ← item
    if ← takeKind separator then return a :: (← listWithin ends separator item rounds)
    return [a]

def listRound (ends : Cursor → Bool) (separator : Token.Kind) (item : Parser α) : Parser Bool := do
  if ends (← get) then return false
  let _ ← item
  takeKind separator

def commaRound (closer : Token.Kind) (item : Parser α) : Parser Bool :=
  listRound (·.check closer) .comma item

def separatedRound (separator : Token.Kind) (item : Parser α) : Parser Bool :=
  listRound (fun _ => false) separator item

theorem commaListWithin_eq (closer : Token.Kind) (item : Parser α) (rounds : Nat) :
    commaListWithin closer item rounds = listWithin (·.check closer) .comma item rounds := by
  induction rounds with
  | zero => rfl
  | succ rounds ih =>
      unfold commaListWithin listWithin
      rw [ih]

theorem separatedWithin_eq (separator : Token.Kind) (item : Parser α) (rounds : Nat) :
    separatedWithin separator item rounds =
      listWithin (fun _ => false) separator item rounds := by
  induction rounds with
  | zero => rfl
  | succ rounds ih =>
      unfold separatedWithin listWithin
      rw [ih]
      rfl

theorem map_run {β : Type} (f : α → β) (p : Parser α) (c : Cursor) :
    (f <$> p) c = (p c).map (Prod.map f id) := by
  rw [map_eq_pure_bind]
  show (p c >>= fun x => Except.ok (f x.1, x.2)) = _
  cases p c <;> rfl

/-- A loop goes on behind a round that finds something. -/
theorem manyWithin_cons {step : Parser (Option α)} {c d : Cursor} {a : α}
    (h : step c = .ok (some a, d)) (rounds : Nat) :
    manyWithin step (rounds + 1) c =
      (manyWithin step rounds d).map (Prod.map (a :: ·) id) := by
  rw [← map_run, map_eq_pure_bind]
  show (step c >>= _) = _
  rw [h]
  rfl

end Parser

namespace Grammar

open Source.Parser

def nameRound : Parser (Option String) := do
  let c ← get
  if c.check .dot && c.kindAhead 1 == .word then
    advance
    return some (← word "type name")
  return none

theorem qualifiedName_eq : qualifiedName = do
    let first ← word "type name"
    let rest ← many nameRound
    match rest.getLast? with
    | none => return ⟨none, first⟩
    | some last => return ⟨some first, last⟩ := rfl

def initializerRound (g : Grammar) : Parser Bool := do
  let c ← get
  match c.kind with
  | .endOfFile | .semicolon | .comma | .rightParen | .rightBracket | .rightBrace => return false
  | .leftParen | .leftBracket | .leftBrace =>
    passGroup
    return true
  | kind =>
    if kind == .less then
      if ← g.callTypeArgs then return true
    if c.atStatementBreak then return false
    advance
    return true

theorem passInitializer_eq (g : Grammar) : g.passInitializer = skipWhile g.initializerRound := rfl

/-- An expression in a list, a hole or a spread. -/
def listedExpr (g : Grammar) : Parser Expr := do
  let start ← get
  if start.check .comma then return .verbatim ""
  if ← takeKind .ellipsis then
    let _ ← g.expr
    return .verbatim (← textSince start)
  g.expr

theorem exprList_eq (g : Grammar) (closer : Token.Kind) :
    g.exprList closer = commaList closer g.listedExpr := rfl

def decoratorRound (g : Grammar) : Parser (Option Decorator) := do
  if ← takeKind .atSign then
    let path ← separated .dot (word "decorator name")
    return some ⟨path, ← g.argumentsIfAny⟩
  return none

theorem decorators_eq (g : Grammar) : g.decorators = many g.decoratorRound := rfl

def typeParamWordRound : Parser Bool := do
  let c ← get
  if c.seesAnyWord ["const", "in", "out"] && c.kindAhead 1 == .word then
    advance
    return true
  return false

/-- A type parameter from its name on. -/
def namedTypeParam (g : Grammar) : Parser TypeParam := do
  let name ← word "type parameter name"
  let constraint ← if ← takeWord "extends" then some <$> g.type else pure none
  let fallback ← after .equals g.type
  return ⟨name, constraint, fallback⟩

theorem typeParam_eq (g : Grammar) :
    g.typeParam = (do skipWhile typeParamWordRound; g.namedTypeParam) := rfl

def paramWordRound (_ : Bool) : Parser (Option Bool) := do
  let c ← get
  if c.seesAnyWord paramWords &&
      [.word, .leftBrace, .leftBracket, .ellipsis].contains (c.kindAhead 1) then
    advance
    return some true
  return none

theorem param_eq (g : Grammar) : g.param = do
    let decorators ← g.decorators
    let property ← iterate paramWordRound false
    let rest ← takeKind .ellipsis
    let name ← bindingName "parameter name"
    let optional ← takeKind .question
    let type ← after .colon g.type
    if ← takeKind .equals then g.passInitializer
    return ⟨name, type, optional, rest, property, decorators⟩ := rfl

def memberWordRound (isStatic : Bool) : Parser (Option Bool) := do
  let c ← get
  if c.seesAnyWord memberWords && !atStaticBlock c && c.nameStartsAt 1 then
    advance
    return some (isStatic || c.seesWord "static")
  return none

theorem passMemberWords_eq : passMemberWords = iterate memberWordRound false := rfl

def modifierRound (m : Modifiers) : Parser (Option Modifiers) := do
  let c ← get
  if c.seesWord "export" then
    if atReexport c then return none
    advance
    return some { m with exported := true }
  if m.exported && c.seesWord "default" then
    advance
    return some { m with isDefault := true }
  if c.seesWord "declare" && c.kindAhead 1 == .word then
    advance
    return some { m with declared := true }
  if c.seesWord "abstract" && c.wordAt 1 "class" then
    advance
    return some { m with isAbstract := true }
  return none

theorem modifiers_eq : modifiers = iterate modifierRound {} := rfl

def importedPathRound : Parser Bool := do
  if ← takeKind .dot then
    let _ ← word "name after `.`"
    return true
  return false

theorem importedPath_eq :
    importedPath = (do advance; passGroup; skipWhile importedPathRound) := rfl

def constructionRound (callee : Expr) : Parser (Option Expr) := do
  if ← takeKind .dot then return some (.member callee (← word "name after `.`"))
  return none

theorem construction_eq (g : Grammar) : g.construction = do
    let first ← word "constructor after `new`"
    let callee ← iterate constructionRound (Expr.name first)
    let _ ← g.typeArgsIfAny
    return .construct callee (← g.argumentsIfAny) := rfl

def bodyRound : Parser Bool := do
  let c ← get
  if c.check .leftBrace then return false
  if c.check .endOfFile then fail (.expected "body")
  if c.check .leftParen || c.check .leftBracket then passGroup else advance
  return true

theorem passToBody_eq : passToBody = (do skipWhile bodyRound; passGroup) := rfl

def castRound (g : Grammar) : Parser Bool := do
  let c ← get
  if c.seesAnyWord ["as", "satisfies"] && !c.newlineBefore then
    advance
    if !(← takeWord "const") then
      let _ ← g.type
    return true
  return false

theorem passCasts_eq (g : Grammar) : g.passCasts = skipWhile g.castRound := rfl

def skipRound (moved : Bool) : Parser (Option Bool) := do
  let c ← get
  match c.kind with
  | .endOfFile => return none
  | .semicolon =>
    advance
    return none
  | .leftParen | .leftBracket =>
    passGroup
    return some true
  | .leftBrace =>
    passGroup
    let _ ← takeKind .semicolon
    return none
  | .rightParen | .rightBracket | .rightBrace => fail .unexpectedBracket
  | _ =>
    if moved && c.atStatementBreak then return none
    advance
    return some true

theorem passStatement_eq : passStatement = (do let _ ← iterate skipRound false) := rfl

/-- A member of a class, or the end of its braces. -/
def classRound (g : Grammar) (name : String) : Parser (Option (Option ClassMember)) := do
  let c ← get
  if c.check .rightBrace then return none
  if c.check .endOfFile then fail (.unterminatedClass name)
  return some (← g.classMember)

/-- An item or a skipped statement, or the end of the file. -/
def statementRound (g : Grammar) : Parser (Option (Option Item)) := do
  if (← get).check .endOfFile then return none
  if ← takeKind .semicolon then return some none
  return some (← g.statement)

theorem statementRound_file {g : Grammar} {c : Cursor} (h : c.kind = .endOfFile) :
    g.statementRound c = .ok (none, c) := by
  have hcheck : c.check .endOfFile = true := beq_iff_eq.2 h
  show (if c.check .endOfFile = true then pure none else _ : Parser (Option (Option Item))) c = _
  rw [if_pos hcheck]
  rfl

theorem statements_eq (g : Grammar) :
    g.statements = do return (← many g.statementRound).filterMap id := rfl

end Grammar

end HandlerWeave.Source
