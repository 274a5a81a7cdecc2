import HandlerWeave.Source.Grammar.Expressions

/-!
The grammar of statements. Imports, declarations and variable statements become items; every other
statement is skipped.
-/
namespace HandlerWeave.Source.Grammar

open Source.Parser

/-- Skips a statement: through its semicolon or the group in braces that ends it, or up to a line
break where another one can start. -/
def passStatement : Parser Unit := do
  let _ ← iterate (fun moved => do
    let c ← get
    match c.kind with
    | .endOfFile => return none
    | .semicolon =>
      advance
      return none
    | .leftParen | .leftBracket =>
      passGroup
      return some true
    | .leftBrace =>
      passGroup
      let _ ← takeKind .semicolon
      return none
    | .rightParen | .rightBracket | .rightBrace => fail .unexpectedBracket
    | _ =>
      if moved && c.atStatementBreak then return none
      advance
      return some true) false

def importSpecifier : Parser ImportSpecifier := do
  let c ← get
  let named := c.kindAhead 1 == .word || c.kindAhead 1 == .string
  if c.seesWord "type" && named && !c.wordAt 1 "as" then
    advance
  let imported ← match (← get).kind with
    | .word => takeText
    | .string => takeString
    | _ => fail (.expected "import specifier")
  if ← takeWord "as" then return ⟨imported, ← word "local binding"⟩
  return ⟨imported, imported⟩

def importBindings : Parser ImportClause := do
  if ← takeKind .star then
    requireWord "as"
    return .namespaceAs (← word "namespace alias")
  if ← takeKind .leftBrace then
    let specifiers ← commaList .rightBrace importSpecifier
    require .rightBrace "`\x7d` after import specifiers"
    return .named specifiers
  return .none

/-- An import, its first word included. An import that is an assignment gives nothing. -/
def importStatement : Parser (Option ImportStatement) := do
  requireWord "import"
  if (← get).check .string then
    let source ← takeString
    let _ ← takeKind .semicolon
    return some ⟨source, none, .none, false⟩
  let c ← get
  let typeOnly := c.seesWord "type" &&
    (c.kindAhead 1 == .leftBrace || c.kindAhead 1 == .star ||
      (c.kindAhead 1 == .word && !c.wordAt 1 "from"))
  if typeOnly then advance
  let c ← get
  let named := c.check .word && !c.seesWord "from"
  if named && c.kindAhead 1 == .equals then
    passStatement
    return none
  let defaultName ←
    if named then
      let name ← word "import binding"
      let _ ← takeKind .comma
      pure (some name)
    else pure none
  let bindings ← importBindings
  requireWord "from"
  if !(← get).check .string then fail (.expected "module specifier")
  let source ← takeString
  let c ← get
  if c.seesAnyWord ["with", "assert"] && c.kindAhead 1 == .leftBrace then
    advance
    passGroup
  let _ ← takeKind .semicolon
  return some ⟨source, defaultName, bindings, typeOnly⟩

def heritage (g : Grammar) : Parser Heritage := do
  let name ← qualifiedName
  let typeArgs ← g.typeArgsIfAny
  -- a base that is computed by a call
  if (← get).check .leftParen then passGroup
  return ⟨name, typeArgs⟩

def heritageAfter (g : Grammar) (keyword : String) : Parser (List Heritage) := do
  if ← takeWord keyword then separated .comma g.heritage else return []

def memberWords : List String :=
  ["public", "private", "protected", "static", "readonly", "abstract", "declare", "override",
    "accessor", "async"]

def atStaticBlock (c : Cursor) : Bool := c.seesWord "static" && c.kindAhead 1 == .leftBrace

/-- Reads modifiers, and says whether `static` was among them. -/
def passMemberWords : Parser Bool :=
  iterate (fun isStatic => do
    let c ← get
    if c.seesAnyWord memberWords && !atStaticBlock c && c.nameStartsAt 1 then
      advance
      return some (isStatic || c.seesWord "static")
    return none) false

def classMemberBody (g : Grammar) (decorators : List Decorator) (isStatic : Bool)
    (kind : MethodForm) (name : String) : Parser ClassMember := do
  let optional ← takeKind .question
  let _ ← takeKind .bang
  let c ← get
  if name == "constructor" && c.check .leftParen then
    let params ← g.params
    passBody
    return .constructor params
  if c.check .leftParen || c.check .less then
    let typeParams ← g.typeParams
    let params ← g.params
    let returnType ← after .colon g.returnType
    passBody
    return .method ⟨name, kind, isStatic, typeParams, params, returnType, decorators⟩
  let type ← after .colon g.type
  if ← takeKind .equals then g.passInitializer
  let _ ← takeKind .semicolon
  return .property ⟨name, type, optional, isStatic, decorators⟩

def classMember (g : Grammar) : Parser (Option ClassMember) := do
  if ← takeKind .semicolon then return none
  let decorators ← g.decorators
  let isStatic ← passMemberWords
  if atStaticBlock (← get) then
    advance
    passGroup
    return none
  let c ← get
  let accessor := c.seesAnyWord ["get", "set"] && c.nameStartsAt 1
  if accessor then advance
  let kind : MethodForm :=
    if !accessor then .method else if c.seesWord "get" then .getter else .setter
  let _ ← takeKind .star
  if atIndexSignature (← get) then
    let signature ← g.indexSignature
    let _ ← takeKind .semicolon
    return some (.index signature)
  let name ← memberName "class member"
  return some (← g.classMemberBody decorators isStatic kind name)

/-- What a class without a name is called. -/
def namelessClass : String := "default"

def classDef (g : Grammar) (modifiers : Modifiers) (decorators : List Decorator) :
    Parser ClassDef := do
  requireWord "class"
  let c ← get
  let name ←
    if c.check .word && !c.seesAnyWord ["extends", "implements"] then takeText
    else pure namelessClass
  let typeParams ← g.typeParams
  let base ← if ← takeWord "extends" then some <$> g.heritage else pure none
  let interfaces ← g.heritageAfter "implements"
  require .leftBrace "`\x7b` to open class body"
  let members ← many do
    let c ← get
    if c.check .rightBrace then return none
    if c.check .endOfFile then fail (.unterminatedClass name)
    return some (← g.classMember)
  require .rightBrace "`\x7d` to close class body"
  return ⟨name, modifiers, decorators, typeParams, base, interfaces, members.filterMap id⟩

def interfaceDef (g : Grammar) (modifiers : Modifiers) : Parser InterfaceDef := do
  requireWord "interface"
  let name ← word "interface name"
  let typeParams ← g.typeParams
  let bases ← g.heritageAfter "extends"
  return ⟨name, modifiers, typeParams, bases, ← g.typeMembers⟩

def enumMember (g : Grammar) : Parser EnumMember := do
  let name ← match (← get).kind with
    | .word => takeText
    | .string => takeString
    | _ => fail (.expected "enum member")
  return ⟨name, ← after .equals g.expr⟩

def enumDef (g : Grammar) (modifiers : Modifiers) : Parser EnumDef := do
  let isConst ← takeWord "const"
  requireWord "enum"
  let name ← word "enum name"
  require .leftBrace "`\x7b` to open enum body"
  let members ← commaList .rightBrace g.enumMember
  require .rightBrace "`\x7d` to close enum body"
  return ⟨name, modifiers, isConst, members⟩

def aliasDef (g : Grammar) (modifiers : Modifiers) : Parser AliasDef := do
  requireWord "type"
  let name ← word "type alias name"
  let typeParams ← g.typeParams
  require .equals "`=` in type alias"
  let type ← g.type
  let _ ← takeKind .semicolon
  return ⟨name, modifiers, typeParams, type⟩

def binding (g : Grammar) : Parser Binding := do
  let name ← bindingName "binding name"
  let _ ← takeKind .bang
  let _ ← after .colon g.type
  return ⟨name, ← after .equals g.expr⟩

/-- A variable statement, its first word included. -/
def variableStatement (g : Grammar) (modifiers : Modifiers) : Parser VariableStatement := do
  advance
  let bindings ← separated .comma g.binding
  let _ ← takeKind .semicolon
  return ⟨modifiers.exported, bindings⟩

/-- An `export` that declares nothing here: a list, everything, an assignment or a global name. -/
def atReexport (c : Cursor) : Bool :=
  c.seesWord "export" &&
    ([.leftBrace, .star, .equals].contains (c.kindAhead 1) || c.wordAt 1 "as" ||
      (c.wordAt 1 "type" && c.kindAhead 2 == .leftBrace))

def modifiers : Parser Modifiers :=
  iterate (fun (m : Modifiers) => do
    let c ← get
    if c.seesWord "export" then
      if atReexport c then return none
      advance
      return some { m with exported := true }
    if m.exported && c.seesWord "default" then
      advance
      return some { m with isDefault := true }
    if c.seesWord "declare" && c.kindAhead 1 == .word then
      advance
      return some { m with declared := true }
    if c.seesWord "abstract" && c.wordAt 1 "class" then
      advance
      return some { m with isAbstract := true }
    return none) {}

def declaration (g : Grammar) (modifiers : Modifiers) (decorators : List Decorator) :
    Parser (Option Item) := do
  let c ← get
  if c.seesWord "import" && c.kindAhead 1 != .leftParen && c.kindAhead 1 != .dot then
    return (← importStatement).map .importStatement
  if c.seesWord "class" then return some (.classDef (← g.classDef modifiers decorators))
  if c.seesWord "interface" && c.kindAhead 1 == .word then
    return some (.interfaceDef (← g.interfaceDef modifiers))
  if c.seesWord "enum" || (c.seesWord "const" && c.wordAt 1 "enum") then
    return some (.enumDef (← g.enumDef modifiers))
  if c.seesWord "type" && c.kindAhead 1 == .word &&
      (c.kindAhead 2 == .equals || c.kindAhead 2 == .less) then
    return some (.aliasDef (← g.aliasDef modifiers))
  if c.seesAnyWord ["const", "let", "var"] &&
      [.word, .leftBrace, .leftBracket].contains (c.kindAhead 1) then
    return some (.variableStatement (← g.variableStatement modifiers))
  passStatement
  return none

def statement (g : Grammar) : Parser (Option Item) := do
  let first ← g.decorators
  let modifiers ← modifiers
  if atReexport (← get) then
    passStatement
    return none
  let second ← g.decorators
  g.declaration modifiers (first ++ second)

def statements (g : Grammar) : Parser (List Item) := do
  let items ← many do
    if (← get).check .endOfFile then return none
    if ← takeKind .semicolon then return some none
    return some (← g.statement)
  return items.filterMap id

end HandlerWeave.Source.Grammar

namespace HandlerWeave.Source

/-- Parses a token list, which ends with the token that ends the file. -/
def parseTokens (tokens : List Token) : Except SyntaxError (List Item) :=
  ((Grammar.withLevels (tokens.length + 1)).statements (Cursor.ofTokens tokens)).map Prod.fst

end HandlerWeave.Source
