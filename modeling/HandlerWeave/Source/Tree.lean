/-!
The declarations a handler source can hold, with their types and the expressions that stand in
decorator arguments and initializers. Bodies and all other statements have no place in the tree.
-/
namespace HandlerWeave.Source

/-- A type name with the leftmost part of its qualifier. -/
structure QualifiedName where
  qualifier : Option String
  name : String
deriving DecidableEq, Repr

inductive Keyword
  | string | number | boolean | object | any | unknown | void | null | undefined | never | bigint
  | symbol | this
deriving DecidableEq, Repr

namespace Keyword

def text : Keyword → String
  | string => "string"
  | number => "number"
  | boolean => "boolean"
  | object => "object"
  | any => "any"
  | unknown => "unknown"
  | void => "void"
  | null => "null"
  | undefined => "undefined"
  | never => "never"
  | bigint => "bigint"
  | symbol => "symbol"
  | this => "this"

def all : List Keyword :=
  [string, number, boolean, object, any, unknown, void, null, undefined, never, bigint, symbol,
    this]

def ofText? (word : String) : Option Keyword := all.find? (·.text == word)

end Keyword

inductive LiteralType
  | string (value : String)
  /-- A numeral as written, its sign included. -/
  | number (text : String)
  | bool (value : Bool)
deriving DecidableEq, Repr

inductive VerbatimKind
  | function | constructor | conditional | mapped | indexedAccess | query | operator
  | templateLiteral | infer | predicate
deriving DecidableEq, Repr

def VerbatimKind.text : VerbatimKind → String
  | function => "function type"
  | constructor => "constructor type"
  | conditional => "conditional type"
  | mapped => "mapped type"
  | indexedAccess => "indexed access type"
  | query => "type query"
  | operator => "type operator"
  | templateLiteral => "template literal type"
  | infer => "infer type"
  | predicate => "type predicate"

mutual

inductive TypeNode
  | keyword (word : Keyword)
  | literal (value : LiteralType)
  | reference (name : QualifiedName) (args : List TypeNode)
  | array (element : TypeNode)
  | tuple (elements : List TypeNode)
  | union (arms : List TypeNode)
  | intersection (parts : List TypeNode)
  | parenthesized (inner : TypeNode)
  | shape (members : List TypeMember)
  | verbatim (kind : VerbatimKind) (text : String)

inductive TypeMember
  | property (name : String) (optional : Bool) (type : Option TypeNode)
  | index (keyName : String) (keyType type : TypeNode)
  /-- Methods, call and construct signatures. -/
  | method (name : String)

end

instance : Inhabited TypeNode := ⟨.keyword .any⟩

instance : Inhabited TypeMember := ⟨.method ""⟩

mutual

inductive Expr
  | object (members : List ObjectMember)
  | array (items : List Expr)
  | string (value : String)
  /-- A numeral as written. -/
  | number (text : String)
  | bool (value : Bool)
  | null
  | template (text : String) (substitutions : Bool)
  | name (text : String)
  | construct (callee : Expr) (args : List Expr)
  | call (callee : Expr) (args : List Expr)
  | member (target : Expr) (property : String)
  | negate (inner : Expr)
  /-- Everything else, as source text. -/
  | verbatim (text : String)

inductive ObjectMember
  | property (key : String) (value : Expr)
  | shorthand (name : String)
  /-- Spreads, computed keys, methods and accessors. -/
  | verbatim (text : String)

end

instance : Inhabited Expr := ⟨.null⟩

instance : Inhabited ObjectMember := ⟨.shorthand ""⟩

def Expr.describe : Expr → String
  | .object _ => "object literal"
  | .array _ => "array literal"
  | .string value => "'" ++ value ++ "'"
  | .number text => text
  | .bool value => if value then "true" else "false"
  | .null => "null"
  | .template text _ => "`" ++ text ++ "`"
  | .name text => text
  | .construct callee _ => "new " ++ callee.describe ++ "(..)"
  | .call callee _ => callee.describe ++ "(..)"
  | .member target property => target.describe ++ "." ++ property
  | .negate inner => "-" ++ inner.describe
  | .verbatim text => text

structure Decorator where
  path : List String
  arguments : List Expr
deriving Inhabited

def Decorator.name (d : Decorator) : String := String.intercalate "." d.path

structure Modifiers where
  exported : Bool := false
  isDefault : Bool := false
  declared : Bool := false
  isAbstract : Bool := false
deriving DecidableEq, Repr, Inhabited

structure TypeParam where
  name : String
  constraint : Option TypeNode
  fallback : Option TypeNode
deriving Inhabited

structure Heritage where
  name : QualifiedName
  typeArgs : List TypeNode

structure Param where
  name : String
  type : Option TypeNode
  optional : Bool
  rest : Bool
  /-- The parameter is also a property of the class. -/
  property : Bool
  decorators : List Decorator

structure IndexSignature where
  keyName : String
  keyType : TypeNode
  type : TypeNode

structure Property where
  name : String
  type : Option TypeNode
  optional : Bool
  isStatic : Bool
  decorators : List Decorator

inductive MethodForm
  | method | getter | setter
deriving DecidableEq, Repr

structure Method where
  name : String
  kind : MethodForm
  isStatic : Bool
  typeParams : List TypeParam
  params : List Param
  returnType : Option TypeNode
  decorators : List Decorator

inductive ClassMember
  | property (decl : Property)
  | method (decl : Method)
  | constructor (params : List Param)
  | index (signature : IndexSignature)

structure ClassDef where
  name : String
  modifiers : Modifiers
  decorators : List Decorator
  typeParams : List TypeParam
  base : Option Heritage
  interfaces : List Heritage
  members : List ClassMember

namespace ClassDef

/-- The first instance method of that name that is no accessor. -/
def method? (c : ClassDef) (name : String) : Option Method :=
  c.members.findSome? fun
    | .method m => if m.name = name ∧ !m.isStatic ∧ m.kind = .method then some m else none
    | _ => none

/-- The base class, then the interfaces, in the order written. -/
def heritage (c : ClassDef) : List Heritage := c.base.toList ++ c.interfaces

end ClassDef

structure InterfaceDef where
  name : String
  modifiers : Modifiers
  typeParams : List TypeParam
  bases : List Heritage
  members : List TypeMember

structure EnumMember where
  name : String
  initializer : Option Expr

structure EnumDef where
  name : String
  modifiers : Modifiers
  isConst : Bool
  members : List EnumMember

structure AliasDef where
  name : String
  modifiers : Modifiers
  typeParams : List TypeParam
  type : TypeNode

structure Binding where
  name : String
  initializer : Option Expr

structure VariableStatement where
  exported : Bool
  bindings : List Binding

structure ImportSpecifier where
  /-- The name in the module imported from. -/
  imported : String
  /-- The name in the importing module. -/
  bound : String
deriving DecidableEq, Repr

inductive ImportClause
  | none
  | namespaceAs (name : String)
  | named (specifiers : List ImportSpecifier)
deriving DecidableEq, Repr

structure ImportStatement where
  source : String
  defaultName : Option String
  bindings : ImportClause
  typeOnly : Bool
deriving DecidableEq, Repr

inductive Item
  | importStatement (decl : ImportStatement)
  | classDef (decl : ClassDef)
  | interfaceDef (decl : InterfaceDef)
  | enumDef (decl : EnumDef)
  | aliasDef (decl : AliasDef)
  | variableStatement (decl : VariableStatement)

end HandlerWeave.Source
