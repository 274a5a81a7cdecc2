import HandlerWeave.Path
import HandlerWeave.Source.Parse

/-!
A parsed source as the analysis sees it: its declarations, imports, exported bindings and the
decorators on classes and parameters.
-/
namespace HandlerWeave

open Source

inductive Declaration
  | classDef (decl : ClassDef)
  | interfaceDef (decl : InterfaceDef)
  | enumDef (decl : EnumDef)
  | aliasDef (decl : AliasDef)

namespace Declaration

def ofItem? : Item → Option Declaration
  | .classDef d => some (.classDef d)
  | .interfaceDef d => some (.interfaceDef d)
  | .enumDef d => some (.enumDef d)
  | .aliasDef d => some (.aliasDef d)
  | _ => none

def name : Declaration → String
  | classDef d => d.name
  | interfaceDef d => d.name
  | enumDef d => d.name
  | aliasDef d => d.name

def typeParams : Declaration → List TypeParam
  | classDef d => d.typeParams
  | interfaceDef d => d.typeParams
  | enumDef _ => []
  | aliasDef d => d.typeParams

def asClass? : Declaration → Option ClassDef
  | classDef d => some d
  | _ => none

/-- Of declarations with one name the least in this order counts. -/
def rank : Declaration → Nat
  | interfaceDef _ => 0
  | classDef _ => 1
  | enumDef _ => 2
  | aliasDef _ => 3

end Declaration

/-- What an import binds: the module as a whole, or names from it. -/
inductive ImportForm
  | whole (name : String)
  | names (specifiers : List ImportSpecifier)
deriving DecidableEq, Repr

structure Import where
  /-- The specifier as written. -/
  source : String
  form : ImportForm
deriving DecidableEq, Repr

namespace Import

/-- Imports that bind nothing or only a default are left out. -/
def ofItem? : Item → Option Import
  | .importStatement d =>
    match d.bindings with
    | .namespaceAs name => some ⟨d.source, .whole name⟩
    | .named specifiers => some ⟨d.source, .names specifiers⟩
    | .none => none
  | _ => none

/-- The specifier points into the project. -/
def isRelative (i : Import) : Bool := i.source.toList.head? == some '.'

def specifier? (i : Import) (bound : String) : Option ImportSpecifier :=
  match i.form with
  | .names specifiers => specifiers.find? (·.bound == bound)
  | .whole _ => none

end Import

inductive DecorationSite
  | ofClass (name : String)
  | parameter (className method : String) (index : Nat)
deriving DecidableEq, Repr

/-- One decorator in its place. -/
structure Decoration where
  target : DecorationSite
  name : String
  arguments : List Expr

namespace Decoration

def ofDecorators (target : DecorationSite) (decorators : List Decorator) : List Decoration :=
  decorators.map fun d => ⟨target, d.name, d.arguments⟩

def ofParams (className method : String) (params : List Param) : List Decoration :=
  params.zipIdx.flatMap fun (p, index) =>
    ofDecorators (.parameter className method index) p.decorators

/-- The decorators of a class, then those of the parameters of its members. -/
def ofClass (c : ClassDef) : List Decoration :=
  ofDecorators (.ofClass c.name) c.decorators ++ c.members.flatMap fun
    | .method m => ofParams c.name m.name m.params
    | .constructor params => ofParams c.name "constructor" params
    | .property _ | .index _ => []

end Decoration

structure Module where
  path : String
  declarations : List Declaration
  imports : List Import
  bindings : List Binding
  attributes : List Decoration

namespace Module

def ofItems (path : String) (items : List Item) : Module :=
  let declarations := items.filterMap Declaration.ofItem?
  { path
    declarations
    imports := items.filterMap Import.ofItem?
    bindings := items.flatMap fun
      | .variableStatement d => if d.exported then d.bindings else []
      | _ => []
    attributes := (declarations.filterMap Declaration.asClass?).flatMap Decoration.ofClass }

/-- The declaration of least rank with that name, the first of equals. -/
def declaration? (m : Module) (name : String) : Option Declaration :=
  (m.declarations.filter (·.name == name)).foldl (fun best d =>
    match best with
    | none => some d
    | some b => if d.rank < b.rank then some d else some b) none

def class? (m : Module) (name : String) : Option ClassDef :=
  (m.declarations.filterMap Declaration.asClass?).find? (·.name == name)

/-- The import that binds a module as a whole to that name. -/
def importAs? (m : Module) (name : String) : Option Import :=
  m.imports.find? (·.form == .whole name)

/-- The import that binds that name, with the specifier that does so. -/
def importNaming? (m : Module) (bound : String) : Option (Import × ImportSpecifier) :=
  m.imports.findSome? fun i => (i.specifier? bound).map (i, ·)

def directory (m : Module) : String := Path.directory m.path

def classDecorations (m : Module) (name : String) : List Decoration :=
  m.attributes.filter (·.target == .ofClass name)

def classDecoration? (m : Module) (className name : String) : Option Decoration :=
  (m.classDecorations className).find? (·.name == name)

def parameterDecorations (m : Module) (className method : String) (index : Nat) : List Decoration :=
  m.attributes.filter (·.target == .parameter className method index)

end Module

end HandlerWeave
