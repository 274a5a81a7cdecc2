import HandlerWeave.Types.Rendering

/-!
Following type names to their declarations. A name is looked for in the module that mentions it and
then along its relative imports; once found, its declaration is written into the table, and the
names it mentions are followed in turn.
-/
namespace HandlerWeave.Types

open Source

/-- Why no declaration was found. -/
inductive Missing
  | importCycle
  | noWholeImport (name : String)
  | renamed (imported : String)
  | noImport
  | package (source : String)
deriving DecidableEq, Repr

def Missing.reason : Missing → String
  | importCycle => "import cycle"
  | noWholeImport name => "no namespace import `" ++ name ++ "`"
  | renamed imported => "imported under alias from `" ++ imported ++ "`"
  | noImport => "no matching import"
  | package source => "package import `" ++ source ++ "`"

inductive SearchResult
  | found (module : Module)
  | missing (why : Missing)

/-- Types of the language's own library, which nobody declares. -/
def ambientNames : List String :=
  ["Array", "ReadonlyArray", "Promise", "Record", "Partial", "Required", "Readonly", "Pick", "Omit",
    "Exclude", "Extract", "NonNullable", "ReturnType", "Parameters", "Awaited", "Date", "Map",
    "Set", "ReadonlyMap", "ReadonlySet", "Error", "RegExp", "Uint8Array", "ArrayBuffer", "Blob",
    "File", "Object", "String", "Number", "Boolean", "Function", "Symbol", "BigInt"]

/-- Where the search for a name goes on from a module that does not declare it. A qualifier is used
up by the first step. -/
def nextImport (m : Module) (qualifier : Option String) (name : String) : Except Missing Import :=
  let found : Except Missing Import := match qualifier with
    | some qualifier =>
      match m.importAs? qualifier with
      | some i => .ok i
      | none => .error (.noWholeImport qualifier)
    | none =>
      match m.importNaming? name with
      | some (i, s) => if s.imported = s.bound then .ok i else .error (.renamed s.imported)
      | none => .error .noImport
  match found with
  | .ok i => if i.isRelative then .ok i else .error (.package i.source)
  | .error why => .error why

/-- Looks for the module that declares `name`, starting from `m` and entering no module twice.
`steps` bounds the modules entered. -/
def locate (name : String) :
    Nat → List String → Option String → Module → AnalysisM SearchResult
  | 0, _, _, _ => return .missing .importCycle
  | steps + 1, visited, qualifier, m => do
    if visited.contains m.path then return .missing .importCycle
    if qualifier.isNone && (m.declaration? name).isSome then return .found m
    match nextImport m qualifier name with
    | .error why => return .missing why
    | .ok i =>
      let next ← Analysis.openModule (importedFile (← read) m.directory i.source)
      locate name steps (m.path :: visited) none next

/-- More than the declarations that a node can hold. -/
def nodeBound : Node → Nat
  | .file contents => contents.size + 1
  | _ => 1

/-- The sum of the sizes of some values. -/
def total {α : Type} (size : α → Nat) : List α → Nat
  | [] => 0
  | x :: xs => size x + total size xs

/-- No chain of imports or declarations that starts in `m` is longer: there are no more modules than
files and loaded modules, and no more declarations than characters in the files and declarations
loaded. -/
def chainBound (m : Module) : AnalysisM Nat := do
  let files := total (fun entry => nodeBound entry.2) (← read).entries
  let loaded := total (fun m => m.declarations.length + 1) (m :: (← get).modules)
  return files + loaded + 1

/-- The module that declares a name mentioned in `m`. -/
def search (name : QualifiedName) (m : Module) : AnalysisM SearchResult := do
  locate name.name (← chainBound m) [] name.qualifier m

/-- Sees to it that the table has an entry for a name mentioned in `m`. `depth` bounds the chain of
declarations that lead from one to the next. -/
def defineType : Nat → QualifiedName → Module → AnalysisM Unit
  | 0, _, _ => return
  | depth + 1, name, m => do
    if !(← get).types.wanted name.name then return
    Analysis.changeTypes (·.start name.name)
    match ← search name m with
    | .found origin =>
      match origin.declaration? name.name with
      | none => return
      | some d =>
        let (text, references) ← (Rendering.declaration (defineType depth) origin d).run []
        Analysis.changeTypes (·.settle name.name text references origin.path)
    | .missing why =>
      let first := (← get).types.neverFailed name.name
      Analysis.changeTypes (·.leaveOut name.name)
      if first && !ambientNames.contains name.name then
        Analysis.report (.unresolvedType m.path name.name why.reason)

/-- Sees to it that the table has an entry for a name mentioned in `m`, and for every name that its
declaration leads to. -/
def define (name : QualifiedName) (m : Module) : AnalysisM Unit := do
  defineType (← chainBound m) name m

/-- The text of a type written in `m` where the names in `scope` are type parameters, and the names
that this text mentions. -/
def textAndNames (m : Module) (scope : List String) (type : Source.TypeNode) :
    AnalysisM (String × List String) :=
  (Rendering.type define m scope type).run []

end HandlerWeave.Types
