import HandlerWeave.Literal.Evaluate
import HandlerWeave.Types.Define

/-!
Finding the handlers of a module: exported bindings that hold a member or a call of a new instance
of a class with the metadata decorator.
-/
namespace HandlerWeave

open Source

namespace Handler

def metadataDecorator : String := "LambdaFunction"

def entryName : String := "handle"

def baseEnding : String := "Handler"

def httpEventKinds : List String := ["Api", "HttpApi"]

/-- The class of which a binding holds a member of, or a call on, a new instance. -/
def newInstance? : Expr → Option String
  | .member (.construct (.name className) _) _ => some className
  | .call (.construct (.name className) _) _ => some className
  | _ => none

/-- The handler class that an exported binding makes available. -/
def class? (m : Module) (b : Binding) : Option ClassDef := do
  let c ← m.class? (← newInstance? (← b.initializer))
  let _ ← m.classDecoration? c.name metadataDecorator
  return c

def metadataOf (m : Module) (c : ClassDef) : Literal × List Diagnostic :=
  match (m.classDecoration? c.name metadataDecorator).bind (·.arguments.head?) with
  | some argument =>
    let (value, excerpts) := Literal.evaluate argument
    (value, excerpts.map (.unsupportedLiteral m.path))
  | none => (.unknown "", [.missingMetadata m.path c.name])

/-- The events of HTTP kinds, in the order declared. -/
def httpEvents (metadata : Literal) : List Literal :=
  match (metadata.path? ["Properties", "Events"]).bind Literal.entries? with
  | none => []
  | some events =>
    (events.map Prod.snd).filter fun event =>
      ((event.get? "Type").bind Literal.asString?).any httpEventKinds.contains

/-- A text among the properties of the last HTTP event. -/
def eventField? (metadata : Literal) (key : String) : Option String := do
  let event ← (httpEvents metadata).getLast?
  (← event.path? ["Properties", key]).asString?

def triggerDiagnostics (m : Module) (c : ClassDef) (metadata : Literal) : List Diagnostic :=
  let count := (httpEvents metadata).length
  if count > 1 then [.ambiguousTrigger m.path c.name count] else []

/-- Source and key of a parameter: those of its first binding decorator, else the query and its
name. -/
def bindingOf (m : Module) (c : ClassDef) (index : Nat) (p : Param) : RequestPart × String :=
  let attributes := m.parameterDecorations c.name entryName index
  let bound := attributes.findSome? fun a => (RequestPart.ofDecorator? a.name).map (·, a)
  match bound with
  | none => (.query, p.name)
  | some (source, a) =>
    match a.arguments.head? with
    | some (.string key) => (source, if key.isEmpty then p.name else key)
    | _ => (source, p.name)

def scopeOf (c : ClassDef) (method : Method) : List String :=
  (c.typeParams ++ method.typeParams).map (·.name)

/-- The type that a base class or interface of a handler takes first. -/
def resultType? (c : ClassDef) : Option TypeNode := do
  let base ← c.heritage.find? fun h =>
    Text.endsWith baseEnding h.name.name && !h.typeArgs.isEmpty
  base.typeArgs.head?

/-- What the types of the entry method's parameters and of the result mention. -/
def mentionsOf (c : ClassDef) (method : Method) : List Mention :=
  let scope := scopeOf c method
  method.params.flatMap (fun p => optionalTypeMentions scope p.type)
    ++ optionalTypeMentions scope (resultType? c)

/-- The description of a handler class, which depends on its module alone. -/
def describe (m : Module) (c : ClassDef) (method : Method) (exported : String) : Handler :=
  let scope := scopeOf c method
  let metadata := (metadataOf m c).1
  { name := c.name
    sourcePath := m.path
    exported
    metadata
    parameters := method.params.zipIdx.map fun (p, index) =>
      let (source, key) := bindingOf m c index p
      ⟨source, key, p.name, optionalTypeText scope p.type⟩
    returnType := optionalTypeText scope (resultType? c)
    httpMethod := eventField? metadata "Method"
    httpPath := eventField? metadata "Path"
    references := Mention.references (mentionsOf c method) }

end Handler

namespace Analysis

def signature (m : Module) (c : ClassDef) (method : Method) :
    Types.Rendering (List BoundParam × String) := do
  let scope := Handler.scopeOf c method
  let parameters ← method.params.zipIdx.mapM fun (p, index) => do
    let (source, key) := Handler.bindingOf m c index p
    let type ← Types.Rendering.optional Types.define m scope p.type
    return ⟨source, key, p.name, type⟩
  return (parameters, ← Types.Rendering.optional Types.define m scope (Handler.resultType? c))

/-- Reads a handler class. Without an entry method it describes no handler. -/
def readHandler (m : Module) (c : ClassDef) (exported : String) : AnalysisM (Option Handler) := do
  let (metadata, diagnostics) := Handler.metadataOf m c
  reportAll (diagnostics ++ Handler.triggerDiagnostics m c metadata)
  match c.method? Handler.entryName with
  | none =>
    report (.missingEntryPoint m.path c.name)
    return none
  | some method =>
    let ((parameters, returnType), references) ← (signature m c method).run []
    return some
      { name := c.name
        sourcePath := m.path
        exported
        metadata
        parameters
        returnType
        httpMethod := Handler.eventField? metadata "Method"
        httpPath := Handler.eventField? metadata "Path"
        references }

/-- Adds the handler that a binding makes available, with the types it names. -/
def addBinding (m : Module) (b : Binding) : AnalysisM Unit := do
  match Handler.class? m b with
  | none => return
  | some c =>
    match ← readHandler m c b.name with
    | none => return
    | some h => modify fun a => { a with handlers := a.handlers ++ [h] }

def addModule (m : Module) : AnalysisM Unit := m.bindings.forM (addBinding m)

def addFile (path : String) : AnalysisM Unit := do addModule (← openModule path)

def addFiles (paths : List String) : AnalysisM Unit := paths.forM addFile

end Analysis

end HandlerWeave
