import HandlerWeave.Literal.Value

/-!
What is known of a handler: its place in the project, its metadata, the parameters of its entry
method and where a request carries them, and its route.
-/
namespace HandlerWeave

inductive RequestPart
  | body | query | path
deriving DecidableEq, Repr

def RequestPart.ofDecorator? : String → Option RequestPart
  | "FromBody" => some .body
  | "FromQuery" => some .query
  | "FromPath" => some .path
  | _ => none

structure BoundParam where
  source : RequestPart
  /-- The query key or path placeholder. -/
  key : String
  name : String
  type : String
deriving DecidableEq, Repr

structure Handler where
  /-- The name of its class, and its key in the deployment descriptor. -/
  name : String
  sourcePath : String
  /-- The exported binding that holds the running handler. -/
  exported : String
  metadata : Literal
  parameters : List BoundParam
  returnType : String
  httpMethod : Option String
  httpPath : Option String
  /-- The types that its parameters and its result name, each once. -/
  references : List String

namespace Handler

/-- Method and path of its HTTP trigger, where it has both. -/
def route? (h : Handler) : Option (String × String) :=
  match h.httpMethod, h.httpPath with
  | some method, some path => if method.isEmpty || path.isEmpty then none else some (method, path)
  | _, _ => none

def parametersIn (h : Handler) (source : RequestPart) : List BoundParam :=
  h.parameters.filter (·.source == source)

def bodyParameter? (h : Handler) : Option BoundParam := (h.parametersIn .body).head?

end Handler

end HandlerWeave
