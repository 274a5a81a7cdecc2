/-!
Problems found in sources that do not stop a run.
-/
namespace HandlerWeave

inductive Diagnostic
  | unsupportedLiteral (module excerpt : String)
  | unsupportedType (module excerpt : String)
  | unresolvedType (module name reason : String)
  | missingEntryPoint (module className : String)
  | missingMetadata (module className : String)
  | ambiguousTrigger (module className : String) (count : Nat)
deriving DecidableEq, Repr

def Diagnostic.message : Diagnostic → String
  | unsupportedLiteral module excerpt =>
    module ++ ": unsupported literal `" ++ excerpt ++ "`, value dropped"
  | unsupportedType module excerpt =>
    module ++ ": unsupported type `" ++ excerpt ++ "`, rendered as unknown"
  | unresolvedType module name reason =>
    module ++ ": type `" ++ name ++ "` not resolved (" ++ reason ++ "), emitted as-is"
  | missingEntryPoint module className =>
    module ++ ": class `" ++ className ++ "` has no `handle` method, skipped"
  | missingMetadata module className =>
    module ++ ": `@LambdaFunction` on `" ++ className ++ "` has no metadata argument"
  | ambiguousTrigger module className count =>
    module ++ ": `" ++ className ++ "` declares " ++ toString count
      ++ " HTTP events, using the last one"

end HandlerWeave
