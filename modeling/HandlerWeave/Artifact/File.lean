import HandlerWeave.Handler
import HandlerWeave.Types.Table

/-!
Generated files, and the types they have to import.
-/
namespace HandlerWeave.Artifact

structure File where
  name : String
  contents : String
deriving DecidableEq, Repr

/-- The rendered types that handlers name, each once, in the order of their first mention. -/
def typesNamed (handlers : List Handler) (types : Types.Table) : List String :=
  ((handlers.flatMap (·.references)).filter types.hasText).foldl
    (fun names name => if names.contains name then names else names ++ [name]) []

end HandlerWeave.Artifact
