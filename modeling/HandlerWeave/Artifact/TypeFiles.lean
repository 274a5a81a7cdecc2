import HandlerWeave.Artifact.File
import HandlerWeave.Artifact.Slug

/-!
One file for each rendered type.
-/
namespace HandlerWeave.Artifact

/-- A type's file: imports for the rendered types it names, a blank line, its declaration. -/
def typeFile (types : Types.Table) (d : Types.Definition) : File :=
  let imported := d.references.filter fun r => r != d.name && types.hasText r
  ⟨slug d.name ++ ".ts", String.join (imported.map importOf) ++ "\n" ++ d.text ++ "\n"⟩

/-- Of files with one name only the first is kept. -/
def firstOfName : List File → List File
  | [] => []
  | f :: rest => f :: (firstOfName rest).filter (·.name != f.name)

def typeFiles (types : Types.Table) : List File :=
  firstOfName (types.rendered.map (typeFile types))

end HandlerWeave.Artifact
