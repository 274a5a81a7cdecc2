import HandlerWeave.FileTree

/-!
The steps that make one file tree into another.
-/
namespace HandlerWeave.FileTree

inductive Step
  | remove (place : Place)
  | makeDirectory (place : Place)
  | writeFile (place : Place) (contents : ByteArray)

/-- A file that only changes its contents stays where it is; anything else that was at a place has
to go first. -/
def removal? (after : FileTree) : Place × Node → Option Step
  | (_, .directory) => none
  | (place, .file _) =>
    match after.node? place with
    | some (.file _) => none
    | _ => some (.remove place)
  | (place, .link target) =>
    if after.node? place = some (.link target) then none else some (.remove place)

/-- How something new or different comes to its place. Links are never made. -/
def addition? (before : FileTree) : Place × Node → Option Step
  | (place, node) =>
    if before.node? place = some node then none
    else match node with
      | .directory => some (.makeDirectory place)
      | .file contents => some (.writeFile place contents)
      | .link _ => none

/-- Removals come first. A directory is made before what lies in it, as it stands before it in the
tree. -/
def steps (before after : FileTree) : List Step :=
  before.entries.filterMap (removal? after) ++ after.entries.filterMap (addition? before)

end HandlerWeave.FileTree
