import HandlerWeave.CommandLine
import HandlerWeave.FileTree.Steps
import HandlerWeave.Project.Reach
import Std.Data.HashSet

/-!
The program. It takes in what a run can look at on the disk, does what the arguments ask for there,
and brings what has changed back to the disk. Of files only sources are taken in everywhere; others
are when the project leads to them.
-/
namespace HandlerWeave.Disk

def kind? (path : String) : IO (Option IO.FS.FileType) := do
  try return some (← ((← IO.currentDir) / path).symlinkMetadata).type
  catch _ => return none

def names (path : String) : IO (List String) := do
  return (← ((← IO.currentDir) / path).readDir).toList.map (·.fileName)

/-- What stands at a place. A link counts as leading straight to its end, one that leads nowhere as
nothing. -/
def node? (place : Place) : IO (Option Node) := do
  match ← kind? place.path with
  | some .dir => return some .directory
  | some .file => return some (.file (← IO.FS.readBinFile place.path))
  | some .symlink =>
    try return some (.link (← IO.FS.realPath place.path).toString)
    catch _ => return none
  | _ => return none

/-- What has been taken in: the directories below which everything was searched, and the paths that
were followed. -/
structure Picture where
  tree : FileTree := .empty
  searched : List Place := []
  followed : Std.HashSet String := {}

abbrev PictureM := StateT Picture IO

def takeIn (place : Place) : PictureM (Option Node) := do
  let node ← node? place
  if let some n := node then
    modify fun p => { p with tree := p.tree.set place n }
  return node

/-- Takes in what a path goes through, and gives the place it leads to. -/
partial def follow (place : Place) : List String → PictureM Place
  | [] => return place
  | "." :: rest => follow place rest
  | ".." :: rest => follow place.dropLast rest
  | name :: rest => do
    match ← takeIn (place ++ [name]) with
    | some (.link target) => follow (← follow [] (FileTree.stepsOf target)) rest
    | some .directory => follow (place ++ [name]) rest
    | _ => return place ++ [name]

def isSourceName (name : String) : Bool := Text.endsWith ".ts" name || Text.endsWith ".tsx" name

/-- Takes in the sources in a directory and below. Directories that no source is taken from stay
closed; those that links lead to are searched as well. -/
partial def search (place : Place) : PictureM Unit := do
  if (← get).searched.contains place then return
  modify fun p => { p with searched := place :: p.searched }
  for name in ← names place.path do
    let inside := place ++ [name]
    match ← kind? inside.path with
    | some .dir =>
      let _ ← takeIn inside
      if !Discovery.skippedDirectories.contains name then search inside
    | some .symlink =>
      let target ← follow place [name]
      if (← kind? target.path) matches some .dir then search target
    | some .file => if isSourceName name then let _ ← takeIn inside
    | _ => pure ()

/-- Follows a path, and takes in what a directory at its end holds. -/
def followPath (path : String) : PictureM Unit := do
  if (← get).followed.contains path then return
  modify fun p => { p with followed := p.followed.insert path }
  let place ← follow [] (FileTree.stepsOf path)
  if (← kind? place.path) matches some .dir then
    for name in ← names place.path do
      if isSourceName name then let _ ← follow place [name]

/-- Follows the paths that the project leads to until there are no new ones. -/
partial def complete (root : String) : PictureM Unit := do
  let p ← get
  let fresh := (Project.reach p.tree root).filter (!p.followed.contains ·)
  unless fresh.isEmpty do
    fresh.forM followPath
    complete root

def picture (root : String) : IO FileTree := do
  let steps : PictureM Unit := do
    search (← follow [] (FileTree.stepsOf root))
    complete root
  return (← steps.run {}).2.tree

/-- The files as they are. Only a run looks at them. -/
def before (directory : String) (arguments : List String) : IO FileTree :=
  match CommandLine.request {} arguments with
  | .ok (.run _) => picture directory
  | _ => return .empty

def perform : FileTree.Step → IO Unit
  | .remove place => IO.FS.removeFile place.path
  | .makeDirectory place => IO.FS.createDir place.path
  | .writeFile place contents => IO.FS.writeBinFile place.path contents

end HandlerWeave.Disk

def main (arguments : List String) : IO UInt32 := do
  let directory := (← IO.currentDir).toString
  let before ← HandlerWeave.Disk.before directory arguments
  let (outcome, after) := HandlerWeave.CommandLine.execute directory arguments before
  (before.steps after).forM HandlerWeave.Disk.perform
  IO.print outcome.output
  IO.eprint outcome.errors
  return outcome.exitCode.toUInt32
