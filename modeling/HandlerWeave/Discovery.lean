import HandlerWeave.FileTree
import HandlerWeave.Text.Ending

/-!
The source files of a project: every `.ts` file below its root, directory by directory in the order
of their names, without build directories and without the output.
-/
namespace HandlerWeave

/-- A directory that is there and cannot be listed. -/
structure DiscoveryError where
  path : String
  cause : FileError
deriving DecidableEq, Repr

/-- The message about the directory alone. -/
def DiscoveryError.reason (e : DiscoveryError) : String :=
  "attempting to read `" ++ e.path ++ "` resulted in an error: " ++ e.cause.message

def DiscoveryError.message (e : DiscoveryError) : String :=
  "failed to walk project tree: " ++ e.reason

namespace Discovery

def skippedDirectories : List String := ["dist", "node_modules", ".aws", ".aws-sam"]

/-- The order of two names, byte by byte; in valid text it is that of the code points. -/
def namesInOrder (a b : String) : Bool := a ≤ b

/-- Whether there is a directory, or a link to one, at a path inside a listed directory. -/
def opens (tree : FileTree) (directory name : String) : Bool :=
  match tree.lookup true directory with
  | .ok (.present place .directory) =>
    match tree.node? (place ++ [name]) with
    | some .directory => true
    | some (.link _) => tree.isDirectory (Path.join directory name)
    | _ => false
  | _ => false

/-- The paths below a directory whose names end in `.ts`, a directory before what is in it. -/
def below (tree : FileTree) : Nat → String → Except DiscoveryError (List String)
  | 0, _ => .ok []
  | depth + 1, directory =>
    match tree.list directory with
    | .error cause => .error ⟨directory, cause⟩
    | .ok names => do
      let found ← (names.mergeSort namesInOrder).mapM fun name => do
        let path := Path.join directory name
        let inside ← if opens tree directory name then below tree depth path else pure []
        return if Text.endsWith ".ts" name then path :: inside else inside
      return found.flatten

/-- A path without its empty segments. A `.` or `..` in it is kept. -/
def startOf (root : String) : String :=
  let names := String.intercalate "/" ((Path.segments root).filter (· ≠ ""))
  if Path.isAbsolute root then "/" ++ names else names

/-- A path with a build directory between the root and its last part. -/
def isSkipped (root path : String) : Bool :=
  ((Path.below? root path).getD (Path.components path)).dropLast.any fun
    | .name text => skippedDirectories.contains text
    | _ => false

/-- Names are at least one byte long, and every level adds a slash. -/
def depthLimit : Nat := FileTree.pathLimit

def sources (tree : FileTree) (root output : String) : Except DiscoveryError (List String) := do
  if !tree.isDirectory root then return []
  let found ← below tree depthLimit (startOf root)
  return found.filter fun path =>
    tree.isFile path && !Path.isWithin path output && !isSkipped root path

end Discovery

end HandlerWeave
