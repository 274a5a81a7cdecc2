/-!
Paths as text. A path is read as a list of segments between slashes; empty segments and a `.` that
does not start a relative path mean nothing. Nothing here looks at files.
-/
namespace HandlerWeave.Path

def splitSlash : List Char → List (List Char)
  | [] => [[]]
  | c :: cs =>
    if c = '/' then [] :: splitSlash cs
    else match splitSlash cs with
      | [] => [[c]]
      | segment :: rest => (c :: segment) :: rest

/-- What stands between the slashes, empty segments included. -/
def segments (path : String) : List String := (splitSlash path.toList).map String.ofList

def isAbsolute (path : String) : Bool := path.toList.head? == some '/'

inductive Component
  | root
  | here
  | up
  | name (text : String)
deriving DecidableEq, Repr

def Component.text : Component → String
  | root => "/"
  | here => "."
  | up => ".."
  | name text => text

def Component.ofSegment (segment : String) : Component :=
  if segment = "." then here else if segment = ".." then up else name segment

def components (path : String) : List Component :=
  let meaningful (segments : List String) : List Component :=
    (segments.filter fun s => s ≠ "" ∧ s ≠ ".").map Component.ofSegment
  if isAbsolute path then .root :: meaningful (segments path)
  else match segments path with
    | "." :: rest => .here :: meaningful rest
    | all => meaningful all

/-- `path` below `directory`; an absolute path stands for itself. -/
def join (directory path : String) : String :=
  if isAbsolute path || directory.isEmpty then path
  else if directory.toList.getLast? == some '/' then directory ++ path
  else directory ++ "/" ++ path

/-- The parts of `path` behind `base`, if it lies there. -/
def below? (base path : String) : Option (List Component) :=
  let rec strip : List Component → List Component → Option (List Component)
    | [], rest => some rest
    | a :: as, b :: bs => if a = b then strip as bs else none
    | _ :: _, [] => none
  strip (components base) (components path)

def isWithin (path base : String) : Bool := (below? base path).isSome

/-- Segments in reverse order, with the meaningless ones at the end of the path gone. -/
def trimEnd (absolute : Bool) : List String → List String
  | [] => []
  | s :: rest =>
    if s = "" ∨ (s = "." ∧ (absolute ∨ rest ≠ [])) then trimEnd absolute rest else s :: rest

/-- The path without its last meaningful segment. -/
def parent? (path : String) : Option String :=
  let absolute := isAbsolute path
  match trimEnd absolute (segments path).reverse with
  | [] => none
  | _ :: rest =>
    match trimEnd absolute rest with
    | [] => some (if absolute then "/" else "")
    | kept => some (String.intercalate "/" kept.reverse)

def directory (path : String) : String := (parent? path).getD "."

/-- Whether a file name has the extension `extension`; a leading point starts none. -/
def hasExtension (name extension : String) : Bool :=
  let (last, before) := name.toList.reverse.span (· != '.')
  before.length > 1 && String.ofList last.reverse == extension

/-- The path seen from `base` where it lies below, else the whole path, parts joined by slashes. -/
def relativeTo (base path : String) : String :=
  String.intercalate "/" (((below? base path).getD (components path)).map Component.text)

end HandlerWeave.Path
