import HandlerWeave.Path

/-!
A file system as a value: what stands at each place, and the operations that read and change it.
Looking a path up follows symbolic links, up to forty of them.
-/
namespace HandlerWeave

inductive FileError
  | notFound | alreadyExists | notDirectory | isDirectory | nameTooLong | tooManyLinks | nulInPath
  | notText
deriving DecidableEq, Repr

def FileError.message : FileError → String
  | notFound => "No such file or directory (os error 2)"
  | alreadyExists => "File exists (os error 17)"
  | notDirectory => "Not a directory (os error 20)"
  | isDirectory => "Is a directory (os error 21)"
  | nameTooLong => "File name too long (os error 36)"
  | tooManyLinks => "Too many levels of symbolic links (os error 40)"
  | nulInPath => "file name contained an unexpected NUL byte"
  | notText => "stream did not contain valid UTF-8"

/-- The names from the root down to a place. -/
abbrev Place := List String

def Place.path (place : Place) : String := "/" ++ String.intercalate "/" place

inductive Node
  | file (contents : ByteArray)
  | directory
  | link (target : String)

def Node.decEq : (a b : Node) → Decidable (a = b)
  | file a, file b =>
    match ByteArray.instDecidableEq a b with
    | isTrue h => isTrue (congrArg file h)
    | isFalse h => isFalse fun e => h (Node.file.inj e)
  | directory, directory => isTrue rfl
  | link a, link b =>
    if h : a = b then isTrue (congrArg link h) else isFalse fun e => h (Node.link.inj e)
  | file _, directory | file _, link _ | directory, file _ | directory, link _ | link _, file _
  | link _, directory => isFalse nofun

instance : DecidableEq Node := Node.decEq

structure FileTree where
  entries : List (Place × Node)

namespace FileTree

def empty : FileTree := ⟨[]⟩

def node? (tree : FileTree) (place : Place) : Option Node :=
  if place = [] then some .directory else (tree.entries.find? (·.1 == place)).map (·.2)

def set (tree : FileTree) (place : Place) (node : Node) : FileTree :=
  let rec put : List (Place × Node) → List (Place × Node)
    | [] => [(place, node)]
    | (p, n) :: rest => if p = place then (p, node) :: rest else (p, n) :: put rest
  ⟨put tree.entries⟩

def erase (tree : FileTree) (place : Place) : FileTree :=
  ⟨tree.entries.filter fun (p, _) => p != place⟩

def names (tree : FileTree) (place : Place) : List String :=
  tree.entries.filterMap fun (p, _) => if p.dropLast = place then p.getLast? else none

/-- What a path leads to: something, or a free place in an existing directory. -/
inductive Target
  | present (place : Place) (node : Node)
  | absent (place : Place)

inductive Stop
  | reached (target : Target)
  /-- A link in the directory `place`, with the names that follow it. -/
  | atLink (place : Place) (target : String) (rest : List String)

def nameLimit : Nat := 255

/-- Goes from the directory `place` along `names` up to the first link that has to be followed. -/
def walkPlain (tree : FileTree) (followLast : Bool) (place : Place) :
    List String → Except FileError Stop
  | [] => .ok (.reached (.present place ((tree.node? place).getD .directory)))
  | name :: rest =>
    if name = "." then walkPlain tree followLast place rest
    else if name = ".." then walkPlain tree followLast place.dropLast rest
    else if name.utf8ByteSize > nameLimit then .error .nameTooLong
    else match tree.node? (place ++ [name]) with
      | none => if rest = [] then .ok (.reached (.absent (place ++ [name]))) else .error .notFound
      | some .directory => walkPlain tree followLast (place ++ [name]) rest
      | some (.file contents) =>
        if rest = [] then .ok (.reached (.present (place ++ [name]) (.file contents)))
        else .error .notDirectory
      | some (.link target) =>
        if rest = [] ∧ !followLast then
          .ok (.reached (.present (place ++ [name]) (.link target)))
        else .ok (.atLink place target rest)

/-- The names a path goes through. A slash at its end asks for a directory. -/
def stepsOf (path : String) : List String :=
  let names := (Path.segments path).filter (· ≠ "")
  if path.toList.getLast? = some '/' then names ++ ["."] else names

def walk (tree : FileTree) (followLast : Bool) :
    Nat → Place → List String → Except FileError Target
  | links, place, names =>
    match walkPlain tree followLast place names with
    | .error e => .error e
    | .ok (.reached target) => .ok target
    | .ok (.atLink place target rest) =>
      match links with
      | 0 => .error .tooManyLinks
      | links + 1 =>
        walk tree followLast links (if Path.isAbsolute target then [] else place)
          (stepsOf target ++ rest)

def linkLimit : Nat := 40

def pathLimit : Nat := 4095

def lookup (tree : FileTree) (followLast : Bool) (path : String) : Except FileError Target :=
  if path.toList.contains '\x00' then .error .nulInPath
  else if path.isEmpty then .error .notFound
  else if path.utf8ByteSize > pathLimit then .error .nameTooLong
  else walk tree followLast linkLimit [] (stepsOf path)

def isFile (tree : FileTree) (path : String) : Bool :=
  match tree.lookup true path with
  | .ok (.present _ (.file _)) => true
  | _ => false

def isDirectory (tree : FileTree) (path : String) : Bool :=
  match tree.lookup true path with
  | .ok (.present _ .directory) => true
  | _ => false

/-- The path of the same thing without links. -/
def canonicalize (tree : FileTree) (path : String) : Except FileError String :=
  match tree.lookup true path with
  | .ok (.present place _) => .ok place.path
  | .ok (.absent _) => .error .notFound
  | .error e => .error e

def read (tree : FileTree) (path : String) : Except FileError String :=
  match tree.lookup true path with
  | .ok (.present _ (.file contents)) =>
    match String.fromUTF8? contents with
    | some text => .ok text
    | none => .error .notText
  | .ok (.present _ _) => .error .isDirectory
  | .ok (.absent _) => .error .notFound
  | .error e => .error e

def list (tree : FileTree) (path : String) : Except FileError (List String) :=
  match tree.lookup true path with
  | .ok (.present place .directory) => .ok (tree.names place)
  | .ok (.present _ _) => .error .notDirectory
  | .ok (.absent _) => .error .notFound
  | .error e => .error e

abbrev Changed := Except FileError FileTree

def writeBytes (tree : FileTree) (path : String) (contents : ByteArray) : Changed :=
  match tree.lookup true path with
  | .ok (.present place (.file _)) => .ok (tree.set place (.file contents))
  | .ok (.present _ _) => .error .isDirectory
  | .ok (.absent place) => .ok (tree.set place (.file contents))
  | .error e => .error e

def write (tree : FileTree) (path text : String) : Changed := tree.writeBytes path text.toUTF8

/-- Removes a file, or a link and not what it leads to. -/
def remove (tree : FileTree) (path : String) : Changed :=
  match tree.lookup false path with
  | .ok (.present _ .directory) => .error .isDirectory
  | .ok (.present place _) => .ok (tree.erase place)
  | .ok (.absent _) => .error .notFound
  | .error e => .error e

/-- A path without the slashes at its end, of which one made of nothing else keeps all. -/
def dropSlashes (path : String) : String :=
  match path.toList.reverse.dropWhile (· == '/') with
  | [] => path
  | kept => String.ofList kept.reverse

def add (tree : FileTree) (path : String) (node : Node) : Changed :=
  match tree.lookup false path with
  | .ok (.present _ _) => .error .alreadyExists
  | .ok (.absent place) => .ok (tree.set place node)
  | .error e => .error e

def makeDirectory (tree : FileTree) (path : String) : Changed :=
  tree.add (dropSlashes path) .directory

/-- Steps that change a tree one after the other. A failure leaves what was done before it. -/
abbrev Action := ExceptT FileError (StateM FileTree)

def Action.change (f : FileTree → Changed) : Action Unit := fun tree =>
  match f tree with
  | .ok tree => (.ok (), tree)
  | .error e => (.error e, tree)

/-- Goes on if a directory is there in spite of the failure. -/
def Action.unlessDirectory (path : String) (e : FileError) : Action Unit := do
  if !(← get).isDirectory path then throw e

def makeDirectories : Nat → String → Action Unit
  | 0, _ => throw .notFound
  | depth + 1, path => do
    if path.isEmpty then return
    let attempt := Action.change (·.makeDirectory path)
    tryCatch attempt fun e => do
      if e ≠ .notFound then Action.unlessDirectory path e
      else
        match Path.parent? path with
        | none => throw e
        | some parent =>
          makeDirectories depth parent
          tryCatch attempt (Action.unlessDirectory path)

def makeAll (path : String) : Action Unit :=
  makeDirectories ((Path.components path).length + 1) path

end FileTree

end HandlerWeave
