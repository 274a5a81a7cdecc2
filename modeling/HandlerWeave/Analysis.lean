import HandlerWeave.Diagnostic
import HandlerWeave.FileTree
import HandlerWeave.Handler
import HandlerWeave.Module
import HandlerWeave.Text.Ending
import HandlerWeave.Types.Table

/-!
The state of an analysis, and the loading of modules. A module is parsed once and then known by its
path. A failure leaves the state as it was reached.
-/
namespace HandlerWeave

inductive ModuleError
  | unreadable (path : String) (cause : FileError)
  | invalid (path : String) (position : Text.Position) (cause : Source.SyntaxError)
deriving DecidableEq, Repr

def ModuleError.message : ModuleError → String
  | unreadable path cause => "failed to read source module " ++ path ++ ": " ++ cause.message
  | invalid path position cause =>
    path ++ ":" ++ toString position.line ++ ":" ++ toString position.column ++ ": "
      ++ cause.message

structure Analysis where
  modules : List Module := []
  types : Types.Table := {}
  diagnostics : List Diagnostic := []
  handlers : List Handler := []

abbrev AnalysisM := ReaderT FileTree (ExceptT ModuleError (StateM Analysis))

namespace Analysis

/-- The module known by a path with the same parts. -/
def module? (a : Analysis) (path : String) : Option Module :=
  a.modules.find? fun m => Path.components m.path == Path.components path

def report (diagnostic : Diagnostic) : AnalysisM Unit :=
  modify fun a => { a with diagnostics := a.diagnostics ++ [diagnostic] }

def reportAll (diagnostics : List Diagnostic) : AnalysisM Unit :=
  modify fun a => { a with diagnostics := a.diagnostics ++ diagnostics }

def changeTypes (f : Types.Table → Types.Table) : AnalysisM Unit :=
  modify fun a => { a with types := f a.types }

/-- The module known by `path`, or else the one that `text` holds. -/
def addSource (path text : String) : AnalysisM Module := do
  match (← get).module? path with
  | some m => return m
  | none =>
    match Source.parse text with
    | .error e => throw (.invalid path (e.position text) e)
    | .ok items =>
      let m := Module.ofItems path items
      modify fun a => { a with modules := a.modules ++ [m] }
      return m

def openModule (path : String) : AnalysisM Module := do
  let tree ← read
  match tree.canonicalize path with
  | .error e => throw (.unreadable path e)
  | .ok key =>
    match (← get).module? key with
    | some m => return m
    | none =>
      match tree.read key with
      | .error e => throw (.unreadable key e)
      | .ok text => addSource key text

end Analysis

/-- The name that a specifier stands for when none of its candidates is a file. -/
def importFallback (directory specifier : String) : String := Path.join directory specifier ++ ".ts"

/-- The files that a specifier can mean, seen from a directory. The name of a script comes first as
that of its source. -/
def importCandidates (directory specifier : String) : List String :=
  let base := Path.join directory specifier
  let renamed := ((Text.dropEnding? ".js" specifier).map fun stem =>
    Path.join directory stem ++ ".ts").toList
  renamed ++ [importFallback directory specifier, base ++ ".tsx", Path.join base "index.ts"]

/-- The file that a specifier means: the first of its candidates that is a file. -/
def importedFile (tree : FileTree) (directory specifier : String) : String :=
  ((importCandidates directory specifier).find? tree.isFile).getD
    (importFallback directory specifier)

end HandlerWeave
