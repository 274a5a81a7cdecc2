import HandlerWeave.Artifact.Service
import HandlerWeave.Artifact.TypeFiles
import HandlerWeave.Config
import HandlerWeave.Discovery
import HandlerWeave.Handler.Find
import HandlerWeave.Yaml.Read
import HandlerWeave.Yaml.Writer

/-!
One run over a project: its configuration is loaded, its sources are found and analysed, and all
artifacts are rendered before anything is written. So a run that fails earlier leaves every file as
it is.
-/
namespace HandlerWeave

inductive RunError
  | config (cause : ConfigError)
  | source (cause : ModuleError)
  /-- The descriptor at `path` is no document. -/
  | descriptor (path : String) (cause : Yaml.Fault)
  | shape (path : String) (cause : Descriptor.ShapeError)
  | discovery (cause : DiscoveryError)
  | file (path : String) (cause : FileError)
deriving DecidableEq, Repr

namespace RunError

def message : RunError → String
  | config cause => cause.message
  | source cause => cause.message
  | descriptor path cause => "deployment descriptor " ++ path ++ ": " ++ cause.message
  | shape path cause => "deployment descriptor " ++ path ++ ": " ++ cause.message
  | discovery cause => cause.message
  | file path cause => "i/o error on " ++ path ++ ": " ++ cause.message

/-- The message of what lies under the error, if something does. -/
def reason? : RunError → Option String
  | config (.unreadable _ cause) => some cause.message
  | source (.unreadable _ cause) => some cause.message
  | descriptor _ cause => some cause.message
  | discovery cause => some cause.reason
  | file _ cause => some cause.message
  | _ => none

end RunError

/-- What a run would write. -/
structure Products where
  descriptor : String
  files : List Artifact.File

structure Report where
  template : String
  output : String
  sources : Nat
  /-- Names of the handlers, with method and path of those that have a route. -/
  handlers : List (String × Option (String × String))
  files : List String
  diagnostics : List Diagnostic
  written : Bool

/-- Steps of a run. A failure leaves the files as they were changed before it. -/
abbrev RunM := ExceptT RunError (StateM FileTree)

namespace Project

/-- Everything that is generated from an analysis, for a descriptor at `path`. -/
def render (a : Analysis) (path : String) (document : Yaml) (root : String)
    (defaults : BuildFallback) : Except RunError Products :=
  match Descriptor.merge a.handlers root defaults document with
  | (.error cause, _) => .error (.shape path cause)
  | (.ok (), merged) =>
    .ok {
      descriptor := Yaml.write merged
      files := Artifact.typeFiles a.types ++ [Artifact.clientService a.handlers a.types,
        Artifact.addressToken, Artifact.clientIndex a.handlers a.types, Artifact.clientModule] }

def loadDescriptor (tree : FileTree) (path : String) : Except RunError Yaml :=
  match tree.read path with
  | .error cause => .error (.config (.unreadable path cause))
  | .ok text => (Descriptor.ofText text).mapError (.descriptor path)

def analyze (tree : FileTree) (paths : List String) : Except RunError Analysis :=
  match Analysis.addFiles paths tree {} with
  | (.ok (), a) => .ok a
  | (.error cause, _) => .error (.source cause)

/-- Changes the files, with what fails at `path` reported of it. -/
def change (path : String) (f : FileTree → FileTree.Changed) : RunM Unit := fun tree =>
  match f tree with
  | .ok tree => (.ok (), tree)
  | .error cause => (.error (.file path cause), tree)

def makeOutput (output : String) : RunM Unit := fun tree =>
  match FileTree.makeAll output tree with
  | (.ok (), tree) => (.ok (), tree)
  | (.error cause, tree) => (.error (.file output cause), tree)

def listOutput (tree : FileTree) (output : String) : Except RunError (List String) :=
  (tree.list output).mapError (.file output)

/-- Whether a name in the output is that of a file an earlier run has generated: any `.ts` file. -/
def isStale (tree : FileTree) (output name : String) : Bool :=
  tree.isFile (Path.join output name) && Path.hasExtension name "ts"

/-- Removes a generated file. Whether it is one shows only now, as it may be a link to a file that
has been removed. -/
def purgeName (output name : String) : RunM Unit := do
  if isStale (← get) output name then
    change (Path.join output name) (·.remove (Path.join output name))

def purge (output : String) : RunM Unit := do
  for name in ← liftM (listOutput (← get) output) do
    purgeName output name

def writeFile (path text : String) : RunM Unit := change path (·.write path text)

/-- Replaces the generated files in the output. -/
def replaceOutputs (output : String) (files : List Artifact.File) : RunM Unit := do
  makeOutput output
  purge output
  for f in files do
    writeFile (Path.join output f.name) f.contents

/-- What a run has found before it writes. -/
structure Plan where
  config : Config
  output : String
  sources : List String
  analysis : Analysis
  artifacts : Products

/-- The output without links in its path, if it is there already. -/
def outputPlace (tree : FileTree) (path : String) : String :=
  match tree.canonicalize path with
  | .ok place => place
  | .error _ => path

def plan (tree : FileTree) (directory : String) : Except RunError Plan := do
  let root ← (tree.canonicalize directory).mapError fun cause =>
    .config (.unreadable directory cause)
  let config ← (Config.load tree root).mapError .config
  let options ← (CompilerOptions.load tree config.tsconfig).mapError .config
  let output := outputPlace tree config.output
  let document ← loadDescriptor tree config.template
  let sources ← (Discovery.sources tree root output).mapError .discovery
  let analysis ← analyze tree sources
  let artifacts ← render analysis config.template document root (.ofOptions options)
  return { config, output, sources, analysis, artifacts }

def Plan.report (p : Plan) (written : Bool) : Report :=
  { template := p.config.template
    output := p.output
    sources := p.sources.length
    handlers := p.analysis.handlers.map fun h => (h.name, h.route?)
    files := p.artifacts.files.map (·.name)
    diagnostics := p.analysis.diagnostics
    written }

def Plan.execute (p : Plan) : RunM Unit := do
  replaceOutputs p.output p.artifacts.files
  writeFile p.config.template p.artifacts.descriptor

/-- Runs over the project in `directory`. A dry run writes nothing. -/
def run (directory : String) (dry : Bool) : RunM Report := do
  let p ← liftM (plan (← get) directory)
  unless dry do p.execute
  return p.report !dry

end Project

end HandlerWeave
