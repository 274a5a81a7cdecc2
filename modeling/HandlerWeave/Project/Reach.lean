import HandlerWeave.Project

/-!
Where a run looks besides the directories it searches: at what the configuration names, and at what
the modules import. Both may lie outside the project.
-/
namespace HandlerWeave.Project

def settings (tree : FileTree) (root : String) : Config.Settings :=
  match Config.readJson tree (Path.join root Config.fileName) Config.Settings.reader with
  | .ok s => s
  | .error _ => {}

/-- The configuration file, and the paths it can lead to. -/
def configuredPaths (tree : FileTree) (root : String) : List String :=
  let s := settings tree root
  let named := [s.template, s.tsconfig, s.output].filterMap id
  (Config.fileName :: Config.usualTemplate :: Config.unsetTemplate :: named).map (Path.join root)

/-- The modules that an analysis gets to, also when it fails. -/
def modulesReached (tree : FileTree) (root : String) : List Module :=
  let output := Path.join root ((settings tree root).output.getD "")
  match Discovery.sources tree root (outputPlace tree output) with
  | .error _ => []
  | .ok paths => (Analysis.addFiles paths tree {}).2.modules

def importedPaths (m : Module) : List String :=
  (m.imports.filter Import.isRelative).flatMap fun i => importCandidates m.directory i.source

/-- Every path that a run over the project at `root` may look at, so far as the tree shows. -/
def reach (tree : FileTree) (root : String) : List String :=
  configuredPaths tree root ++ (modulesReached tree root).flatMap importedPaths

end HandlerWeave.Project
