import HandlerWeave.Descriptor
import HandlerWeave.FileTree
import HandlerWeave.Json.Record

/-!
The configuration of a project, and the compiler configuration that it names. What is asked of a
configuration is checked in a fixed order: that it sets an output, that the descriptor is there,
that it names a compiler configuration, that this is there.
-/
namespace HandlerWeave

inductive Config.Part
  | configuration | descriptor | compilerConfiguration
deriving DecidableEq, Repr

inductive ConfigError
  | notFound (part : Config.Part) (path : String)
  | compilerNotSet
  | outputNotSet
  | unreadable (path : String) (cause : FileError)
  /-- The file's text is not what is wanted there. -/
  | invalid (path source : String) (failure : Json.Failure)
deriving DecidableEq, Repr

def ConfigError.message : ConfigError → String
  | notFound _ path => "No \"" ++ path ++ "\" file found!"
  | compilerNotSet => "No compiler configuration found: \"tsconfig\" is not configured"
  | outputNotSet => "No output configured!"
  | unreadable path cause => "failed to read " ++ path ++ ": " ++ cause.message
  | invalid path source failure =>
    let place := Json.pathText failure.path
    let prologue := if place = "." then "" else "at JSON path " ++ place ++ " → "
    "invalid " ++ path ++ ": " ++ prologue ++ failure.message source

namespace Config

/-- What a configuration file sets. -/
structure Settings where
  template : Option String := none
  tsconfig : Option String := none
  output : Option String := none
deriving DecidableEq, Repr

open Json.Reader in
def Settings.reader : Json.Reader Settings :=
  record "RawConfig" [
    ⟨"template", fun s => return { s with template := ← nullOr text }⟩,
    ⟨"tsconfig", fun s => return { s with tsconfig := ← nullOr text }⟩,
    ⟨"output", fun s => return { s with output := ← nullOr text }⟩] {}

def fileName : String := "samgen.json"

def usualTemplate : String := "template.yaml"

/-- Where the descriptor is looked for when no compiler configuration is named. -/
def unsetTemplate : String := "tsconfig.yaml"

/-- A setting that is there and not empty. -/
def present (setting : Option String) : Option String := setting.filter (!·.isEmpty)

end Config

/-- The places a run works with. -/
structure Config where
  root : String
  template : String
  tsconfig : String
  output : String
deriving DecidableEq, Repr

namespace Config

/-- Reads the file at `path` and what `r` finds in it. -/
def readJson (tree : FileTree) (path : String) (r : Json.Reader α) : Except ConfigError α :=
  match tree.read path with
  | .error cause => .error (.unreadable path cause)
  | .ok source =>
    match r.run source with
    | .error failure => .error (.invalid path source failure)
    | .ok a => .ok a

/-- The place of a part that has to be there. -/
def locate (tree : FileTree) (root : String) (part : Part) (name : String) :
    Except ConfigError String :=
  let path := Path.join root name
  if tree.isFile path then .ok path else .error (.notFound part name)

def resolve (tree : FileTree) (root : String) (s : Settings) : Except ConfigError Config := do
  let tsconfig := present s.tsconfig
  let template :=
    if tsconfig.isNone then unsetTemplate else (present s.template).getD usualTemplate
  match present s.output with
  | none => throw .outputNotSet
  | some output =>
    let templatePath ← locate tree root .descriptor template
    match tsconfig with
    | none => throw .compilerNotSet
    | some tsconfig =>
      let tsconfigPath ← locate tree root .compilerConfiguration tsconfig
      return ⟨root, templatePath, tsconfigPath, Path.join root output⟩

def load (tree : FileTree) (root : String) : Except ConfigError Config := do
  let path ← locate tree root .configuration fileName
  resolve tree root (← readJson tree path Settings.reader)

end Config

namespace CompilerOptions

/-- How deep the value of an option may nest inside the two records around it. -/
def depthLimit : Nat := Json.Reader.depthLimit - 2

open Json.Reader in
def reader : Json.Reader CompilerOptions :=
  let option := nullOr (valueWithin depthLimit)
  record "CompilerOptions" [
    ⟨"target", fun o => return { o with target := ← option }⟩,
    ⟨"sourceMap", fun o => return { o with sourceMap := ← option }⟩] {}

open Json.Reader in
/-- The options in a whole compiler configuration. -/
def fileReader : Json.Reader CompilerOptions := do
  let found ← record "CompilerConfig" [⟨"compilerOptions", fun _ => nullOr reader⟩] none
  return found.getD {}

def load (tree : FileTree) (path : String) : Except ConfigError CompilerOptions :=
  Config.readJson tree path fileReader

end CompilerOptions

end HandlerWeave
