import HandlerWeave.Artifact.Slug
import HandlerWeave.Handler
import HandlerWeave.Json
import HandlerWeave.Path
import HandlerWeave.Text.Letters
import HandlerWeave.Yaml.Read

/-!
The deployment descriptor. A merge replaces its function entries by one entry for each handler and
carries everything else through.
-/
namespace HandlerWeave

/-- Options that an entry takes when its metadata does not set them. -/
structure BuildFallback where
  target : Yaml := .string "es2020"
  sourceMap : Yaml := .bool false

instance : Inhabited BuildFallback := ⟨{}⟩

mutual

def Json.toYaml : Json → Yaml
  | .null => .null
  | .bool b => .bool b
  | .number (.int n) => .number (.int n)
  | .number (.float f) => .number (.float f)
  | .string s => .string s
  | .array items => .sequence (Json.itemsToYaml items)
  | .object entries => .mapping (Json.entriesToYaml entries)

def Json.itemsToYaml : List Json → List Yaml
  | [] => []
  | item :: items => item.toYaml :: Json.itemsToYaml items

def Json.entriesToYaml : List (String × Json) → List (Yaml × Yaml)
  | [] => []
  | (key, value) :: entries => (.string key, value.toYaml) :: Json.entriesToYaml entries

end

/-- The options of the compiler that builds depend on, as they are set. -/
structure CompilerOptions where
  target : Option Json := none
  sourceMap : Option Json := none

def BuildFallback.ofOptions (options : CompilerOptions) : BuildFallback :=
  let fallback : BuildFallback := {}
  { target := (options.target.map Json.toYaml).getD fallback.target
    sourceMap := (options.sourceMap.map Json.toYaml).getD fallback.sourceMap }

namespace Descriptor

/-- The document that a text holds; a blank one holds null. -/
def ofText (text : String) : Except Yaml.Fault Yaml :=
  if (Text.trim text).isEmpty then .ok .null else Yaml.read text

abbrev Entries := List (Yaml × Yaml)

def functionKind : String := "AWS::Serverless::Function"

def bundler : String := "esbuild"

def isSubstantial : Yaml → Bool
  | .null => false
  | .bool b => b
  | .number (.int n) => n != 0
  | .number (.float f) => f != 0.0 && !f.isNaN
  | .string s => !s.isEmpty
  | .sequence _ | .mapping _ | .tagged _ _ => true

/-- The mapping under `key`, or `fallback` where no mapping is there, and the entries with the key
kept in its place. -/
def take (entries : Entries) (key : String) (fallback : Entries) : Entries × Entries :=
  let inner := match Yaml.find? key entries with
    | some (.mapping inner) => inner
    | _ => fallback
  (inner, Yaml.insert key .null entries)

/-- Sets a key whose value is missing or falsy. -/
def fill (entries : Entries) (key : String) (value : Yaml) : Entries :=
  if (Yaml.find? key entries).any isSubstantial then entries else Yaml.insert key value entries

/-- The entry of a handler: its metadata, with type, build and entry point stamped on it. -/
def entryOf (root : String) (defaults : BuildFallback) (h : Handler) : Entries :=
  let written : Entries := match h.metadata.toYaml? with
    | some (.mapping entries) => entries
    | _ => []
  let relative := Path.relativeTo root h.sourcePath
  let entry := Yaml.insert "Type" (.string functionKind) written
  let (metadata, entry) := take entry "Metadata" []
  let (properties, entry) := take entry "Properties" [(.string "Events", .mapping [])]
  let (build, metadata) := take metadata "BuildProperties" []
  let metadata := Yaml.insert "BuildMethod" (.string bundler) metadata
  let build := Yaml.insert "EntryPoints" (.sequence [.string relative]) build
  let properties :=
    Yaml.insert "Handler" (.string (Artifact.entryPoint relative h.exported)) properties
  let build := fill build "Minify" (.bool false)
  let build := fill build "Target" defaults.target
  let build := fill build "Sourcemap" defaults.sourceMap
  let metadata := Yaml.insert "BuildProperties" (.mapping build) metadata
  let entry := Yaml.insert "Metadata" (.mapping metadata) entry
  Yaml.insert "Properties" (.mapping properties) entry

def isFunctionResource (entry : Yaml) : Bool :=
  ((entry.member? "Type").bind Yaml.asString?) == some functionKind

inductive ShapeError
  | topLevel
  | resources
deriving DecidableEq, Repr

def ShapeError.message : ShapeError → String
  | topLevel => "top level is not a mapping"
  | resources => "`Resources` is not a mapping"

/-- The resources of a document. -/
def resources? (document : Yaml) : Option Entries :=
  (document.member? "Resources").bind Yaml.asMapping?

/-- Resources that a document's slot for them can stand for. -/
def resourcesOf? : Yaml → Option Entries
  | .mapping entries => some entries
  | value => if isSubstantial value then none else some []

def mergeResources (handlers : List Handler) (root : String) (defaults : BuildFallback)
    (resources : Entries) : Entries :=
  handlers.foldl
    (fun entries h => Yaml.insert h.name (.mapping (entryOf root defaults h)) entries)
    (resources.filter fun (_, entry) => !isFunctionResource entry)

/-- Merges the handlers into a document. The second part is the document afterwards, also when the
first is a failure. -/
def merge (handlers : List Handler) (root : String) (defaults : BuildFallback) (document : Yaml) :
    Except ShapeError Unit × Yaml :=
  match (if document.untagged matches .null then .mapping [] else document) with
  | .mapping entries =>
    let slot := (Yaml.find? "Resources" entries).getD .null
    match resourcesOf? slot with
    | none => (.error .resources, .mapping (Yaml.insert "Resources" .null entries))
    | some resources =>
      let merged := mergeResources handlers root defaults resources
      (.ok (), .mapping (Yaml.insert "Resources" (.mapping merged) entries))
  | document => (.error .topLevel, document)

end Descriptor

end HandlerWeave
