import HandlerWeave.Artifact.Index
import HandlerWeave.Text.Quoted

/-!
The client service: one method for each handler with a route.
-/
namespace HandlerWeave.Artifact

namespace Service

/-- A placeholder behind its opening brace: its key, and what follows its closing brace. -/
def placeholder? (cs : List Char) : Option (List Char × List Char) :=
  let key := cs.takeWhile Text.isWordChar
  match key, cs.drop key.length with
  | _ :: _, '\x7d' :: rest => some (key, rest)
  | _, _ => none

/-- Replaces the placeholders of a path. The first `skip` characters belong to one that is replaced
already. -/
def fillPlaceholders (value : String → String) : Nat → List Char → List Char
  | _, [] => []
  | skip + 1, _ :: cs => fillPlaceholders value skip cs
  | 0, c :: cs =>
    match (if c = '\x7b' then placeholder? cs else none) with
    | some (key, _) =>
      (value (String.ofList key)).toList ++ fillPlaceholders value (key.length + 1) cs
    | none => c :: fillPlaceholders value 0 cs

/-- The parameter that fills a placeholder: the first path parameter with that key. -/
def placeholderName (h : Handler) (key : String) : String :=
  (((h.parametersIn .path).find? (·.key == key)).map (·.name)).getD key

def url (h : Handler) (path : String) : String :=
  String.ofList (fillPlaceholders
    (fun key => "$\x7bencodeURIComponent(" ++ placeholderName h key ++ ")\x7d") 0 path.toList)

def hasPayload (method : String) : Bool := method == "post" || method == "put"

def queryEntry (p : BoundParam) : String :=
  if p.key = p.name then p.name else Text.memberName p.key ++ ": " ++ p.name

def method (h : Handler) (httpMethod path : String) : String :=
  let parameters := h.parameters.map fun p => p.name ++ ": " ++ p.type
  let query := (h.parametersIn .query).map queryEntry
  let arguments :=
    if hasPayload httpMethod then
      "url, " ++ ((h.bodyParameter?.map (·.name)).getD "null") ++ ", options"
    else "url, options"
  lines (
    ["    public " ++ methodName h.name ++ "(" ++ String.intercalate ", " parameters
        ++ ") \x7b",
      "        const url = `$\x7bthis.baseUrl\x7d" ++ url h path ++ "`;",
      "        const options = \x7b headers: \x7b\x7d as any, params: null as any \x7d;",
      "        options.headers['Accept'] = 'application/json';"]
    ++ (if hasPayload httpMethod then
        ["        options.headers['Content-Type'] = 'application/json';"] else [])
    ++ (if query.isEmpty then []
        else ["        options.params = \x7b " ++ String.intercalate ", " query ++ " \x7d;"])
    ++ ["        return this.http." ++ httpMethod ++ "<" ++ h.returnType ++ ">(" ++ arguments
        ++ ");",
      "    \x7d",
      ""])

def header : List String := [
  "import \x7b BASE_URL \x7d from './baseurl.token';",
  "import \x7b HttpClient \x7d from '@angular/common/http';",
  "import \x7b Injectable, Inject, Optional \x7d from '@angular/core';"]

def classOpening : List String := [
  "",
  "@Injectable()",
  "export class ApiService \x7b",
  "",
  "    constructor(",
  "        @Optional() @Inject(BASE_URL) private readonly baseUrl: string,",
  "        private readonly http: HttpClient,",
  "    ) \x7b",
  "        this.baseUrl = baseUrl || '';",
  "    \x7d",
  ""]

end Service

def clientService (handlers : List Handler) (types : Types.Table) : File :=
  let methods := handlers.filterMap fun h =>
    h.route?.map fun (method, path) => Service.method h (Text.lowercase method) path
  ⟨"api.service.ts",
    lines Service.header ++ String.join ((typesNamed handlers types).map importOf)
      ++ lines Service.classOpening ++ String.join methods ++ "\x7d\n"⟩

end HandlerWeave.Artifact
