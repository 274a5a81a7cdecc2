import HandlerWeave.Artifact.File
import HandlerWeave.Artifact.Slug

/-!
The files that hold the client together: the token for the base address, the module and the index.
-/
namespace HandlerWeave.Artifact

def lines (texts : List String) : String := String.join (texts.map (· ++ "\n"))

def addressToken : File := ⟨"baseurl.token.ts", lines [
  "import \x7b InjectionToken \x7d from '@angular/core';",
  "",
  "export const BASE_URL = new InjectionToken<string>('BASE_URL');"]⟩

def clientModule : File := ⟨"api.module.ts", lines [
  "import \x7b HttpClientModule \x7d from '@angular/common/http';",
  "import \x7b NgModule \x7d from '@angular/core';",
  "",
  "import \x7b ApiService \x7d from './api.service';",
  "",
  "@NgModule(\x7b",
  "    imports: [HttpClientModule],",
  "    providers: [",
  "        ApiService,",
  "    ]",
  "\x7d)",
  "export class ApiModule \x7b",
  "\x7d"]⟩

def exportLine (name : String) : String :=
  "export \x7b " ++ name ++ " \x7d from './" ++ slug name ++ "';\n"

/-- Re-exports of the client and of every type that a handler names. -/
def clientIndex (handlers : List Handler) (types : Types.Table) : File := ⟨"index.ts",
  lines [
    "export \x7b ApiModule \x7d from './api.module';",
    "export \x7b ApiService \x7d from './api.service';",
    "export \x7b BASE_URL \x7d from './baseurl.token';"]
  ++ String.join ((typesNamed handlers types).map exportLine)⟩

end HandlerWeave.Artifact
