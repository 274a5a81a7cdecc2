import HandlerWeave.Text.Case
import HandlerWeave.Text.Ending

/-!
File names and method names made from type and class names.
-/
namespace HandlerWeave.Artifact

namespace Slug

/-- A hyphen in front of every capital that a small letter follows. -/
def splitHumps : List Char → List Char
  | a :: b :: cs =>
    if a.isUpper && b.isLower then '-' :: a :: b :: splitHumps cs else a :: splitHumps (b :: cs)
  | cs => cs

/-- A hyphen in front of every run of digits, `inside` being true within one. -/
def splitDigits (inside : Bool) : List Char → List Char
  | [] => []
  | c :: cs =>
    if Text.isDigit c then (if inside then [c] else ['-', c]) ++ splitDigits true cs
    else c :: splitDigits false cs

def dropHyphen : List Char → List Char
  | '-' :: cs => cs
  | cs => cs

end Slug

def slug (name : String) : String :=
  let split := Slug.splitDigits false (Slug.splitHumps name.toList)
  Text.lowercase (String.ofList (Slug.dropHyphen split))

def importOf (name : String) : String :=
  "import \x7b " ++ name ++ " \x7d from './" ++ slug name ++ "';\n"

/-- The class name without the ending `Function`, its first letter small. -/
def methodName (function : String) : String :=
  let stem := match Text.dropEnding? "Function" function with
    | some stem => if stem.isEmpty then function else stem
    | none => function
  match stem.toList with
  | [] => ""
  | c :: cs => String.ofList (Text.lowerChar c ++ cs)

/-- The entry of a handler: the source path with its `ts` replaced by the exported name. -/
def entryPoint (relative exported : String) : String :=
  match Text.dropEnding? "ts" relative with
  | some stem => stem ++ exported
  | none => relative

end HandlerWeave.Artifact
