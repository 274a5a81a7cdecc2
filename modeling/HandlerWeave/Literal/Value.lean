import HandlerWeave.Text.Letters
import HandlerWeave.Yaml.Value
import HandlerWeave.Decimal.Double

/-!
Closed values of literal expressions, and their form in YAML.
-/
namespace HandlerWeave

inductive Literal
  | string (value : String)
  | number (value : Float)
  | bool (value : Bool)
  | array (items : List Literal)
  /-- Every key occurs once. -/
  | object (entries : List (String × Literal))
  /-- A part that is no literal, with a short excerpt of its text. -/
  | unknown (excerpt : String)

instance : Inhabited Literal := ⟨.unknown ""⟩

namespace Literal

/-- The entries with `key` set to `value`: in its old place when it has one, else at the end. -/
def insert (key : String) (value : Literal) : List (String × Literal) → List (String × Literal)
  | [] => [(key, value)]
  | (k, v) :: rest => if k = key then (k, value) :: rest else (k, v) :: insert key value rest

def get? (value : Literal) (key : String) : Option Literal :=
  match value with
  | object entries => (entries.find? (·.1 == key)).map (·.2)
  | _ => none

/-- The value reached through nested objects. -/
def path? (value : Literal) : List String → Option Literal
  | [] => some value
  | key :: keys => (value.get? key).bind (·.path? keys)

def asString? : Literal → Option String
  | string value => some value
  | _ => none

def entries? : Literal → Option (List (String × Literal))
  | object entries => some entries
  | _ => none

namespace Tag

def isPart (c : Char) : Bool := c.isAlphanum || [':', '.', '_', '-'].contains c

/-- The tag and the text behind it, where a string starts with an exclamation mark and a tag name
that ends with it or is followed by white space, and the rest stands on one line. -/
def split? : List Char → Option (List Char × List Char)
  | '!' :: c :: cs =>
    if c.isAlpha then
      let name := c :: cs.takeWhile isPart
      let rest := cs.dropWhile isPart
      let text := rest.dropWhile Text.isBlank
      if (rest.isEmpty || rest.length ≠ text.length) && !text.contains '\n' then some (name, text)
      else none
    else none
  | _ => none

end Tag

def stringToYaml (s : String) : Yaml :=
  match Tag.split? s.toList with
  | some (tag, text) => .tagged (String.ofList tag) (.string (String.ofList text))
  | none => .string s

/-- Whole numbers below two to the 63rd are integers. -/
def numberToYaml (f : Float) : Yaml :=
  match Decimal.whole? f with
  | some n => if n.natAbs < 0x8000000000000000 then .number (.int n) else .number (.float f)
  | none => .number (.float f)

mutual

/-- An unknown part has no form of its own: lists hold a null in its place, objects leave it out. -/
def toYaml? : Literal → Option Yaml
  | .string s => some (stringToYaml s)
  | .number f => some (numberToYaml f)
  | .bool b => some (.bool b)
  | .array items => some (.sequence (itemsToYaml items))
  | .object entries => some (.mapping (entriesToYaml entries))
  | .unknown _ => none

def itemsToYaml : List Literal → List Yaml
  | [] => []
  | item :: items => (toYaml? item).getD .null :: itemsToYaml items

def entriesToYaml : List (String × Literal) → List (Yaml × Yaml)
  | [] => []
  | (key, value) :: entries =>
    match toYaml? value with
    | some y => (.string key, y) :: entriesToYaml entries
    | none => entriesToYaml entries

end

end Literal

end HandlerWeave
