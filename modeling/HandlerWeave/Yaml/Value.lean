/-!
YAML values. Mappings keep the order of their entries, and any value can be a key. A tag is a local
one, written with an exclamation mark.
-/
namespace HandlerWeave

inductive Yaml.Number
  | int (value : Int)
  | float (value : Float)

inductive Yaml
  | null
  | bool (value : Bool)
  | number (value : Yaml.Number)
  | string (value : String)
  | sequence (items : List Yaml)
  | mapping (entries : List (Yaml × Yaml))
  | tagged (tag : String) (value : Yaml)

instance : Inhabited Yaml := ⟨.null⟩

namespace Yaml

/-- Numbers of different kinds are different keys; a number that is none equals itself. -/
def Number.same : Number → Number → Bool
  | .int a, .int b => a == b
  | .float a, .float b => a == b || (a.isNaN && b.isNaN)
  | _, _ => false

mutual

/-- Equality of values, as keys have it: the order of a mapping's entries does not count. -/
def same : Yaml → Yaml → Bool
  | .null, .null => true
  | .bool a, .bool b => a == b
  | .number a, .number b => a.same b
  | .string a, .string b => a == b
  | .sequence as, .sequence bs => sameItems as bs
  | .mapping as, .mapping bs => as.length == bs.length && sameEntries as bs
  | .tagged s a, .tagged t b => s == t && same a b
  | _, _ => false

def sameItems : List Yaml → List Yaml → Bool
  | [], [] => true
  | a :: as, b :: bs => same a b && sameItems as bs
  | _, _ => false

/-- Every entry of the first list is in the second. -/
def sameEntries : List (Yaml × Yaml) → List (Yaml × Yaml) → Bool
  | [], _ => true
  | (k, v) :: rest, bs => bs.any (fun (l, w) => same k l && same v w) && sameEntries rest bs

end

/-- The value under the tags. -/
def untagged : Yaml → Yaml
  | .tagged _ value => untagged value
  | value => value

/-- The entry of a mapping with a text for its key. -/
def find? (key : String) : List (Yaml × Yaml) → Option Yaml
  | [] => none
  | (.string k, v) :: rest => if k = key then some v else find? key rest
  | _ :: rest => find? key rest

/-- The entries with `key` set to `value`: in its old place when it has one, else at the end. -/
def insert (key : String) (value : Yaml) : List (Yaml × Yaml) → List (Yaml × Yaml)
  | [] => [(.string key, value)]
  | (.string k, v) :: rest =>
    if k = key then (.string k, value) :: rest else (.string k, v) :: insert key value rest
  | entry :: rest => entry :: insert key value rest

/-- The member of a mapping, tagged or not. -/
def member? (key : String) (value : Yaml) : Option Yaml :=
  match value.untagged with
  | .mapping entries => find? key entries
  | _ => none

def asString? (value : Yaml) : Option String :=
  match value.untagged with
  | .string s => some s
  | _ => none

def asMapping? (value : Yaml) : Option (List (Yaml × Yaml)) :=
  match value.untagged with
  | .mapping entries => some entries
  | _ => none

end Yaml

end HandlerWeave
