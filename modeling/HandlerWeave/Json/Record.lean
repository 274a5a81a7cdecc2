import HandlerWeave.Decimal.Shortest
import HandlerWeave.Json.Skip
import HandlerWeave.Text.Visible

/-!
Records with known fields, read from an object or from a list of the fields' values in their order.
Fields may be missing, and an object may have members of other names.
-/
namespace HandlerWeave.Json.Reader

/-- Refuses the value that comes next. Its text counts as read, except for lists and objects. -/
def refuse (expected : String) : Reader α := do
  let unwanted (found : String) : Reader α :=
    fail (.unwanted ("invalid type: " ++ found ++ ", expected " ++ expected))
  let unwantedNumber (n : Number) : Reader α :=
    match n with
    | .int n => unwanted ("integer `" ++ toString n ++ "`")
    | .float f => unwanted ("floating point `" ++ Decimal.text f ++ "`")
  match ← peek with
  | some 'n' => skip; word ['u', 'l', 'l']; unwanted "null"
  | some 't' => skip; word ['r', 'u', 'e']; unwanted "boolean `true`"
  | some 'f' => skip; word ['a', 'l', 's', 'e']; unwanted "boolean `false`"
  | some '-' => skip; unwantedNumber (← number false)
  | some '"' => skip; unwanted ("string " ++ Text.visible (← string))
  | some '[' => unwanted "sequence"
  | some '\x7b' => unwanted "map"
  | some c => if c.isDigit then unwantedNumber (← number true) else failAtNext .expectedValue
  | none => failAtNext .expectedValue

/-- Null, or what `r` reads. -/
def nullOr (r : Reader α) : Reader (Option α) := do
  match ← peekValue with
  | some 'n' => skip; word ['u', 'l', 'l']; return none
  | _ => return some (← r)

def text : Reader String := do
  match ← peekValue with
  | none => failAtNext .endInValue
  | some '"' => skip; string
  | some _ => refuse "a string"

/-- A field of records of type `ρ`. -/
structure Field (ρ : Type) where
  key : String
  read : ρ → Reader ρ

/-- Values for the fields in their order, as far as the list goes. -/
def listedFields : Nat → List (Field ρ) → ρ → Reader ρ
  | _, [], r => return r
  | index, f :: fields, r => do
    if ← within (.item index) (listContinues (index == 0)) then
      let r ← within (.item index) (f.read r)
      listedFields (index + 1) fields r
    else return r

/-- Refuses the second value of a field; the end of the object counts as read if it comes next. -/
def refuseRepeated (key : String) : Reader α := do
  if (← peekValue) == some '\x7d' then skip
  fail (.unwanted ("duplicate field `" ++ key ++ "`"))

/-- The members of an object. `found` are the fields that already have a value. -/
def namedFields (fields : List (Field ρ)) : Nat → Bool → List String → ρ → Reader ρ
  | 0, _, _, _ => fail .endInObject
  | rounds + 1, first, found, r => do
    match ← within .unknown (key? first) with
    | none => return r
    | some key =>
      match fields.find? (·.key == key) with
      | none =>
        within (.member key) (do colon; skipValue)
        namedFields fields rounds false found r
      | some f =>
        if found.contains key then refuseRepeated key
        else
          let r ← within (.member key) (do colon; f.read r)
          namedFields fields rounds false (key :: found) r

/-- A record of the type named `name`; `start` has the values of missing fields. -/
def record (name : String) (fields : List (Field ρ)) (start : ρ) : Reader ρ := do
  match ← peekValue with
  | none => failAtNext .endInValue
  | some '[' =>
    skip
    let r ← listedFields 0 fields start
    endList
    return r
  | some '\x7b' =>
    skip
    let r ← namedFields fields (← bound) true [] start
    endObject
    return r
  | some _ => refuse ("struct " ++ name)

/-- What `r` reads at the start of a text. What follows it is not looked at. -/
def run (r : Reader α) (source : String) : Except Failure α :=
  (r ⟨source.toList, 0⟩).map Prod.fst

end HandlerWeave.Json.Reader
