import HandlerWeave.Yaml.Event
import HandlerWeave.Yaml.Plain

/-!
The value that a document stands for. A collection is not nested deeper than 128 times, keys of a
mapping differ, and aliases are followed a bounded number of times.
-/
namespace HandlerWeave.Yaml

/-- A plain scalar under no tag that fixes its kind. -/
def plainValue (text : String) : Except Fault Yaml :=
  match Plain.value? text with
  | some value => .ok value
  | none => .error .integerTooWide

def integerValue (text : String) : Except Fault Yaml :=
  match Plain.integer? text.toList with
  | some n =>
    if Plain.isNarrow n then .ok (.number (.int n))
    else if Plain.isWide n then .error .integerTooWide
    else .error .unfitValue
  | none => .error .unfitValue

def scalarValue (tag : Option Tag) (text : String) (plain : Bool) : Except Fault Yaml :=
  match tag with
  | none => if plain then plainValue text else .ok (.string text)
  | some (.own name) =>
    (if plain then plainValue text else .ok (.string text)).map (Yaml.tagged name)
  | some .null => if Plain.nulls.contains text then .ok .null else .error .unfitValue
  | some .bool =>
    if Plain.trues.contains text then .ok (.bool true)
    else if Plain.falses.contains text then .ok (.bool false)
    else .error .unfitValue
  | some .int => integerValue text
  | some .float =>
    match Plain.float? text.toList with
    | some f => .ok (.number (.float f))
    | none => .error .unfitValue
  | some .other => .ok (.string text)

/-- A collection keeps a tag of the document's own; other tags say nothing about it. -/
def underTag (tag : Option Tag) (value : Yaml) : Yaml :=
  match tag with
  | some (.own name) => .tagged name value
  | _ => value

/-- Reads a value off the front of the events. The number counts the aliases followed. -/
abbrev Reader := List Event → Nat → Except Fault (Yaml × List Event × Nat)

def readItems (read : Reader) :
    Nat → List Event → Nat → Except Fault (List Yaml × List Event × Nat)
  | 0, _, _ => .error .unexpectedToken
  | _, .sequenceEnd :: rest, jumps => .ok ([], rest, jumps)
  | rounds + 1, events, jumps => do
    let (item, events, jumps) ← read events jumps
    let (items, events, jumps) ← readItems read rounds events jumps
    return (item :: items, events, jumps)

/-- Reads the entries of a mapping whose keys are not among `before`. -/
def readEntries (read : Reader) :
    Nat → List Yaml → List Event → Nat → Except Fault (List (Yaml × Yaml) × List Event × Nat)
  | 0, _, _, _ => .error .unexpectedToken
  | _, _, .mappingEnd :: rest, jumps => .ok ([], rest, jumps)
  | rounds + 1, before, events, jumps => do
    let (key, events, jumps) ← read events jumps
    if before.any (same key) then throw .duplicateKey
    let (value, events, jumps) ← read events jumps
    let (entries, events, jumps) ← readEntries read rounds (key :: before) events jumps
    return ((key, value) :: entries, events, jumps)

/-- Reads a node that is no alias. `inner` reads what is in a collection, where one may be. -/
def readNode (inner : Option Reader) : Reader := fun events jumps =>
  match events, inner with
  | .scalar tag text plain :: rest, _ =>
    (scalarValue tag text plain).map fun value => (value, rest, jumps)
  | .sequenceStart tag :: rest, some read =>
    (readItems read events.length rest jumps).map fun (items, rest, jumps) =>
      (underTag tag (.sequence items), rest, jumps)
  | .mappingStart tag :: rest, some read =>
    (readEntries read events.length [] rest jumps).map fun (entries, rest, jumps) =>
      (underTag tag (.mapping entries), rest, jumps)
  | .sequenceStart _ :: _, none | .mappingStart _ :: _, none => .error .tooDeep
  | _, _ => .error .unexpectedToken

namespace Document

/-- The events from the node of an anchor on. -/
def target? (d : Document) (n : Nat) : Option (List Event) :=
  (d.places.lookup n).map fun place => d.events.drop place

/-- How many times aliases are followed at most. -/
def maxJumps (d : Document) : Nat := 100 * d.events.length

def readAny (d : Document) (inner : Option Reader) : Reader := fun events jumps =>
  match events with
  | .aliased n :: rest =>
    if d.maxJumps ≤ jumps then .error .tooManyAliases
    else
      match d.target? n with
      | none => .error .unknownAlias
      | some events =>
        (readNode inner events (jumps + 1)).map fun (value, _, jumps) => (value, rest, jumps)
  | _ => readNode inner events jumps

/-- Reads a value with at most `depth` collections around one another. -/
def reader (d : Document) : Nat → Reader
  | 0 => d.readAny none
  | depth + 1 => d.readAny (some (d.reader depth))

def maxDepth : Nat := 128

def toValue (d : Document) : Except Fault Yaml :=
  if d.events.isEmpty then .ok .null
  else (d.reader maxDepth d.events 0).map fun (value, _, _) => value

end Document

def read (text : String) : Except Fault Yaml := do
  (← Document.ofTokens (← Token.ofText text)).toValue

end HandlerWeave.Yaml
