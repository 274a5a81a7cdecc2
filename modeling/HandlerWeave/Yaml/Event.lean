import HandlerWeave.Yaml.Token

/-!
A document as a row of events: scalars, aliases, and the starts and ends of collections. An alias
names its anchor by number. An anchor takes as its number how many names are known before it, so an
anchor whose name is used again may share its number with the next new name; the last node with a
number is then the one meant by it.
-/
namespace HandlerWeave.Yaml

inductive Event
  | aliased (number : Nat)
  | scalar (tag : Option Tag) (text : String) (plain : Bool)
  | sequenceStart (tag : Option Tag)
  | sequenceEnd
  | mappingStart (tag : Option Tag)
  | mappingEnd
deriving Repr

structure Document where
  events : List Event
  /-- Where the node of an anchor starts among the events, by the anchor's number; the latest entry
  comes first. -/
  places : List (Nat × Nat)

structure Weave where
  tokens : List Token
  /-- Events found, last one first. -/
  events : List Event := []
  count : Nat := 0
  /-- The names of anchors, with their numbers. -/
  names : List (String × Nat) := []
  places : List (Nat × Nat) := []
  /-- Handles of tags, with what they stand for. -/
  handles : List (String × List UInt8) := []

abbrev WeaveM := StateT Weave (Except Fault)

namespace Weave

def peek : WeaveM Token := return (← get).tokens.head?.getD .streamEnd

def skip : WeaveM Unit := modify fun s => { s with tokens := s.tokens.drop 1 }

def rounds : WeaveM Nat := return (← get).tokens.length + 1

def add (e : Event) : WeaveM Unit :=
  modify fun s => { s with events := e :: s.events, count := s.count + 1 }

/-- The scalar that stands where a document leaves a node out. -/
def addEmpty : WeaveM Unit := add (.scalar none "" true)

/-- Lets `name` mean the node that starts with the next event. -/
def nameNext : Option String → WeaveM Unit
  | none => pure ()
  | some name =>
    modify fun s =>
      let number := s.names.length
      { s with
        names := if s.names.any (·.1 == name)
          then s.names.map fun (n, k) => if n == name then (n, number) else (n, k)
          else s.names ++ [(name, number)]
        places := (number, s.count) :: s.places }

structure Properties where
  anchor : Option String := none
  /-- Handle and bytes of the tag as written. -/
  tag : Option (String × List UInt8) := none

def Properties.isEmpty (p : Properties) : Bool := p.anchor.isNone && p.tag.isNone

/-- An anchor and a tag, in either order, each at most once. -/
def properties : WeaveM Properties := do
  match ← peek with
  | .anchor name =>
    skip
    match ← peek with
    | .tag handle bytes =>
      skip
      return ⟨some name, some (handle, bytes)⟩
    | _ => return ⟨some name, none⟩
  | .tag handle bytes =>
    skip
    match ← peek with
    | .anchor name =>
      skip
      return ⟨some name, some (handle, bytes)⟩
    | _ => return ⟨none, some (handle, bytes)⟩
  | _ => return {}

/-- The meaning of a tag under the handles of the document. -/
def resolveTag : Option (String × List UInt8) → WeaveM (Option Tag)
  | none => return none
  | some (handle, bytes) => do
    if handle.isEmpty then return Tag.ofBytes? bytes
    match (← get).handles.lookup handle with
    | none => throw .undefinedTag
    | some stem => return Tag.ofBytes? (stem ++ bytes)

/-- The items of a sequence in block style. The nodes inside are read by `node block indentless`. -/
def blockItems (node : Bool → Bool → WeaveM Unit) : Nat → WeaveM Unit
  | 0 => throw .unexpectedToken
  | rounds + 1 => do
    match ← peek with
    | .blockEntry =>
      skip
      match ← peek with
      | .blockEntry | .blockEnd => addEmpty
      | _ => node true false
      blockItems node rounds
    | .blockEnd =>
      skip
      add .sequenceEnd
    | _ => throw .unexpectedToken

/-- The items of a sequence at the column of the mapping around it. -/
def indentlessItems (node : Bool → Bool → WeaveM Unit) : Nat → WeaveM Unit
  | 0 => throw .unexpectedToken
  | rounds + 1 => do
    match ← peek with
    | .blockEntry =>
      skip
      match ← peek with
      | .blockEntry | .key | .value | .blockEnd => addEmpty
      | _ => node true false
      indentlessItems node rounds
    | _ => add .sequenceEnd

/-- A key or a value in a block mapping, which may be left out. -/
def blockPart (node : Bool → Bool → WeaveM Unit) : WeaveM Unit := do
  match ← peek with
  | .key | .value | .blockEnd => addEmpty
  | _ => node true true

def blockEntries (node : Bool → Bool → WeaveM Unit) : Nat → WeaveM Unit
  | 0 => throw .unexpectedToken
  | rounds + 1 => do
    match ← peek with
    | .key =>
      skip
      blockPart node
      match ← peek with
      | .value =>
        skip
        blockPart node
      | _ => addEmpty
      blockEntries node rounds
    | .blockEnd =>
      skip
      add .mappingEnd
    | _ => throw .unexpectedToken

/-- The value behind a key in brackets that `closes` ends. -/
def flowValue (node : Bool → Bool → WeaveM Unit) (closes : Token → Bool) : WeaveM Unit := do
  match ← peek with
  | .value =>
    skip
    let t ← peek
    if t matches .flowEntry || closes t then addEmpty else node false false
  | _ => addEmpty

def closesSequence (t : Token) : Bool := t matches .flowSequenceEnd

def closesMapping (t : Token) : Bool := t matches .flowMappingEnd

/-- A mapping of one entry inside a sequence. A token that stands in place of the key is lost. -/
def flowPair (node : Bool → Bool → WeaveM Unit) : WeaveM Unit := do
  add (.mappingStart none)
  match ← peek with
  | .value | .flowEntry | .flowSequenceEnd =>
    skip
    addEmpty
  | _ => node false false
  flowValue node closesSequence
  add .mappingEnd

/-- Goes over the comma between two items. -/
def separator (first : Bool) : WeaveM Unit := do
  unless first do
    match ← peek with
    | .flowEntry => skip
    | _ => throw .unexpectedToken

def flowItems (node : Bool → Bool → WeaveM Unit) : Nat → Bool → WeaveM Unit
  | 0, _ => throw .unexpectedToken
  | rounds + 1, first => do
    if closesSequence (← peek) then
      skip
      add .sequenceEnd
    else
      separator first
      match ← peek with
      | .key =>
        skip
        flowPair node
        flowItems node rounds false
      | .flowSequenceEnd =>
        skip
        add .sequenceEnd
      | _ =>
        node false false
        flowItems node rounds false

def flowEntries (node : Bool → Bool → WeaveM Unit) : Nat → Bool → WeaveM Unit
  | 0, _ => throw .unexpectedToken
  | rounds + 1, first => do
    if closesMapping (← peek) then
      skip
      add .mappingEnd
    else
      separator first
      match ← peek with
      | .key =>
        skip
        match ← peek with
        | .value | .flowEntry | .flowMappingEnd => addEmpty
        | _ => node false false
        flowValue node closesMapping
        flowEntries node rounds false
      | .flowMappingEnd =>
        skip
        add .mappingEnd
      | _ =>
        node false false
        addEmpty
        flowEntries node rounds false

/-- Reads a node. `block` allows collections in block style, and `indentless` a sequence that is
not indented. -/
def node : Nat → Bool → Bool → WeaveM Unit
  | 0, _, _ => throw .tooDeep
  | levels + 1, block, indentless => do
    if let .aliased name ← peek then
      skip
      match (← get).names.lookup name with
      | some n => add (.aliased n)
      | none => throw .unknownAlias
    else
      let p ← properties
      let tag ← resolveTag p.tag
      let inner := node levels
      match ← peek, block, indentless with
      | .blockEntry, _, true =>
        nameNext p.anchor
        add (.sequenceStart tag)
        indentlessItems inner (← rounds)
      | .scalar text plain, _, _ =>
        skip
        nameNext p.anchor
        add (.scalar tag text plain)
      | .flowSequence, _, _ =>
        skip
        nameNext p.anchor
        add (.sequenceStart tag)
        flowItems inner (← rounds) true
      | .flowMapping, _, _ =>
        skip
        nameNext p.anchor
        add (.mappingStart tag)
        flowEntries inner (← rounds) true
      | .blockSequence, true, _ =>
        skip
        nameNext p.anchor
        add (.sequenceStart tag)
        blockItems inner (← rounds)
      | .blockMapping, true, _ =>
        skip
        nameNext p.anchor
        add (.mappingStart tag)
        blockEntries inner (← rounds)
      | _, _, _ =>
        if p.isEmpty then throw .unexpectedToken
        nameNext p.anchor
        add (.scalar tag "" true)

def defaultHandles : List (String × List UInt8) :=
  [("!", utf8 ['!']), ("!!", utf8 "tag:yaml.org,2002:".toList)]

/-- The directives in front of a document. The format's version is given at most once, and so is
each handle. -/
def directives : Nat → Bool → WeaveM Unit
  | 0, _ => throw .unexpectedToken
  | rounds + 1, versioned => do
    match ← peek with
    | .directive (.version major minor) =>
      if versioned || major ≠ 1 || (minor ≠ 1 && minor ≠ 2) then throw .badDirective
      skip
      directives rounds true
    | .directive (.handle name stem) =>
      if (← get).handles.any (·.1 == name) then throw .badDirective
      modify fun s => { s with handles := s.handles ++ [(name, stem)] }
      skip
      directives rounds versioned
    | _ => modify fun s => { s with handles := s.handles ++ defaultHandles }

/-- How deep nodes are read; a value may not be so deep. -/
def maxLevels : Nat := 140

def content : WeaveM Unit := do
  match ← peek with
  | .directive _ | .documentStart | .documentEnd | .streamEnd => addEmpty
  | _ => node maxLevels true false

def skipDocumentEnds : Nat → WeaveM Unit
  | 0 => pure ()
  | rounds + 1 => do
    if (← peek) matches .documentEnd then
      skip
      skipDocumentEnds rounds

/-- Reads the only document there is; a text with nothing in it has no events. -/
def document : WeaveM Unit := do
  match ← peek with
  | .streamEnd => pure ()
  | .directive _ | .documentStart =>
    directives (← rounds) false
    unless (← peek) matches .documentStart do throw .unexpectedToken
    skip
    content
  | _ =>
    directives (← rounds) false
    node maxLevels true false
  skipDocumentEnds (← rounds)
  unless (← peek) matches .streamEnd do throw .severalDocuments

end Weave

def Document.ofTokens (tokens : List Token) : Except Fault Document :=
  (Weave.document.run { tokens }).map fun (_, s) => ⟨s.events.reverse, s.places⟩

end HandlerWeave.Yaml
