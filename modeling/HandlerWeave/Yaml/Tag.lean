import HandlerWeave.Yaml.Spot

/-!
Tags and anchors in front of a node, and the directives in front of a document.
-/
namespace HandlerWeave.Yaml

/-- What a node's tag says about its value. -/
inductive Tag
  /-- A tag of the document's own, kept with the value. -/
  | own (name : String)
  | null | bool | int | float
  | other
deriving DecidableEq, Repr

/-- The meaning of a full tag. The mark in front of a tag of the document's own is no part of its
name, unless nothing follows it. Such a tag has no meaning when its bytes are no text. -/
def Tag.ofBytes? (bytes : List UInt8) : Option Tag :=
  let text := String.fromUTF8? ⟨bytes.toArray⟩
  match bytes with
  | 0x21 :: rest =>
    if rest.isEmpty then some (.own "!")
    else text.map fun text => .own (String.ofList (text.toList.drop 1))
  | _ =>
    some <| match text with
      | some "tag:yaml.org,2002:null" => .null
      | some "tag:yaml.org,2002:bool" => .bool
      | some "tag:yaml.org,2002:int" => .int
      | some "tag:yaml.org,2002:float" => .float
      | _ => .other

def utf8 (cs : List Char) : List UInt8 := (String.ofList cs).toUTF8.toList

def hexValue? (c : Char) : Option Nat :=
  if c.isDigit then some (c.toNat - '0'.toNat)
  else if 'a' ≤ c ∧ c ≤ 'f' then some (c.toNat - 'a'.toNat + 10)
  else if 'A' ≤ c ∧ c ≤ 'F' then some (c.toNat - 'A'.toNat + 10)
  else none

/-- Characters of a tag. Between angle brackets, and in a directive, a few more are allowed. -/
def isTagChar (wide : Bool) (c : Char) : Bool :=
  isNameChar c || ";/?:@&=+$.%!~*'()".toList.contains c || (wide && ",[]".toList.contains c)

/-- A byte written as two hexadecimal digits behind a percent sign. -/
def escapedByte? (s : Spot) : Option UInt8 :=
  match s.rest with
  | '%' :: a :: b :: _ =>
    match hexValue? a, hexValue? b with
    | some a, some b => some (UInt8.ofNat (a * 16 + b))
    | _, _ => none
  | _ => none

/-- How many bytes a character has that starts with `lead`. -/
def encodedWidth (lead : UInt8) : Nat :=
  if lead &&& 0x80 == 0 then 1
  else if lead &&& 0xe0 == 0xc0 then 2
  else if lead &&& 0xf0 == 0xe0 then 3
  else if lead &&& 0xf8 == 0xf0 then 4
  else 0

/-- The escaped bytes that complete a character. -/
def escapedTail : Nat → Spot → Except Fault (List UInt8 × Spot)
  | 0, s => .ok ([], s)
  | count + 1, s =>
    match escapedByte? s with
    | none => .error .badTag
    | some byte =>
      if byte &&& 0xc0 != 0x80 then .error .badTag
      else (escapedTail count (s.skipBy 3)).map fun (bytes, s) => (byte :: bytes, s)

/-- The bytes of one escaped character. -/
def escapedChar (s : Spot) : Except Fault (List UInt8 × Spot) :=
  match escapedByte? s with
  | none => .error .badTag
  | some lead =>
    if encodedWidth lead = 0 then .error .badTag
    else (escapedTail (encodedWidth lead - 1) (s.skipBy 3)).map fun (bytes, s) => (lead :: bytes, s)

/-- The bytes of a tag up to a character that belongs to none. -/
def tagBytes (wide : Bool) : Nat → Spot → Except Fault (List UInt8 × Spot)
  | 0, s => .ok ([], s)
  | rounds + 1, s =>
    match s.peek with
    | none => .ok ([], s)
    | some c =>
      if !isTagChar wide c then .ok ([], s)
      else do
        let (bytes, s) ← if c == '%' then escapedChar s else .ok (utf8 [c], s.skip)
        let (more, s) ← tagBytes wide rounds s
        return (bytes ++ more, s)

/-- A tag's text that may not be empty. -/
def tagText (wide : Bool) (s : Spot) : Except Fault (List UInt8 × Spot) := do
  let (bytes, s) ← tagBytes wide s.bound s
  if bytes.isEmpty then throw .badTag
  return (bytes, s)

/-- Reads `!`, a name, and `!` where it follows: a handle if it is there or the name is empty. -/
def handleText (s : Spot) : Except Fault (List Char × Spot) :=
  if !s.check '!' then .error .badTag
  else
    let name := s.skip.rest.takeWhile isNameChar
    let after := s.skip.skipBy name.length
    if after.check '!' then .ok ('!' :: name ++ ['!'], after.skip)
    else .ok ('!' :: name, after)

/-- Reads a tag: its handle, empty for a full tag, and what follows it. -/
def nodeTag (inFlow : Bool) (s : Spot) : Except Fault (String × List UInt8 × Spot) := do
  let (handle, bytes, s) ←
    if s.peekAt 1 == some '<' then do
      let (bytes, s) ← tagText true (s.skipBy 2)
      unless s.check '>' do throw .badTag
      pure ("", bytes, s.skip)
    else do
      let (handle, after) ← handleText s
      if handle.length > 1 && handle.getLast? == some '!' then
        let (bytes, s) ← tagText false after
        pure (String.ofList handle, bytes, s)
      else
        let (bytes, s) ← tagBytes false after.bound after
        let bytes := utf8 (handle.drop 1) ++ bytes
        pure (if bytes.isEmpty then ("", utf8 ['!'], s) else ("!", bytes, s))
  unless s.atWordEnd || (inFlow && s.check ',') do throw .badTag
  return (handle, bytes, s)

def anchorName (s : Spot) : Except Fault (String × Spot) :=
  let name := s.rest.takeWhile isNameChar
  let after := s.skipBy name.length
  if name.isEmpty || !(after.atWordEnd || after.any "?:,]\x7d%@`".toList.contains) then
    .error .badAnchor
  else .ok (String.ofList name, after)

inductive Directive
  | version (major minor : Nat)
  /-- A handle and what it stands for. -/
  | handle (name : String) (stem : List UInt8)

def versionNumber (s : Spot) : Except Fault (Nat × Spot) :=
  let digits := s.rest.takeWhile Char.isDigit
  if digits.isEmpty || 9 < digits.length then .error .badDirective
  else .ok (digits.foldl (fun n d => n * 10 + (d.toNat - '0'.toNat)) 0, s.skipBy digits.length)

def skipBlanks (s : Spot) : Spot := s.skipWhile isBlank

/-- Skips blanks and a comment, up to the end of the line. -/
def skipToLineEnd (s : Spot) : Spot :=
  let s := skipBlanks s
  if s.check '#' then s.skipWhile fun c => !isBreak c else s

def directiveBody (name : List Char) (s : Spot) : Except Fault (Directive × Spot) := do
  match String.ofList name with
  | "YAML" =>
    let (major, s) ← versionNumber (skipBlanks s)
    unless s.check '.' do throw .badDirective
    let (minor, s) ← versionNumber s.skip
    return (.version major minor, s)
  | "TAG" =>
    let (handle, s) ← handleText (skipBlanks s)
    unless handle.length = 1 || handle.getLast? == some '!' do throw .badDirective
    unless s.any isBlank do throw .badDirective
    let (stem, s) ← tagText true (skipBlanks s)
    unless s.atWordEnd do throw .badDirective
    return (.handle (String.ofList handle) stem, s)
  | _ => throw .badDirective

/-- Reads a directive behind its indicator, to the end of its line. -/
def directive (s : Spot) : Except Fault (Directive × Spot) := do
  let name := s.rest.takeWhile isNameChar
  let after := s.skipBy name.length
  unless after.atWordEnd do throw .badDirective
  let (found, s) ← directiveBody name after
  let s := skipToLineEnd s
  unless s.atLineEnd do throw .badDirective
  return (found, s.skipBreak)

end HandlerWeave.Yaml
