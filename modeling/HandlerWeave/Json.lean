import HandlerWeave.Text.Position

/-!
JSON values and a reader for them. Objects keep the order of their keys; a repeated key keeps its
first place and takes its last value. Integers that fit in 64 bits are exact, every other number is
a double. A failure names its cause and the byte at which the reader stood.
-/
namespace HandlerWeave

inductive Json.Number
  | int (value : Int)
  | float (value : Float)

inductive Json
  | null
  | bool (value : Bool)
  | number (value : Json.Number)
  | string (value : String)
  | array (items : List Json)
  | object (entries : List (String × Json))

instance : Inhabited Json := ⟨.null⟩

namespace Json

/-- The entries with `key` set to `value`: in its old place when it has one, else at the end. -/
def setEntry (key : String) (value : Json) : List (String × Json) → List (String × Json)
  | [] => [(key, value)]
  | (k, v) :: entries =>
    if k = key then (k, value) :: entries else (k, v) :: setEntry key value entries

inductive Cause
  | endInList | endInObject | endInString | endInValue
  | expectedColon | expectedListEnd | expectedObjectEnd | expectedWord | expectedValue
  | invalidEscape | invalidNumber | outOfRange | controlCharacter | keyNotString
  | loneSurrogate | hexEscapeCut | trailingComma | trailingCharacters | tooDeep
  /-- The value is well formed, and its kind or shape is not the wanted one. -/
  | unwanted (message : String)
deriving DecidableEq, Repr

def Cause.message : Cause → String
  | endInList => "EOF while parsing a list"
  | endInObject => "EOF while parsing an object"
  | endInString => "EOF while parsing a string"
  | endInValue => "EOF while parsing a value"
  | expectedColon => "expected `:`"
  | expectedListEnd => "expected `,` or `]`"
  | expectedObjectEnd => "expected `,` or `\x7d`"
  | expectedWord => "expected ident"
  | expectedValue => "expected value"
  | invalidEscape => "invalid escape"
  | invalidNumber => "invalid number"
  | outOfRange => "number out of range"
  | controlCharacter => "control character (\\u0000-\\u001F) found while parsing a string"
  | keyNotString => "key must be a string"
  | loneSurrogate => "lone leading surrogate in hex escape"
  | hexEscapeCut => "unexpected end of hex escape"
  | trailingComma => "trailing comma"
  | trailingCharacters => "trailing characters"
  | tooDeep => "recursion limit exceeded"
  | unwanted message => message

/-- A step from a value to one inside it. -/
inductive Step
  | item (index : Nat)
  | member (key : String)
  /-- A member whose key cannot be read. -/
  | unknown
deriving DecidableEq, Repr

structure Failure where
  cause : Cause
  index : Nat
  /-- The way to the value that cannot be read. -/
  path : List Step := []
deriving DecidableEq, Repr

def Failure.message (text : String) (failure : Failure) : String :=
  let position := Text.Position.ofOffset text failure.index
  failure.cause.message ++ " at line " ++ toString position.line ++ " column "
    ++ toString (position.column - 1)

def Step.text : Step → String
  | item index => "[" ++ toString index ++ "]"
  | member key => key
  | unknown => "?"

/-- A point stands before each member but the first step. -/
def pathText : List Step → String
  | [] => "."
  | first :: rest =>
    first.text ++ String.join (rest.map fun
      | .item index => (Step.item index).text
      | step => "." ++ step.text)

structure Input where
  rest : List Char
  index : Nat

abbrev Reader := StateT Input (Except Failure)

namespace Reader

def peek : Reader (Option Char) := return (← get).rest.head?

def skip : Reader Unit := modify fun input =>
  match input.rest with
  | [] => input
  | c :: rest => ⟨rest, input.index + c.utf8Size⟩

def failAfter (bytes : Nat) (cause : Cause) : Reader α := do
  throw { cause, index := (← get).index + bytes }

def fail (cause : Cause) : Reader α := failAfter 0 cause

/-- Fails because of the next byte, which then counts as read. -/
def failAtNext (cause : Cause) : Reader α := do
  failAfter (if (← get).rest.isEmpty then 0 else 1) cause

/-- Puts a step before the way to what `r` cannot read. -/
def within (step : Step) (r : Reader α) : Reader α := fun input =>
  match r input with
  | .error f => .error { f with path := step :: f.path }
  | .ok answer => .ok answer

def bound : Reader Nat := return (← get).rest.length + 1

def isBlank (c : Char) : Bool := c == ' ' || c == '\n' || c == '\t' || c == '\r'

def skipWhile (p : Char → Bool) : Reader Unit := modify fun input =>
  let taken := input.rest.takeWhile p
  ⟨input.rest.drop taken.length, input.index + Text.byteLength taken⟩

/-- The next character that is not blank. -/
def peekValue : Reader (Option Char) := do
  skipWhile isBlank
  peek

/-- The rest of a word whose first letter is read. -/
def word : List Char → Reader Unit
  | [] => return
  | c :: cs => do
    match ← peek with
    | none => fail .endInValue
    | some d => if d = c then skip; word cs else failAfter 1 .expectedWord

def digit? : Option Char → Option Nat
  | some c => if c.isDigit then some (c.toNat - '0'.toNat) else none
  | none => none

def largest : Nat := 0xffffffffffffffff

/-- The double nearest to `10 ^ exponent`. -/
def powerOfTen (exponent : Nat) : Float := Float.ofScientific 1 false exponent

/-- `significand * 10 ^ exponent` by floating point steps, each of which rounds. -/
def scale (significand : Nat) (exponent : Int) : Option Float :=
  let start := (UInt64.ofNat significand).toFloat
  if exponent ≥ 0 then
    if exponent > 308 then (if start == 0 then some start else none)
    else
      let scaled := start * powerOfTen exponent.toNat
      if scaled.isInf then none else some scaled
  else down start exponent.natAbs 4
where
  down (f : Float) (exponent : Nat) : Nat → Option Float
    | 0 => some 0
    | steps + 1 =>
      if exponent ≤ 308 then some (f / powerOfTen exponent)
      else if f == 0 then some f
      else down (f / powerOfTen 308) (exponent - 308) steps

def ofParts (positive : Bool) (significand : Nat) (exponent : Int) : Reader Number :=
  match scale significand exponent with
  | some f => return .float (if positive then f else -f)
  | none => fail .outOfRange

def exponentLimit : Nat := 0x7fffffff

def exponentDigits (significand : Nat) (positiveExponent : Bool) :
    Nat → Nat → Reader (Option Nat)
  | 0, exponent => return some exponent
  | steps + 1, exponent => do
    match digit? (← peek) with
    | none => return some exponent
    | some d =>
      skip
      if exponent * 10 + d > exponentLimit then
        if significand ≠ 0 && positiveExponent then fail .outOfRange
        skipWhile Char.isDigit
        return none
      else exponentDigits significand positiveExponent steps (exponent * 10 + d)

def exponent (positive : Bool) (significand : Nat) (start : Int) : Reader Number := do
  skip
  let sign ← peek
  if sign = some '+' || sign = some '-' then skip
  let up := sign ≠ some '-'
  match ← peek with
  | none => fail .endInValue
  | some c =>
    match digit? (some c) with
    | none => failAfter 1 .invalidNumber
    | some d =>
      skip
      match ← exponentDigits significand up (← bound) d with
      | some e => ofParts positive significand (if up then start + e else start - e)
      | none => return .float (if positive then 0.0 else -0.0)

/-- The digits of a number while they fit in 64 bits: their value, how many there were, and whether
one was left over. -/
def fittingDigits : Nat → Nat → Nat → Reader (Nat × Nat × Bool)
  | 0, value, count => return (value, count, false)
  | steps + 1, value, count => do
    match digit? (← peek) with
    | none => return (value, count, false)
    | some d =>
      if value * 10 + d > largest then return (value, count, true)
      skip
      fittingDigits steps (value * 10 + d) (count + 1)

def exponentOrEnd (positive : Bool) (significand : Nat) (start : Int) : Reader Number := do
  match ← peek with
  | some 'e' | some 'E' => exponent positive significand start
  | _ => ofParts positive significand start

def fraction (positive : Bool) (significand : Nat) (start : Int) : Reader Number := do
  skip
  let (value, count, full) ← fittingDigits (← bound) significand 0
  if full then
    skipWhile Char.isDigit
    exponentOrEnd positive value (start - count)
  else if count = 0 then
    failAtNext (if (← peek).isNone then .endInValue else .invalidNumber)
  else exponentOrEnd positive value (start - count)

def afterWhole (positive : Bool) (significand : Nat) : Reader Number := do
  match ← peek with
  | some '.' => fraction positive significand 0
  | some 'e' | some 'E' => exponent positive significand 0
  | _ =>
    if positive then return .int significand
    else if significand = 0 || significand > 0x8000000000000000 then
      return .float (-(UInt64.ofNat significand).toFloat)
    else return .int (-significand)

def number (positive : Bool) : Reader Number := do
  match ← peek with
  | none => fail .endInValue
  | some c =>
    match digit? (some c) with
    | none => failAfter 1 .invalidNumber
    | some 0 =>
      skip
      if (digit? (← peek)).isSome then failAtNext .invalidNumber
      afterWhole positive 0
    | some d =>
      skip
      let (value, _, full) ← fittingDigits (← bound) d 0
      if full then
        let before := (← get).rest.length
        skipWhile Char.isDigit
        let dropped := before - (← get).rest.length
        match ← peek with
        | some '.' => fraction positive value dropped
        | _ => exponentOrEnd positive value dropped
      else afterWhole positive value

def hexDigit? (c : Char) : Option Nat :=
  if c.isDigit then some (c.toNat - '0'.toNat)
  else if 'a' ≤ c ∧ c ≤ 'f' then some (c.toNat - 'a'.toNat + 10)
  else if 'A' ≤ c ∧ c ≤ 'F' then some (c.toNat - 'A'.toNat + 10)
  else none

/-- Four hexadecimal digits. Four bytes count as read also when they are no digits. -/
def hexEscape : Reader Nat := do
  let input ← get
  let bytes := Text.byteLength (input.rest.take 4)
  if bytes < 4 then failAfter bytes .endInString
  match (input.rest.take 4).mapM hexDigit? with
  | some digits =>
    set (⟨input.rest.drop 4, input.index + 4⟩ : Input)
    return digits.foldl (fun n d => n * 16 + d) 0
  | none => failAfter 4 .invalidEscape

/-- The second half of a surrogate pair. -/
def lowSurrogate : Reader Nat := do
  for c in ['\\', 'u'] do
    match ← peek with
    | none => fail .endInString
    | some d => if d = c then skip else failAfter 1 .hexEscapeCut
  let low ← hexEscape
  if low < 0xDC00 || low > 0xDFFF then fail .loneSurrogate
  return low

def unicodeEscape : Reader Char := do
  let high ← hexEscape
  if 0xDC00 ≤ high && high ≤ 0xDFFF then fail .loneSurrogate
  if high < 0xD800 || high > 0xDBFF then return Char.ofNat high
  let low ← lowSurrogate
  return Char.ofNat ((high - 0xD800) * 0x400 + (low - 0xDC00) + 0x10000)

def escape : Reader Char := do
  match ← peek with
  | none => fail .endInString
  | some 'u' => skip; unicodeEscape
  | some c =>
    let plain := match c with
      | '"' | '\\' | '/' => some c
      | 'b' => some '\x08'
      | 'f' => some '\x0c'
      | 'n' => some '\n'
      | 'r' => some '\r'
      | 't' => some '\t'
      | _ => none
    match plain with
    | some d => skip; return d
    | none => failAfter 1 .invalidEscape

/-- The characters of a string up to its closing quote, the opening one being read. -/
def stringBody : Nat → List Char → Reader String
  | 0, _ => fail .endInString
  | steps + 1, read => do
    match ← peek with
    | none => fail .endInString
    | some '"' => skip; return String.ofList read.reverse
    | some '\\' =>
      skip
      let c ← escape
      stringBody steps (c :: read)
    | some c =>
      if c.toNat < 0x20 then failAfter 1 .controlCharacter
      skip
      stringBody steps (c :: read)

def string : Reader String := do stringBody (← bound) []

def listContinues (first : Bool) : Reader Bool := do
  match ← peekValue with
  | none => failAtNext .endInList
  | some ']' => return false
  | some c =>
    if first then return true
    else if c = ',' then
      skip
      match ← peekValue with
      | some ']' => failAtNext .trailingComma
      | some _ => return true
      | none => failAtNext .endInValue
    else failAtNext .expectedListEnd

/-- Whether an object goes on; if so, its next key starts here. -/
def objectContinues (first : Bool) : Reader Bool := do
  match ← peekValue with
  | none => failAtNext .endInObject
  | some '\x7d' => return false
  | some c =>
    if first then
      if c = '"' then return true else failAtNext .keyNotString
    else if c = ',' then
      skip
      match ← peekValue with
      | some '"' => return true
      | some '\x7d' => failAtNext .trailingComma
      | some _ => failAtNext .keyNotString
      | none => failAtNext .endInValue
    else failAtNext .expectedObjectEnd

def colon : Reader Unit := do
  match ← peekValue with
  | some ':' => skip
  | some _ => failAtNext .expectedColon
  | none => failAtNext .endInObject

def endList : Reader Unit := do
  match ← peekValue with
  | some ']' => skip
  | some ',' =>
    skip
    match ← peekValue with
    | some ']' => failAtNext .trailingComma
    | _ => failAtNext .trailingCharacters
  | some _ => failAtNext .trailingCharacters
  | none => failAtNext .endInList

def endObject : Reader Unit := do
  match ← peekValue with
  | some '\x7d' => skip
  | some ',' => failAtNext .trailingComma
  | some _ => failAtNext .trailingCharacters
  | none => failAtNext .endInObject

def items (item : Reader α) : Nat → Nat → Reader (List α)
  | 0, _ => fail .endInList
  | rounds + 1, index => do
    if ← within (.item index) (listContinues (index == 0)) then
      let a ← within (.item index) item
      return a :: (← items item rounds (index + 1))
    else return []

/-- The next key, if the object goes on. -/
def key? (first : Bool) : Reader (Option String) := do
  if ← objectContinues first then
    skip
    return some (← string)
  else return none

def entries (value : Reader Json) :
    Nat → Bool → List (String × Json) → Reader (List (String × Json))
  | 0, _, _ => fail .endInObject
  | rounds + 1, first, read => do
    match ← within .unknown (key? first) with
    | none => return read
    | some key =>
      let v ← within (.member key) (do colon; value)
      entries value rounds false (setEntry key v read)

def depthLimit : Nat := 127

/-- A value whose lists and objects hold what `nested` reads; without it they are refused. -/
def valueOver (nested : Option (Reader Json)) : Reader Json := do
  match ← peekValue with
  | none => failAtNext .endInValue
  | some 'n' => skip; word ['u', 'l', 'l']; return .null
  | some 't' => skip; word ['r', 'u', 'e']; return .bool true
  | some 'f' => skip; word ['a', 'l', 's', 'e']; return .bool false
  | some '-' => skip; return .number (← number false)
  | some '"' => skip; return .string (← string)
  | some '[' =>
    match nested with
    | none => failAtNext .tooDeep
    | some nested =>
      skip
      let read ← items nested (← bound) 0
      endList
      return .array read
  | some '\x7b' =>
    match nested with
    | none => failAtNext .tooDeep
    | some nested =>
      skip
      let read ← entries nested (← bound) true []
      endObject
      return .object read
  | some c => if c.isDigit then return .number (← number true) else failAtNext .expectedValue

/-- A value with room for `depth` levels of lists and objects. -/
def valueWithin : Nat → Reader Json
  | 0 => valueOver none
  | depth + 1 => valueOver (some (valueWithin depth))

def value : Reader Json := valueWithin depthLimit

end Reader

/-- The value at the start of a text. What follows it is not looked at. -/
def read (text : String) : Except Failure Json :=
  (Reader.value ⟨text.toList, 0⟩).map Prod.fst

end Json

end HandlerWeave
