import HandlerWeave.Yaml.Scalar

/-!
Splitting a document into tokens. Columns become brackets: a block opens where a line starts further
right than the block around it, and closes where one starts further left. A key is known as such
only at its colon, so the places where a key could have started are kept until then.
-/
namespace HandlerWeave.Yaml

inductive Token
  | directive (body : Directive)
  | documentStart | documentEnd | streamEnd
  | blockSequence | blockMapping | blockEnd
  | flowSequence | flowSequenceEnd | flowMapping | flowMappingEnd
  | blockEntry | flowEntry | key | value
  | anchor (name : String) | aliased (name : String)
  | tag (handle : String) (bytes : List UInt8)
  | scalar (text : String) (plain : Bool)

/-- A place where a key may have started. -/
structure Candidate where
  /-- How many tokens stand before it. -/
  number : Nat
  /-- Nothing but a key fits there. -/
  required : Bool
  index : Nat
  line : Nat
  column : Nat

structure Scan where
  spot : Spot
  /-- Tokens found, last one first. -/
  tokens : List Token := []
  count : Nat := 0
  /-- Columns of the open blocks, innermost first. -/
  blocks : List Nat := []
  keyAllowed : Bool := true
  candidate : Option Candidate := none
  /-- Candidates in front of the open brackets, innermost first. -/
  outer : List (Option Candidate) := []

abbrev ScanM := StateT Scan (Except Fault)

namespace Scan

def inFlow (s : Scan) : Bool := !s.outer.isEmpty

/-- The column of the innermost block, less than zero outside all blocks. -/
def indent (s : Scan) : Int :=
  match s.blocks with
  | [] => -1
  | column :: _ => column

def emit (t : Token) : ScanM Unit :=
  modify fun s => { s with tokens := t :: s.tokens, count := s.count + 1 }

/-- Puts a token after the first `number` ones. -/
def insertAt (number : Nat) (t : Token) : ScanM Unit :=
  modify fun s =>
    let behind := s.count - number
    { s with
      tokens := s.tokens.take behind ++ t :: s.tokens.drop behind
      count := s.count + 1 }

def move (f : Spot → Spot) : ScanM Unit := modify fun s => { s with spot := f s.spot }

def allowKey (allowed : Bool) : ScanM Unit := modify fun s => { s with keyAllowed := allowed }

/-- Opens a block at a column further right than the block around. -/
def openBlock (column number : Nat) (t : Token) : ScanM Unit := do
  let s ← get
  if !s.inFlow && s.indent < column then
    modify fun s => { s with blocks := column :: s.blocks }
    insertAt number t

def closeBlocks (column : Int) : ScanM Unit := do
  let s ← get
  unless s.inFlow do
    let closed := (s.blocks.takeWhile fun (block : Nat) => column < block).length
    set { s with
      tokens := List.replicate closed Token.blockEnd ++ s.tokens
      count := s.count + closed
      blocks := s.blocks.drop closed }

def dropCandidate : ScanM Unit := do
  if (← get).candidate.any (·.required) then throw .missingColon
  modify fun s => { s with candidate := none }

/-- Keeps the place as one where a key may start. -/
def saveCandidate : ScanM Unit := do
  let s ← get
  if s.keyAllowed then
    dropCandidate
    let required := !s.inFlow && s.indent == (s.spot.column : Int)
    set { s with
      candidate := some ⟨s.count, required, s.spot.index, s.spot.line, s.spot.column⟩ }

/-- A key stays on one line and within a certain length. -/
def keepCandidate (spot : Spot) (c : Option Candidate) : Except Fault (Option Candidate) :=
  match c with
  | none => .ok none
  | some c =>
    if c.line < spot.line || c.index + 1024 < spot.index then
      if c.required then .error .missingColon else .ok none
    else .ok (some c)

def dropStale : ScanM Unit := do
  let s ← get
  let candidate ← liftM (keepCandidate s.spot s.candidate)
  let outer ← liftM (s.outer.mapM (keepCandidate s.spot))
  set { s with candidate, outer }

/-- Skips blanks, comments and line breaks. A tab is no blank where a key may start in a block. -/
def skipGap : Nat → ScanM Unit
  | 0 => pure ()
  | rounds + 1 => do
    move fun spot => if spot.index = 0 && spot.check '\ufeff' then spot.skip else spot
    let s ← get
    let tabs := s.inFlow || !s.keyAllowed
    move fun spot => spot.skipWhile fun c => c == ' ' || (tabs && c == '\t')
    move fun spot => if spot.check '#' then spot.skipWhile fun c => !isBreak c else spot
    if (← get).spot.any isBreak then
      move Spot.skipBreak
      unless s.inFlow do allowKey true
      skipGap rounds

def scanStreamEnd : ScanM Unit := do
  closeBlocks (-1)
  dropCandidate
  emit .streamEnd

def scanDirective : ScanM Unit := do
  closeBlocks (-1)
  dropCandidate
  allowKey false
  let (body, spot) ← liftM (directive (← get).spot.skip)
  move fun _ => spot
  emit (.directive body)

def scanDocumentMark (t : Token) : ScanM Unit := do
  closeBlocks (-1)
  dropCandidate
  allowKey false
  move (·.skipBy 3)
  emit t

def scanFlowStart (t : Token) : ScanM Unit := do
  saveCandidate
  modify fun s => { s with outer := s.candidate :: s.outer, candidate := none }
  allowKey true
  move Spot.skip
  emit t

def scanFlowEnd (t : Token) : ScanM Unit := do
  dropCandidate
  modify fun s =>
    match s.outer with
    | [] => s
    | candidate :: outer => { s with candidate, outer }
  allowKey false
  move Spot.skip
  emit t

def scanFlowEntry : ScanM Unit := do
  dropCandidate
  allowKey true
  move Spot.skip
  emit .flowEntry

/-- In a block, an indicator at which an entry starts needs a place where a key could start. -/
def openEntry (t : Token) : ScanM Unit := do
  let s ← get
  unless s.inFlow do
    unless s.keyAllowed do throw .misplacedEntry
    openBlock s.spot.column s.count t

def scanBlockEntry : ScanM Unit := do
  openEntry .blockSequence
  dropCandidate
  allowKey true
  move Spot.skip
  emit .blockEntry

def scanKey : ScanM Unit := do
  openEntry .blockMapping
  dropCandidate
  allowKey (!(← get).inFlow)
  move Spot.skip
  emit .key

def scanValue : ScanM Unit := do
  match (← get).candidate with
  | some c =>
    insertAt c.number .key
    openBlock c.column c.number .blockMapping
    modify fun s => { s with candidate := none }
    allowKey false
  | none =>
    openEntry .blockMapping
    allowKey (!(← get).inFlow)
  move Spot.skip
  emit .value

def scanAnchor (token : String → Token) : ScanM Unit := do
  saveCandidate
  allowKey false
  let (name, spot) ← liftM (anchorName (← get).spot.skip)
  move fun _ => spot
  emit (token name)

def scanTag : ScanM Unit := do
  saveCandidate
  allowKey false
  let s ← get
  let (handle, bytes, spot) ← liftM (nodeTag s.inFlow s.spot)
  move fun _ => spot
  emit (.tag handle bytes)

def scanBlockScalar (literal : Bool) : ScanM Unit := do
  dropCandidate
  allowKey true
  let s ← get
  let (text, spot) ← liftM (blockScalar literal s.indent s.spot.skip)
  move fun _ => spot
  emit (.scalar (String.ofList text) false)

def scanQuoted (single : Bool) : ScanM Unit := do
  saveCandidate
  allowKey false
  let s ← get
  let (text, spot) ← liftM (quotedScalar single s.spot.bound [] s.spot.skip)
  move fun _ => spot
  emit (.scalar (String.ofList text) false)

def scanPlain : ScanM Unit := do
  saveCandidate
  allowKey false
  let s ← get
  let (text, newLine, spot) ←
    liftM (plainScalar s.inFlow (s.indent + 1).toNat s.spot.bound [] {} s.spot)
  move fun _ => spot
  if newLine then allowKey true
  emit (.scalar (String.ofList text) true)

def indicators : List Char := "-?:,[]\x7b\x7d#&*!|>'\"%@`".toList

/-- A plain scalar may start here. -/
def startsPlain (s : Scan) (c : Char) : Bool :=
  let next := s.spot.peekAt 1
  (!endsWord (some c) && !indicators.contains c) ||
    (c == '-' && !next.any isBlank) ||
    (!s.inFlow && (c == '?' || c == ':') && !endsWord next)

/-- Reads the next token, and says whether there is one behind it. -/
def scanNext : ScanM Bool := do
  skipGap (← get).spot.bound
  dropStale
  closeBlocks (← get).spot.column
  let s ← get
  match s.spot.rest with
  | [] =>
    scanStreamEnd
    return false
  | c :: cs =>
    let ends := endsWord cs.head?
    if s.spot.column == 0 && c == '%' then scanDirective
    else if s.spot.atDocumentMark then
      scanDocumentMark (if c == '-' then .documentStart else .documentEnd)
    else if c == '[' then scanFlowStart .flowSequence
    else if c == '\x7b' then scanFlowStart .flowMapping
    else if c == ']' then scanFlowEnd .flowSequenceEnd
    else if c == '\x7d' then scanFlowEnd .flowMappingEnd
    else if c == ',' then scanFlowEntry
    else if c == '-' && ends then scanBlockEntry
    else if c == '?' && (s.inFlow || ends) then scanKey
    else if c == ':' && (s.inFlow || ends) then scanValue
    else if c == '*' then scanAnchor .aliased
    else if c == '&' then scanAnchor .anchor
    else if c == '!' then scanTag
    else if !s.inFlow && (c == '|' || c == '>') then scanBlockScalar (c == '|')
    else if c == '\'' || c == '"' then scanQuoted (c == '\'')
    else if startsPlain s c then scanPlain
    else throw .unexpectedCharacter
    return true

def scanAll : Nat → ScanM Unit
  | 0 => pure ()
  | rounds + 1 => do
    if ← scanNext then scanAll rounds

end Scan

def Token.ofText (text : String) : Except Fault (List Token) :=
  let spot := Spot.start text
  if !spot.rest.all isAllowed then .error .forbiddenCharacter
  else ((Scan.scanAll (spot.bound + 1)).run { spot }).map fun (_, s) => s.tokens.reverse

end HandlerWeave.Yaml
