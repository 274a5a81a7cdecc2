import HandlerWeave.Json

/-!
Going over a value whose content does not matter. Such a value may be nested to any depth, and its
strings may hold halves of surrogate pairs.
-/
namespace HandlerWeave.Json.Reader

inductive Bracket
  | list | object
deriving DecidableEq, Repr

def Bracket.close : Bracket → Char
  | list => ']'
  | object => '\x7d'

def Bracket.atEnd : Bracket → Cause
  | list => .endInList
  | object => .endInObject

def Bracket.unclosed : Bracket → Cause
  | list => .expectedListEnd
  | object => .expectedObjectEnd

def skipExponent : Reader Unit := do
  match ← peek with
  | some '+' | some '-' => skip
  | _ => pure ()
  if (digit? (← peek)).isNone then failAtNext .invalidNumber
  skipWhile Char.isDigit

def skipExponentOrEnd : Reader Unit := do
  match ← peek with
  | some 'e' | some 'E' => skip; skipExponent
  | _ => pure ()

def skipNumber : Reader Unit := do
  match digit? (← peek) with
  | none => failAtNext .invalidNumber
  | some first =>
    skip
    if first = 0 then
      if (digit? (← peek)).isSome then failAtNext .invalidNumber
    else skipWhile Char.isDigit
  match ← peek with
  | some '.' =>
    skip
    if (digit? (← peek)).isNone then failAtNext .invalidNumber
    skipWhile Char.isDigit
    skipExponentOrEnd
  | _ => skipExponentOrEnd

def skipEscape : Reader Unit := do
  match ← peek with
  | none => fail .endInString
  | some 'u' =>
    skip
    let _ ← hexEscape
  | some c =>
    if "\"\\/bfnrt".toList.contains c then skip else failAfter 1 .invalidEscape

def skipStringBody : Nat → Reader Unit
  | 0 => fail .endInString
  | rounds + 1 => do
    match ← peek with
    | none => fail .endInString
    | some '"' => skip
    | some '\\' => skip; skipEscape; skipStringBody rounds
    | some c => if c.toNat < 0x20 then fail .controlCharacter else skip; skipStringBody rounds

def skipString : Reader Unit := do skipStringBody (← bound)

def skipKey (b : Bracket) : Reader Unit := do
  if b = .object then
    match ← peekValue with
    | some '"' => skip
    | some _ => failAtNext .keyNotString
    | none => failAtNext .endInObject
    skipString
    colon

/-- Goes on behind a value to the next one in the open brackets. Without one, the outermost value
is read. -/
def afterValue : List Bracket → Reader (Option (List Bracket))
  | [] => return none
  | b :: outer => do
    match ← peekValue with
    | none => failAtNext b.atEnd
    | some c =>
      if c = ',' then
        skip
        skipKey b
        return some (b :: outer)
      else if c = b.close then
        skip
        afterValue outer
      else failAtNext b.unclosed

/-- Goes on behind an opening bracket. -/
def afterOpening (b : Bracket) (outer : List Bracket) : Reader (Option (List Bracket)) := do
  match ← peekValue with
  | none => failAtNext b.atEnd
  | some c =>
    if c = b.close then
      skip
      afterValue outer
    else
      skipKey b
      return some (b :: outer)

def skipValues : Nat → List Bracket → Reader Unit
  | 0, _ => fail .endInValue
  | rounds + 1, brackets => do
    let next ← match ← peekValue with
      | none => failAtNext .endInValue
      | some '[' => skip; afterOpening .list brackets
      | some '\x7b' => skip; afterOpening .object brackets
      | some c =>
        match c with
        | 'n' => skip; word ['u', 'l', 'l']
        | 't' => skip; word ['r', 'u', 'e']
        | 'f' => skip; word ['a', 'l', 's', 'e']
        | '"' => skip; skipString
        | '-' => skip; skipNumber
        | c => if c.isDigit then skipNumber else failAtNext .expectedValue
        afterValue brackets
    match next with
    | none => return
    | some brackets => skipValues rounds brackets

def skipValue : Reader Unit := do skipValues (← bound) []

end HandlerWeave.Json.Reader
