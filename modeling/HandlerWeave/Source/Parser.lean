import HandlerWeave.Source.Cursor
import HandlerWeave.Source.Group
import HandlerWeave.Source.SyntaxError

/-!
Parsers over a cursor, and the loops they are built with. A loop may run once for every token ahead
and once more, which is enough for any loop whose rounds each take a token.
-/
namespace HandlerWeave.Source

abbrev Parser := StateT Cursor (Except SyntaxError)

namespace Parser

def advance : Parser Unit := fun c => .ok ((), c.advance)

def fail (cause : Found → SyntaxError.Cause) : Parser α := fun c =>
  let found := match c.kind with
    | .endOfFile => .endOfFile
    | .stray => .stray c.text
    | _ => .token c.text
  .error ⟨cause found, c.token.start⟩

def tooDeep : Parser α := fun c => .error ⟨.tooDeep, c.token.start⟩

/-- Takes the next token if it is of that kind, and says whether it did. -/
def takeKind (kind : Token.Kind) : Parser Bool := fun c =>
  if c.check kind then .ok (true, c.advance) else .ok (false, c)

def require (kind : Token.Kind) (what : String) : Parser Unit := do
  if !(← takeKind kind) then fail (.expected what)

def takeWord (word : String) : Parser Bool := fun c =>
  if c.seesWord word then .ok (true, c.advance) else .ok (false, c)

def requireWord (word : String) : Parser Unit := do
  if !(← takeWord word) then fail (.expected ("`" ++ word ++ "`"))

def takeText : Parser String := fun c => .ok (c.text, c.advance)

/-- Any word. -/
def word (what : String) : Parser String := do
  if (← get).check .word then takeText else fail (.expected what)

def textSince (start : Cursor) : Parser String := fun c => .ok (start.textSince c, c)

def passGroup : Parser Unit := fun c =>
  match c.kind.closing? with
  | none => .error ⟨.noBracket, c.token.start⟩
  | some closer =>
    match Group.length [closer] c.advance.ahead with
    | .ok n => .ok ((), c.advance.advanceBy n)
    | .error .unclosed => .error ⟨.unclosedBracket, c.token.start⟩
    | .error (.mismatched n) => fail .mismatchedBracket (c.advance.advanceBy n)

def manyWithin (step : Parser (Option α)) : Nat → Parser (List α)
  | 0 => tooDeep
  | rounds + 1 => do
    match ← step with
    | none => return []
    | some a => return a :: (← manyWithin step rounds)

/-- Collects what `step` gives until it gives nothing. -/
def many (step : Parser (Option α)) : Parser (List α) := fun c =>
  manyWithin step (c.ahead.length + 1) c

def iterateWithin (step : σ → Parser (Option σ)) : Nat → σ → Parser σ
  | 0, _ => tooDeep
  | rounds + 1, s => do
    match ← step s with
    | none => return s
    | some s => iterateWithin step rounds s

/-- Repeats `step` on its own result until it gives nothing. -/
def iterate (step : σ → Parser (Option σ)) (s : σ) : Parser σ := fun c =>
  iterateWithin step (c.ahead.length + 1) s c

/-- Repeats `step` until it says no. -/
def skipWhile (step : Parser Bool) : Parser Unit :=
  iterate (fun _ => do return if ← step then some () else none) ()

def commaListWithin (closer : Token.Kind) (item : Parser α) : Nat → Parser (List α)
  | 0 => tooDeep
  | rounds + 1 => do
    if (← get).check closer then return []
    let a ← item
    if ← takeKind .comma then return a :: (← commaListWithin closer item rounds)
    return [a]

/-- Items with commas between them and perhaps behind the last one, up to `closer`. -/
def commaList (closer : Token.Kind) (item : Parser α) : Parser (List α) := fun c =>
  commaListWithin closer item (c.ahead.length + 1) c

def separatedWithin (separator : Token.Kind) (item : Parser α) : Nat → Parser (List α)
  | 0 => tooDeep
  | rounds + 1 => do
    let a ← item
    if ← takeKind separator then return a :: (← separatedWithin separator item rounds)
    return [a]

def separated (separator : Token.Kind) (item : Parser α) : Parser (List α) := fun c =>
  separatedWithin separator item (c.ahead.length + 1) c

/-- The item behind a token of that kind, if such a token comes next. -/
def after (kind : Token.Kind) (item : Parser α) : Parser (Option α) := do
  if ← takeKind kind then return some (← item) else return none

end Parser

end HandlerWeave.Source
